import Manus.Expression.Writing

/-! # Reading back what was written

A write and a read parse the same selectors, but they do not pick an item by the same
test: a write trims the name of the field and takes a missing field for the text None.
A value can be read back exactly where, at every selector, both pick the same item and
the write leaves the tested field alone.
-/

namespace Manus.Expression

section Conditions

def segmentKey : PathSegment → String
  | .key key => key
  | .filter key _ _ => key
  | .index key _ => key

def headKey : List (List Char) → Option String
  | [] => none
  | part :: _ => some (segmentKey (pathSegment part))

def ReaderAgrees (field wanted : String) (picked : Picked) : Prop :=
  findItem [field] wanted picked.before = .ok none ∧
    matchesFilter [field] wanted (.obj picked.target) = .ok true

/-- Whether a value can be read at a path after it is written there, told from the object as it is
before. -/
inductive Readable : List (List Char) → List (String × Json) → Prop

  | last {part : List Char} {fields : List (String × Json)} {key : String}
      (hpart : pathSegment part = .key key) : Readable [part] fields

  | inner {part : List Char} {rest : List (List Char)} {fields : List (String × Json)}
      {key : String} (hpart : pathSegment part = .key key)
      (hrest : Readable rest (fieldsOf (fields.lookup key))) : Readable (part :: rest) fields

  | picked {part : List Char} {rest : List (List Char)} {fields : List (String × Json)}
      {key field wanted : String} {items : List Json} {picked : Picked}
      (hpart : pathSegment part = .filter key [field] wanted)
      (hitems : itemsOf key [field] wanted (fields.lookup key) = .ok items)
      (hpicked : pickItem (String.ofList (pyStrip field.toList)) wanted items = .ok (some picked))
      (hagrees : ReaderAgrees field wanted picked) (hkept : headKey rest ≠ some field)
      (hrest : Readable rest picked.target) : Readable (part :: rest) fields

  | appended {part : List Char} {rest : List (List Char)} {fields : List (String × Json)}
      {key field wanted : String} {items : List Json}
      (hpart : pathSegment part = .filter key [field] wanted)
      (hitems : itemsOf key [field] wanted (fields.lookup key) = .ok items)
      (hnone : pickItem (String.ofList (pyStrip field.toList)) wanted items = .ok none)
      (htrimmed : String.ofList (pyStrip field.toList) = field)
      (hkept : headKey rest ≠ some field)
      (hrest : Readable rest [(field, .str wanted)]) : Readable (part :: rest) fields

def LastUntested (parts : List (List Char)) : Prop :=
  ∀ last ∈ parts.getLast?, ∀ part ∈ parts, ∀ key field wanted,
    pathSegment part = .filter key field wanted → ".".intercalate field ≠ String.ofList last

end Conditions

section Entries

variable {value : Json} {part : List Char} {rest : List (List Char)}
  {fields : List (String × Json)} {entry : String × Json}

theorem writableField_eq_ok {key wanted flat : String} {field : List String}
    (h : writableField key field wanted rest = .ok flat) :
    ∃ name, field = [name] ∧ rest ≠ [] ∧ flat = String.ofList (pyStrip name.toList) := by
  unfold writableField at h
  dsimp only at h
  rw [ite_error_eq_ok] at h
  obtain ⟨-, h⟩ := h
  split at h
  · rw [ite_error_eq_ok] at h
    exact ⟨_, rfl, h.1, (Except.ok.inj h.2).symm⟩
  · cases h

theorem writtenEntry_filter {key wanted : String} {field : List String}
    (hpart : pathSegment part = .filter key field wanted)
    (h : writtenEntry value (part :: rest) fields = .ok entry) :
    ∃ name items found, field = [name] ∧ rest ≠ [] ∧
      itemsOf key [name] wanted (fields.lookup key) = .ok items ∧
      pickItem (String.ofList (pyStrip name.toList)) wanted items = .ok found ∧
      ((∃ picked inner, found = some picked ∧ writtenEntry value rest picked.target = .ok inner ∧
        entry = (key, .arr (picked.before ++
          .obj (Dict.insertEntry inner.1 inner.2 picked.target) :: picked.after))) ∨
      (∃ inner, found = none ∧
        writtenEntry value rest [(String.ofList (pyStrip name.toList), .str wanted)] = .ok inner ∧
        entry = (key, .arr (items ++ [.obj (Dict.insertEntry inner.1 inner.2
          [(String.ofList (pyStrip name.toList), .str wanted)])])))) := by
  rw [writtenEntry] at h
  simp only [hpart] at h
  obtain ⟨flat, hflat, h⟩ := bind_eq_ok.mp h
  obtain ⟨name, rfl, hrest, rfl⟩ := writableField_eq_ok hflat
  obtain ⟨items, hitems, h⟩ := bind_eq_ok.mp h
  obtain ⟨found, hfound, h⟩ := bind_eq_ok.mp h
  refine ⟨name, items, found, rfl, hrest, hitems, hfound, ?_⟩
  cases found with
  | some picked =>
    obtain ⟨inner, hinner, h⟩ := bind_eq_ok.mp h
    exact Or.inl ⟨picked, inner, rfl, hinner, (Except.ok.inj h).symm⟩
  | none =>
    obtain ⟨inner, hinner, h⟩ := bind_eq_ok.mp h
    exact Or.inr ⟨inner, rfl, hinner, (Except.ok.inj h).symm⟩

theorem writtenEntry_picked {key field wanted : String} {items : List Json} {picked : Picked}
    (hpart : pathSegment part = .filter key [field] wanted)
    (hitems : itemsOf key [field] wanted (fields.lookup key) = .ok items)
    (hpicked : pickItem (String.ofList (pyStrip field.toList)) wanted items = .ok (some picked))
    (h : writtenEntry value (part :: rest) fields = .ok entry) :
    ∃ inner, writtenEntry value rest picked.target = .ok inner ∧
      entry = (key, .arr (picked.before ++
        .obj (Dict.insertEntry inner.1 inner.2 picked.target) :: picked.after)) := by
  obtain ⟨name, items', found, hname, -, hitems', hfound, hentry⟩ := writtenEntry_filter hpart h
  obtain rfl : field = name := by simpa using hname
  obtain rfl := Except.ok.inj (hitems.symm.trans hitems')
  obtain rfl := Except.ok.inj (hpicked.symm.trans hfound)
  rcases hentry with ⟨picked', inner, hsome, hinner, rfl⟩ | ⟨inner, hnone, -⟩
  · obtain rfl := Option.some.inj hsome
    exact ⟨inner, hinner, rfl⟩
  · cases hnone

theorem writtenEntry_appended {key field wanted : String} {items : List Json}
    (hpart : pathSegment part = .filter key [field] wanted)
    (hitems : itemsOf key [field] wanted (fields.lookup key) = .ok items)
    (hnone : pickItem (String.ofList (pyStrip field.toList)) wanted items = .ok none)
    (h : writtenEntry value (part :: rest) fields = .ok entry) :
    ∃ inner, writtenEntry value rest [(String.ofList (pyStrip field.toList), .str wanted)] =
        .ok inner ∧
      entry = (key, .arr (items ++ [.obj (Dict.insertEntry inner.1 inner.2
        [(String.ofList (pyStrip field.toList), .str wanted)])])) := by
  obtain ⟨name, items', found, hname, -, hitems', hfound, hentry⟩ := writtenEntry_filter hpart h
  obtain rfl : field = name := by simpa using hname
  obtain rfl := Except.ok.inj (hitems.symm.trans hitems')
  obtain rfl := Except.ok.inj (hnone.symm.trans hfound)
  rcases hentry with ⟨picked', inner, hsome, -⟩ | ⟨inner, -, hinner, rfl⟩
  · cases hsome
  · exact ⟨inner, hinner, rfl⟩

theorem writtenEntry_key_last {key : String} (hpart : pathSegment part = .key key) :
    writtenEntry value [part] fields = .ok (key, value) := by
  simp [writtenEntry, hpart]

theorem writtenEntry_key_inner {key : String} {next : List Char}
    (hpart : pathSegment part = .key key)
    (h : writtenEntry value (part :: next :: rest) fields = .ok entry) :
    ∃ inner, writtenEntry value (next :: rest) (fieldsOf (fields.lookup key)) = .ok inner ∧
      entry = (key, .obj (Dict.insertEntry inner.1 inner.2 (fieldsOf (fields.lookup key)))) := by
  rw [writtenEntry] at h
  simp only [hpart] at h
  obtain ⟨inner, hinner, h⟩ := bind_eq_ok.mp h
  exact ⟨inner, hinner, (Except.ok.inj h).symm⟩

theorem writtenEntry_index {key : String} {digits : List Char}
    (hpart : pathSegment part = .index key digits) :
    writtenEntry value (part :: rest) fields ≠ .ok entry := by
  simp [writtenEntry, hpart]

theorem writtenEntry_key (h : writtenEntry value (part :: rest) fields = .ok entry) :
    entry.1 = segmentKey (pathSegment part) := by
  cases hpart : pathSegment part with
  | key key =>
    cases rest with
    | nil =>
      rw [writtenEntry_key_last hpart] at h
      obtain rfl := Except.ok.inj h
      rfl
    | cons next rest =>
      obtain ⟨inner, -, rfl⟩ := writtenEntry_key_inner hpart h
      rfl
  | filter key field wanted =>
    obtain ⟨name, items, found, -, -, -, -, hentry⟩ := writtenEntry_filter hpart h
    rcases hentry with ⟨picked, inner, -, -, rfl⟩ | ⟨inner, -, -, rfl⟩ <;> rfl
  | index key digits => exact absurd h (writtenEntry_index hpart)

theorem writtenEntry_container {next : List Char}
    (h : writtenEntry value (part :: next :: rest) fields = .ok entry) :
    isContainer entry.2 = true := by
  cases hpart : pathSegment part with
  | key key =>
    obtain ⟨inner, -, rfl⟩ := writtenEntry_key_inner hpart h
    rfl
  | filter key field wanted =>
    obtain ⟨name, items, found, -, -, -, -, hentry⟩ := writtenEntry_filter hpart h
    rcases hentry with ⟨picked, inner, -, -, rfl⟩ | ⟨inner, -, -, rfl⟩ <;> rfl
  | index key digits => exact absurd h (writtenEntry_index hpart)

/-- Whether a path can be written does not depend on the value. -/
theorem writtenEntry_ok {other : Json} {parts : List (List Char)}
    (h : writtenEntry value parts fields = .ok entry) :
    ∃ entry, writtenEntry other parts fields = .ok entry := by
  induction parts generalizing fields entry with
  | nil => cases h
  | cons part rest ih =>
    cases hpart : pathSegment part with
    | key key =>
      cases rest with
      | nil => exact ⟨_, writtenEntry_key_last hpart⟩
      | cons next rest =>
        obtain ⟨inner, hinner, -⟩ := writtenEntry_key_inner hpart h
        obtain ⟨inner', hinner'⟩ := ih hinner
        rw [writtenEntry]
        simp only [hpart]
        exact ⟨_, bind_eq_ok.mpr ⟨inner', hinner', rfl⟩⟩
    | filter key field wanted =>
      rw [writtenEntry] at h ⊢
      simp only [hpart] at h ⊢
      obtain ⟨flat, hflat, h⟩ := bind_eq_ok.mp h
      obtain ⟨items, hitems, h⟩ := bind_eq_ok.mp h
      obtain ⟨found, hfound, h⟩ := bind_eq_ok.mp h
      cases found with
      | some picked =>
        obtain ⟨inner, hinner, -⟩ := bind_eq_ok.mp h
        obtain ⟨inner', hinner'⟩ := ih hinner
        simp only [bind, Except.bind, hflat, hitems, hfound, hinner']
        exact ⟨_, rfl⟩
      | none =>
        obtain ⟨inner, hinner, -⟩ := bind_eq_ok.mp h
        obtain ⟨inner', hinner'⟩ := ih hinner
        simp only [bind, Except.bind, hflat, hitems, hfound, hinner']
        exact ⟨_, rfl⟩
    | index key digits => exact absurd h (writtenEntry_index hpart)

end Entries

section Picks

variable {field wanted : String}

theorem findItem_append (field : List String) (wanted : String) (before after : List Json) :
    findItem field wanted (before ++ after) = (do
      match ← findItem field wanted before with
      | some item => return some item
      | none => findItem field wanted after) := by
  induction before with
  | nil => rfl
  | cons item before ih =>
    rw [List.cons_append, findItem, findItem]
    cases matchesFilter field wanted item with
    | error e => rfl
    | ok found =>
      cases found with
      | true => rfl
      | false => exact ih

theorem findItem_cons_of_match {item : Json} {items : List Json}
    (h : matchesFilter [field] wanted item = .ok true) :
    findItem [field] wanted (item :: items) = .ok (some item) := by
  rw [findItem, h]
  rfl

theorem findItem_cons_of_not_match {item : Json} {items : List Json}
    (h : matchesFilter [field] wanted item = .ok false) :
    findItem [field] wanted (item :: items) = findItem [field] wanted items := by
  rw [findItem, h]
  rfl

theorem matchesFilter_flat (fields : List (String × Json)) :
    matchesFilter [field] wanted (.obj fields) =
      (let candidate := (fields.lookup field).getD .null
      if candidate = .null ∨ isContainer candidate then .ok false
      else (strJson candidate).map (· == wanted)) := rfl

theorem matchesFilter_insert_of_ne {key : String} (value : Json) (target : List (String × Json))
    (hne : key ≠ field) :
    matchesFilter [field] wanted (.obj (Dict.insertEntry key value target)) =
      matchesFilter [field] wanted (.obj target) := by
  rw [matchesFilter_flat, matchesFilter_flat, Dict.lookup_insertEntry, if_neg (Ne.symm hne)]

theorem matchesFilter_insert_container {value : Json} (target : List (String × Json))
    (hvalue : isContainer value = true) :
    matchesFilter [field] wanted (.obj (Dict.insertEntry field value target)) = .ok false := by
  rw [matchesFilter_flat, Dict.lookup_insertEntry, if_pos rfl]
  simp [hvalue]

theorem strAny_eq_strJson {value : Json} (hscalar : isContainer value = false) :
    strAny value = strJson value := by
  cases value with
  | int n =>
    rw [strAny, strJson, strInt, hasLongInt]
    by_cases hlong : maxStrDigits < (Nat.toDigits 10 n.natAbs).length
    · simp [hlong]
    · simp [hlong, pyStr, pyReprJson]
  | arr items => cases hscalar
  | obj fields => cases hscalar
  | _ => simp [strAny, strJson, hasLongInt]

theorem matchesFilter_of_writeMatches {item : Json}
    (h : writeMatches field wanted item = .ok false) :
    matchesFilter [field] wanted item = .ok false := by
  cases item with
  | obj fields =>
    rw [matchesFilter_flat]
    dsimp only
    split
    · rfl
    · next hscalar =>
      rw [not_or, Bool.not_eq_true] at hscalar
      rw [← strAny_eq_strJson hscalar.2]
      exact h
  | _ => rfl

theorem findItem_of_pickItem_none {items : List Json}
    (h : pickItem field wanted items = .ok none) : findItem [field] wanted items = .ok none := by
  induction items with
  | nil => rfl
  | cons item items ih =>
    obtain ⟨found, hfound, h⟩ := bind_eq_ok.mp h
    split at h
    · cases h
    · next hother =>
      obtain ⟨picked, hpicked, h⟩ := bind_eq_ok.mp h
      have hrest : picked = none := by simpa [pure, Except.pure] using h
      have hfalse : found = false := by
        cases found with
        | false => rfl
        | true =>
          cases item with
          | obj target => exact absurd rfl (hother target rfl)
          | _ => cases hfound
      subst hrest hfalse
      rw [findItem_cons_of_not_match (matchesFilter_of_writeMatches hfound)]
      exact ih hpicked

theorem matchesFilter_created : matchesFilter [field] wanted (.obj [(field, .str wanted)]) =
    .ok true := by
  rw [matchesFilter_flat]
  simp [isContainer, strJson, pyStr, Except.map]

end Picks

section Reading

variable {value : Json} {part : List Char} {rest : List (List Char)}
  {fields : List (String × Json)} {entry : String × Json}

theorem stepInto_key {key : String} (inner : Json) :
    stepInto (.obj (Dict.insertEntry key inner fields)) (.key key) = .ok inner := by
  simp [stepInto, Json.getD, Json.get?, Dict.lookup_insertEntry]

theorem stepInto_filter {key field wanted : String} (items : List Json) :
    stepInto (.obj (Dict.insertEntry key (.arr items) fields)) (.filter key [field] wanted) =
      (findItem [field] wanted items).map fun found => found.getD .null := by
  simp [stepInto, Json.getD, Json.get?, Dict.lookup_insertEntry, findFilteredItem]

theorem headKey_of_entry (h : writtenEntry value rest fields = .ok entry) :
    headKey rest = some entry.1 := by
  cases rest with
  | nil => cases h
  | cons part rest => rw [headKey, writtenEntry_key h]

theorem stepInto_picked {key field wanted : String} {picked : Picked} {inner : String × Json}
    (hagrees : ReaderAgrees field wanted picked) (hkept : headKey rest ≠ some field)
    (hinner : writtenEntry value rest picked.target = .ok inner) :
    stepInto (.obj (Dict.insertEntry key (.arr (picked.before ++
        .obj (Dict.insertEntry inner.1 inner.2 picked.target) :: picked.after)) fields))
      (.filter key [field] wanted) =
        .ok (.obj (Dict.insertEntry inner.1 inner.2 picked.target)) := by
  have hne : inner.1 ≠ field := by
    rw [headKey_of_entry hinner] at hkept
    exact fun heq => hkept (congrArg some heq)
  have hmatch := (matchesFilter_insert_of_ne inner.2 picked.target hne).trans hagrees.2
  rw [stepInto_filter, findItem_append, hagrees.1]
  simp only [bind, Except.bind, findItem_cons_of_match hmatch, Except.map, Option.getD_some]

theorem stepInto_appended {key field wanted : String} {items : List Json} {inner : String × Json}
    (hnone : pickItem field wanted items = .ok none) (hkept : headKey rest ≠ some field)
    (hinner : writtenEntry value rest [(field, .str wanted)] = .ok inner) :
    stepInto (.obj (Dict.insertEntry key (.arr (items ++
        [.obj (Dict.insertEntry inner.1 inner.2 [(field, .str wanted)])])) fields))
      (.filter key [field] wanted) =
        .ok (.obj (Dict.insertEntry inner.1 inner.2 [(field, .str wanted)])) := by
  have hne : inner.1 ≠ field := by
    rw [headKey_of_entry hinner] at hkept
    exact fun heq => hkept (congrArg some heq)
  have hmatch : matchesFilter [field] wanted
      (.obj (Dict.insertEntry inner.1 inner.2 [(field, .str wanted)])) = .ok true := by
    rw [matchesFilter_insert_of_ne inner.2 _ hne]
    exact matchesFilter_created
  rw [stepInto_filter, findItem_append, findItem_of_pickItem_none hnone]
  simp only [bind, Except.bind, findItem_cons_of_match hmatch, Except.map, Option.getD_some]

/-- What is written where it is readable is read back. -/
theorem traversePath_written {parts : List (List Char)} (hreadable : Readable parts fields)
    (h : writtenEntry value parts fields = .ok entry) :
    traversePath (.obj (Dict.insertEntry entry.1 entry.2 fields)) (parts.map pathSegment) =
      .ok value := by
  induction hreadable generalizing entry with
  | last hpart =>
    rw [writtenEntry_key_last hpart] at h
    obtain rfl := Except.ok.inj h
    rw [List.map_singleton, hpart, traversePath, List.foldlM_cons, stepInto_key]
    rfl
  | @inner part rest fields key hpart hrest ih =>
    cases rest with
    | nil =>
      rw [writtenEntry_key_last hpart] at h
      obtain rfl := Except.ok.inj h
      rw [List.map_singleton, hpart, traversePath, List.foldlM_cons, stepInto_key]
      rfl
    | cons next rest =>
      obtain ⟨inner, hinner, rfl⟩ := writtenEntry_key_inner hpart h
      rw [List.map_cons, hpart, traversePath, List.foldlM_cons, stepInto_key]
      exact ih hinner
  | picked hpart hitems hpicked hagrees hkept _ ih =>
    obtain ⟨inner, hinner, rfl⟩ := writtenEntry_picked hpart hitems hpicked h
    rw [List.map_cons, hpart, traversePath, List.foldlM_cons, stepInto_picked hagrees hkept hinner]
    exact ih hinner
  | appended hpart hitems hnone htrimmed hkept _ ih =>
    obtain ⟨inner, hinner, rfl⟩ := writtenEntry_appended hpart hitems hnone h
    rw [htrimmed] at hinner hnone ⊢
    rw [List.map_cons, hpart, traversePath, List.foldlM_cons, stepInto_appended hnone hkept hinner]
    exact ih hinner

theorem LastUntested.tail {next : List Char} (h : LastUntested (part :: next :: rest)) :
    LastUntested (next :: rest) := by
  intro last hlast other hother
  exact h last (by simpa using hlast) other (List.mem_cons_of_mem _ hother)

/-- Where the tested field is written, it is a list or an object afterwards. -/
theorem container_of_tested {key field wanted : String}
    (hpart : pathSegment part = .filter key [field] wanted)
    (huntested : LastUntested (part :: rest))
    (h : writtenEntry value rest fields = .ok entry) (htested : headKey rest = some field) :
    isContainer entry.2 = true := by
  match rest with
  | [] => cases h
  | _ :: _ :: _ => exact writtenEntry_container h
  | [last] =>
    exfalso
    have hkey : segmentKey (pathSegment last) = field := Option.some.inj htested
    cases hlast : pathSegment last with
    | key key' =>
      have htext : key' = String.ofList last := by
        unfold pathSegment at hlast
        split at hlast
        · exact (PathSegment.key.inj hlast).symm
        · dsimp only at hlast
          split at hlast
          · split at hlast
            · exact (PathSegment.key.inj hlast).symm
            · cases hlast
          · split at hlast
            · cases hlast
            · exact (PathSegment.key.inj hlast).symm
      rw [hlast] at hkey
      apply huntested last rfl part List.mem_cons_self key [field] wanted hpart
      rw [← htext, ← hkey]
      rfl
    | filter key' field' wanted' =>
      obtain ⟨_, _, _, _, hrest, -⟩ := writtenEntry_filter hlast h
      exact hrest rfl
    | index key' digits => exact writtenEntry_index hlast h

theorem findItem_congr {field wanted : String} {before after : List Json} {item other : Json}
    (h : findItem [field] wanted before ≠ .ok none ∨
      matchesFilter [field] wanted item ≠ .ok true ∧
        matchesFilter [field] wanted other = matchesFilter [field] wanted item) :
    findItem [field] wanted (before ++ item :: after) =
      findItem [field] wanted (before ++ other :: after) := by
  rw [findItem_append, findItem_append]
  cases hbefore : findItem [field] wanted before with
  | error e => rfl
  | ok found =>
    cases found with
    | some item => rfl
    | none =>
      obtain ⟨htrue, hother⟩ := h.resolve_left (not_not.mpr hbefore)
      simp only [bind, Except.bind, findItem, hother]
      cases hmatch : matchesFilter [field] wanted item with
      | error e => rfl
      | ok found =>
        cases found with
        | true => exact absurd hmatch htrue
        | false => rfl

theorem traversePath_passed {key field wanted : String} {before after : List Json}
    {item other : Json} (hpart : pathSegment part = .filter key [field] wanted)
    (h : findItem [field] wanted before ≠ .ok none ∨
      matchesFilter [field] wanted item ≠ .ok true ∧
        matchesFilter [field] wanted other = matchesFilter [field] wanted item) :
    traversePath (.obj (Dict.insertEntry key (.arr (before ++ item :: after)) fields))
        ((part :: rest).map pathSegment) =
      traversePath (.obj (Dict.insertEntry key (.arr (before ++ other :: after)) fields))
        ((part :: rest).map pathSegment) := by
  rw [List.map_cons, hpart, traversePath, traversePath, List.foldlM_cons, List.foldlM_cons,
    stepInto_filter, stepInto_filter, findItem_congr h]

theorem matchesFilter_created_of_ne {field wanted : String}
    (hne : String.ofList (pyStrip field.toList) ≠ field) :
    matchesFilter [field] wanted (.obj [(String.ofList (pyStrip field.toList), .str wanted)]) =
      .ok false := by
  rw [matchesFilter_flat, Dict.lookup_pair_cons, if_neg (Ne.symm hne)]
  simp

theorem matchesFilter_tested {key field wanted : String} {target : List (String × Json)}
    (hpart : pathSegment part = .filter key [field] wanted)
    (huntested : LastUntested (part :: rest))
    (h : writtenEntry value rest target = .ok entry) (htested : headKey rest = some field) :
    matchesFilter [field] wanted (.obj (Dict.insertEntry entry.1 entry.2 target)) = .ok false := by
  have hkey : entry.1 = field := Option.some.inj ((headKey_of_entry h).symm.trans htested)
  rw [hkey]
  exact matchesFilter_insert_container target (container_of_tested hpart huntested h htested)

theorem matchesFilter_untested {field wanted : String} {target : List (String × Json)}
    (h : writtenEntry value rest target = .ok entry) (htested : headKey rest ≠ some field) :
    matchesFilter [field] wanted (.obj (Dict.insertEntry entry.1 entry.2 target)) =
      matchesFilter [field] wanted (.obj target) := by
  apply matchesFilter_insert_of_ne
  rw [headKey_of_entry h] at htested
  exact fun heq => htested (congrArg some heq)

/-- What is read where a value is not readable does not depend on the value. -/
theorem traversePath_unreadable {parts : List (List Char)} (huntested : LastUntested parts)
    (hunreadable : ¬ Readable parts fields) :
    ∃ read, ∀ value entry, writtenEntry value parts fields = .ok entry →
      traversePath (.obj (Dict.insertEntry entry.1 entry.2 fields)) (parts.map pathSegment) =
        read := by
  induction parts generalizing fields with
  | nil => exact ⟨.ok .null, fun value entry h => by cases h⟩
  | cons part rest ih =>
    by_cases hwrites : ∃ value entry, writtenEntry value (part :: rest) fields = .ok entry
    swap
    · exact ⟨.ok .null, fun value entry h => absurd ⟨value, entry, h⟩ hwrites⟩
    obtain ⟨value₀, entry₀, hentry₀⟩ := hwrites
    cases hpart : pathSegment part with
    | key key =>
      cases rest with
      | nil => exact absurd (.last hpart) hunreadable
      | cons next rest =>
        obtain ⟨read, hread⟩ := ih huntested.tail fun h => hunreadable (.inner hpart h)
        refine ⟨read, fun value entry h => ?_⟩
        obtain ⟨inner, hinner, rfl⟩ := writtenEntry_key_inner hpart h
        rw [List.map_cons, hpart, traversePath, List.foldlM_cons, stepInto_key]
        exact hread value inner hinner
    | filter key field wanted =>
      obtain ⟨name, items, found, rfl, hrest, hitems, hfound, -⟩ :=
        writtenEntry_filter hpart hentry₀
      have htail : LastUntested rest := by
        cases rest with
        | nil => exact absurd rfl hrest
        | cons next rest => exact huntested.tail
      cases found with
      | some picked =>
        by_cases hreads : ReaderAgrees name wanted picked ∧ headKey rest ≠ some name
        · -- The read gets to the written item, and fails further down.
          obtain ⟨hagrees, hkept⟩ := hreads
          obtain ⟨read, hread⟩ := ih htail fun h =>
            hunreadable (.picked hpart hitems hfound hagrees hkept h)
          refine ⟨read, fun value entry h => ?_⟩
          obtain ⟨inner, hinner, rfl⟩ := writtenEntry_picked hpart hitems hfound h
          rw [List.map_cons, hpart, traversePath, List.foldlM_cons,
            stepInto_picked hagrees hkept hinner]
          exact hread value inner hinner
        · -- The read passes the written item, which could as well be another one.
          refine ⟨traversePath (.obj (Dict.insertEntry key (.arr (picked.before ++
            (if headKey rest = some name then .null else .obj picked.target) :: picked.after))
              fields)) ((part :: rest).map pathSegment), fun value entry h => ?_⟩
          obtain ⟨inner, hinner, rfl⟩ := writtenEntry_picked hpart hitems hfound h
          apply traversePath_passed hpart
          by_cases htested : headKey rest = some name
          · right
            rw [if_pos htested, matchesFilter_tested hpart huntested hinner htested]
            exact ⟨by simp, rfl⟩
          · rw [if_neg htested, matchesFilter_untested hinner htested]
            by_cases hbefore : findItem [name] wanted picked.before = .ok none
            · right
              exact ⟨fun hmatch => hreads ⟨⟨hbefore, hmatch⟩, htested⟩, rfl⟩
            · exact Or.inl hbefore
      | none =>
        by_cases hreads : String.ofList (pyStrip name.toList) = name ∧ headKey rest ≠ some name
        · obtain ⟨htrimmed, hkept⟩ := hreads
          obtain ⟨read, hread⟩ := ih htail fun h =>
            hunreadable (.appended hpart hitems hfound htrimmed hkept h)
          refine ⟨read, fun value entry h => ?_⟩
          obtain ⟨inner, hinner, rfl⟩ := writtenEntry_appended hpart hitems hfound h
          rw [htrimmed] at hinner hfound ⊢
          rw [List.map_cons, hpart, traversePath, List.foldlM_cons,
            stepInto_appended hfound hkept hinner]
          exact hread value inner hinner
        · refine ⟨traversePath (.obj (Dict.insertEntry key (.arr (items ++ [.null])) fields))
            ((part :: rest).map pathSegment), fun value entry h => ?_⟩
          obtain ⟨inner, hinner, rfl⟩ := writtenEntry_appended hpart hitems hfound h
          apply traversePath_passed hpart
          right
          by_cases htested : headKey rest = some name
          · rw [matchesFilter_tested hpart huntested hinner htested]
            exact ⟨by simp, rfl⟩
          · have hblanks : String.ofList (pyStrip name.toList) ≠ name :=
              fun htrimmed => hreads ⟨htrimmed, htested⟩
            rw [matchesFilter_untested hinner htested, matchesFilter_created_of_ne hblanks]
            exact ⟨by simp, rfl⟩
    | index key digits => exact absurd hentry₀ (writtenEntry_index hpart)

end Reading

end Manus.Expression
