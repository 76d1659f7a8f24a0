import Manus.Context.ObjectPath

/-! # Documents read back

What is written at a path is read back from there, unless the write changes a field that
a filter of the path tests; and a write changes nothing under another key of the document.
-/

namespace Manus.ObjectPath

open Expression (PyException)

section Conditions

def EndsInFilter (path : List Char) : Prop :=
  ∃ last ∈ (cleanedSegments path).getLast?, ∃ key field value,
    matchSegment last = some (.filter key field value)

/-- A filter on the way tests a field that is not the same before and after. -/
inductive TestsChanged : List (List Char) → Document → Document → Prop where
  | tested {segment : List Char} {rest : List (List Char)}
      {fields fields' : List (String × Document)} {key : String} {field : List Char}
      {value : String} {items items' : List Document} {index : ℕ} {item item' : Document}
      (hfilter : matchSegment segment = some (.filter key field value))
      (hitems : fields.lookup key = some (.arr items))
      (hitems' : fields'.lookup key = some (.arr items'))
      (hitem : items[index]? = some item) (hitem' : items'[index]? = some item')
      (hchanged : getAtPath item' field ≠ getAtPath item field) :
      TestsChanged (segment :: rest) (.obj fields) (.obj fields')
  | selected {segment : List Char} {rest : List (List Char)}
      {fields fields' : List (String × Document)} {selector : ListSegment}
      {items items' : List Document} {index : ℕ} {item item' : Document}
      (hselector : listSegment segment = .ok (some selector))
      (hitems : fields.lookup selector.key = some (.arr items))
      (hitems' : fields'.lookup selector.key = some (.arr items'))
      (hitem : items[index]? = some item) (hitem' : items'[index]? = some item')
      (h : TestsChanged rest item item') :
      TestsChanged (segment :: rest) (.obj fields) (.obj fields')
  | field {segment : List Char} {rest : List (List Char)}
      {fields fields' : List (String × Document)} {child child' : Document}
      (hkey : listSegment segment = .ok none)
      (hchild : fields.lookup (String.ofList segment) = some child)
      (hchild' : fields'.lookup (String.ofList segment) = some child')
      (h : TestsChanged rest child child') :
      TestsChanged (segment :: rest) (.obj fields) (.obj fields')
  | item {segment : List Char} {rest : List (List Char)} {items items' : List Document}
      {index : ℕ} {item item' : Document} (hitem : items[index]? = some item)
      (hitem' : items'[index]? = some item') (h : TestsChanged rest item item') :
      TestsChanged (segment :: rest) (.arr items) (.arr items')

theorem not_testsChanged_empty {segments : List (List Char)} {after : Document} :
    ¬ TestsChanged segments (.obj []) after := by
  intro h
  cases h with
  | tested _ hitems => cases hitems
  | selected _ hitems => cases hitems
  | field _ hchild => cases hchild

end Conditions

section Fields

variable {segment : List Char}

theorem listSegment_of_none (h : matchSegment segment = none) : listSegment segment = .ok none := by
  rw [listSegment, h]

theorem listSegment_filter {key value : String} {field : List Char}
    (h : listSegment segment = .ok (some (.filter key field value))) :
    matchSegment segment = some (.filter key field value) := by
  unfold listSegment at h
  split at h
  · rename_i hmatch
    cases h
    exact hmatch
  · obtain ⟨index, -, hindex⟩ := map_eq_ok.mp h
    cases hindex
  · cases h

theorem selectorOf_open {text key selector : List Char}
    (h : selectorOf text = some (key, selector)) :
    '[' ∈ text ∧ ∀ c ∈ selector, isBracket c = false := by
  unfold selectorOf at h
  dsimp only at h
  split at h
  · rename_i rest hrest
    split at h
    · obtain ⟨-, rfl⟩ := Prod.mk.inj (Option.some.inj h)
      constructor
      · apply (List.dropWhile_suffix _).subset
        rw [hrest]
        exact List.mem_cons_self
      · intro c hc
        simpa using List.mem_takeWhile_imp hc
    · cases h
  · cases h

theorem matchSegment_of_closed (h : '[' ∉ segment) : matchSegment segment = none := by
  cases hselector : selectorOf segment with
  | none => rw [matchSegment, hselector, Option.bind_none]
  | some parts => exact absurd (selectorOf_open hselector).1 h

theorem field_closed {key value : String} {field : List Char}
    (h : matchSegment segment = some (.filter key field value)) : '[' ∉ field := by
  unfold matchSegment at h
  obtain ⟨⟨text, selector⟩, hselector, h⟩ := Option.bind_eq_some_iff.mp h
  have hclosed := (selectorOf_open hselector).2
  dsimp only at h
  split at h
  · split at h
    · cases h
    · cases h
      intro hmem
      have hbracket := hclosed _ ((List.takeWhile_prefix _).subset hmem)
      cases hbracket
  · split at h <;> cases h

theorem mem_splitPathSegments {depth : ℕ} {current text : List Char} {c : Char}
    (hsegment : segment ∈ splitPathSegments depth current text) (hc : c ∈ segment) :
    c ∈ current ∨ c ∈ text := by
  induction text generalizing depth current with
  | nil =>
    rw [splitPathSegments, List.mem_singleton] at hsegment
    exact Or.inl (hsegment ▸ hc)
  | cons a text ih =>
    have hpush : c ∈ current ++ [a] ∨ c ∈ text → c ∈ current ∨ c ∈ a :: text := by
      rw [List.mem_append, List.mem_singleton, List.mem_cons, or_assoc]
      exact id
    rw [splitPathSegments] at hsegment
    split at hsegment
    · exact hpush (ih hsegment)
    · split at hsegment
      · exact hpush (ih hsegment)
      · split at hsegment
        · rcases List.mem_cons.mp hsegment with rfl | hsegment
          · exact Or.inl hc
          · have hrest := (ih hsegment).resolve_left List.not_mem_nil
            exact Or.inr (List.mem_cons_of_mem _ hrest)
        · exact hpush (ih hsegment)

theorem cleanedSegments_closed {path : List Char} (h : '[' ∉ path)
    (hsegment : segment ∈ cleanedSegments path) : '[' ∉ segment := by
  intro hc
  have hsplit := (List.mem_filter.mp hsegment).1
  rcases mem_splitPathSegments hsplit hc with hnil | hmem
  · cases hnil
  · exact h (mem_of_mem_pyStrip hmem)

theorem splitPath_eq_ok {path : List Char} {segments : List (List Char)} :
    splitPath path = .ok segments ↔ cleanedSegments path = segments ∧ segments ≠ [] := by
  unfold splitPath
  rw [ite_error_eq_ok]
  constructor
  · rintro ⟨hne, h⟩
    obtain rfl := Except.ok.inj h
    exact ⟨rfl, hne⟩
  · rintro ⟨rfl, hne⟩
    exact ⟨hne, rfl⟩

theorem readStep_of_closed (readField readField' : FieldReader) (h : '[' ∉ segment) :
    readStep readField segment = readStep readField' segment := by
  funext cursor
  cases cursor with
  | obj fields => simp only [readStep, listSegment_of_none (matchSegment_of_closed h)]; rfl
  | _ => rfl

theorem walk_of_closed (readField readField' : FieldReader) {segments : List (List Char)}
    (h : ∀ segment ∈ segments, '[' ∉ segment) (document : Document) :
    walk (readStep readField) segments document =
      walk (readStep readField') segments document := by
  induction segments generalizing document with
  | nil => rfl
  | cons segment rest ih =>
    have hstep := readStep_of_closed readField readField' (h _ List.mem_cons_self)
    have hrest := ih fun segment hsegment => h segment (List.mem_cons_of_mem _ hsegment)
    rw [walk, walk, hstep]
    simp only [hrest]

theorem getAtField_eq {field : List Char} (h : '[' ∉ field) (item : Document) :
    getAtField field item = getAtPath item field := by
  unfold getAtField getAtPath
  cases hsplit : splitPath field with
  | error e => rfl
  | ok segments =>
    obtain ⟨rfl, -⟩ := splitPath_eq_ok.mp hsplit
    have hclosed := fun segment => @cleanedSegments_closed segment field h
    change readSegments _ _ item = readSegments _ _ item
    rw [readSegments, readSegments, walk_of_closed _ getAtField hclosed]

theorem find_filter {key value : String} {field : List Char}
    (h : matchSegment segment = some (.filter key field value)) (items : List Document) :
    (ListSegment.filter key field value).find getAtField items =
      findFilteredIndex (fun item => getAtPath item field) value items := by
  have hfield : getAtField field = fun item => getAtPath item field :=
    funext (getAtField_eq (field_closed h))
  rw [ListSegment.find, hfield]

end Fields

section Search

variable {read : Document → Except PyException Document} {value : String}
  {items : List Document} {index : ℕ}

/-- The item that is found is the first that matches. -/
theorem findFilteredIndex_eq_some :
    findFilteredIndex read value items = .ok (some index) ↔
      ∃ front item back, items = front ++ item :: back ∧ front.length = index ∧
        (∀ other ∈ front, matchesFilter read value other = .ok false) ∧
        matchesFilter read value item = .ok true := by
  induction items generalizing index with
  | nil =>
    constructor
    · intro h
      cases h
    · rintro ⟨front, item, back, hitems, -⟩
      simp at hitems
  | cons item items ih =>
    constructor
    · intro h
      obtain ⟨found, hfound, h⟩ := bind_eq_ok.mp h
      cases found with
      | true =>
        obtain rfl := Option.some.inj (Except.ok.inj h)
        exact ⟨[], item, items, rfl, rfl, by simp, hfound⟩
      | false =>
        obtain ⟨rest, hrest, h⟩ := bind_eq_ok.mp h
        obtain ⟨index', rfl, rfl⟩ := Option.map_eq_some_iff.mp (Except.ok.inj h)
        obtain ⟨front, item', back, rfl, rfl, hfront, hmatch⟩ := ih.mp hrest
        refine ⟨item :: front, item', back, rfl, rfl, ?_, hmatch⟩
        intro other hother
        rcases List.mem_cons.mp hother with rfl | hother
        · exact hfound
        · exact hfront other hother
    · rintro ⟨front, item', back, hitems, rfl, hfront, hmatch⟩
      cases front with
      | nil =>
        obtain ⟨rfl, rfl⟩ := List.cons.inj hitems
        rw [findFilteredIndex, hmatch]
        rfl
      | cons other front =>
        obtain ⟨rfl, rfl⟩ := List.cons.inj hitems
        have hrest := ih.mpr ⟨front, item', back, rfl, rfl,
          fun other hother => hfront other (List.mem_cons_of_mem _ hother), hmatch⟩
        rw [findFilteredIndex, hfront item List.mem_cons_self, hrest]
        rfl

theorem findFilteredIndex_set {item item' : Document}
    (h : findFilteredIndex read value items = .ok (some index)) (hitem : items[index]? = some item)
    (hmatch : matchesFilter read value item' = matchesFilter read value item) :
    findFilteredIndex read value (items.set index item') = .ok (some index) := by
  obtain ⟨front, found, back, rfl, rfl, hfront, hfound⟩ := findFilteredIndex_eq_some.mp h
  obtain rfl : found = item := by simpa using hitem
  apply findFilteredIndex_eq_some.mpr
  exact ⟨front, item', back, by simp, rfl, hfront, hmatch.trans hfound⟩

end Search

section Places

variable {path segment : List Char} {cursor value after : Document} {slot : Slot}
  {fields : List (String × Document)}

/-- Everything that a segment of a write can lead to. -/
theorem locate_cases (h : locate path segment cursor = .ok slot) :
    (∃ items index, cursor = .arr items ∧ slot = .item items index ∧ isDigitText segment = true ∧
      intOfDigits segment = .ok index ∧ index < items.length) ∨
    (∃ fields, cursor = .obj fields ∧ slot = .field fields (String.ofList segment) ∧
      listSegment segment = .ok none) ∨
    (∃ fields selector items index, cursor = .obj fields ∧
      slot = .selected fields selector.key items index ∧
      listSegment segment = .ok (some selector) ∧
      fields.lookup selector.key = some (.arr items) ∧
      selector.find getAtField items = .ok (some index)) := by
  cases cursor with
  | arr items =>
    left
    rw [locate] at h
    split at h
    · rename_i hdigits
      obtain ⟨index, hindex, h⟩ := bind_eq_ok.mp h
      split at h
      · rename_i hlt
        obtain rfl := Except.ok.inj h
        exact ⟨items, index, rfl, rfl, hdigits, hindex, hlt⟩
      · cases h
    · cases h
  | obj fields =>
    right
    obtain ⟨selector, hselector, h⟩ := bind_eq_ok.mp h
    cases selector with
    | none =>
      left
      obtain rfl := Except.ok.inj h
      exact ⟨fields, rfl, rfl, hselector⟩
    | some selector =>
      right
      dsimp only at h
      unfold locateFiltered at h
      split at h
      · rename_i items hitems
        obtain ⟨found, hfound, h⟩ := bind_eq_ok.mp h
        cases found with
        | none => cases selector <;> cases h
        | some index =>
          obtain rfl := Except.ok.inj h
          exact ⟨fields, selector, items, index, rfl, rfl, hselector, hitems, hfound⟩
      · cases h
  | _ => cases h

theorem find_lt {selector : ListSegment} {items : List Document} {index : ℕ}
    (h : selector.find getAtField items = .ok (some index)) : index < items.length := by
  cases selector with
  | filter key field wanted =>
    obtain ⟨front, item, back, rfl, rfl, -⟩ := findFilteredIndex_eq_some.mp h
    simp
  | index key position =>
    have hposition := Except.ok.inj h
    split at hposition
    · obtain rfl := Option.some.inj hposition
      assumption
    · cases hposition

theorem put_obj (h : locate path segment (.obj fields) = .ok slot) :
    ∃ fields', slot.put value = .obj fields' := by
  rcases locate_cases h with ⟨items, index, hcursor, -⟩ | ⟨fields, -, rfl, -⟩ |
    ⟨fields, selector, items, index, -, rfl, -⟩
  · cases hcursor
  · exact ⟨_, rfl⟩
  · exact ⟨_, rfl⟩

theorem writeSegments_cons {rest : List (List Char)}
    (h : writeSegments path value (segment :: rest) cursor = .ok after) :
    ∃ slot, locate path segment cursor = .ok slot ∧
      ((rest = [] ∧ after = slot.put value) ∨
        ∃ child child', rest ≠ [] ∧ stepDown path slot.value = .ok child ∧
          writeSegments path value rest child = .ok child' ∧ after = slot.put child') := by
  obtain ⟨slot, hslot, h⟩ := bind_eq_ok.mp h
  refine ⟨slot, hslot, ?_⟩
  split at h
  · rename_i hrest
    exact Or.inl ⟨hrest, (Except.ok.inj h).symm⟩
  · rename_i hrest
    obtain ⟨child, hchild, h⟩ := bind_eq_ok.mp h
    obtain ⟨child', hchild', h⟩ := bind_eq_ok.mp h
    exact Or.inr ⟨child, child', hrest, hchild, hchild', (Except.ok.inj h).symm⟩

theorem writeSegments_obj {rest : List (List Char)}
    (h : writeSegments path value (segment :: rest) (.obj fields) = .ok after) :
    ∃ fields', after = .obj fields' := by
  obtain ⟨slot, hslot, ⟨-, rfl⟩ | ⟨child, child', -, -, -, rfl⟩⟩ := writeSegments_cons h
  · exact put_obj hslot
  · exact put_obj hslot

theorem stepDown_cases {child : Document} (h : stepDown path value = .ok child) :
    child = value ∨ child = .obj [] := by
  unfold stepDown at h
  split at h
  · exact Or.inl (Except.ok.inj h).symm
  · exact Or.inl (Except.ok.inj h).symm
  · exact Or.inr (Except.ok.inj h).symm
  · exact Or.inr (Except.ok.inj h).symm
  · cases h

/-- The item a filter selected is still the first that matches, as far as its field is read the
same. -/
def Selectable (segment : List Char) (slot : Slot) (child : Document) : Prop :=
  ∀ key field wanted, matchSegment segment = some (.filter key field wanted) →
    (∃ fields, child = .obj fields) ∧ getAtPath child field = getAtPath slot.value field

theorem matchesFilter_obj {read : Document → Except PyException Document} {wanted : String} :
    matchesFilter read wanted (.obj fields) = do
      let text ← scalarText (← read (.obj fields))
      return text == some wanted := rfl

theorem readStep_key {readField : FieldReader} (h : listSegment segment = .ok none) :
    readStep readField segment (.obj fields) = .ok (fields.lookup (String.ofList segment)) := by
  rw [readStep, h]
  rfl

theorem readStep_selector {readField : FieldReader} {selector : ListSegment}
    {items : List Document} (h : listSegment segment = .ok (some selector))
    (hitems : fields.lookup selector.key = some (.arr items)) :
    readStep readField segment (.obj fields) =
      (selector.find readField items).map fun index => index.bind fun index => items[index]? := by
  rw [readStep, h]
  simp only [bind, Except.bind, hitems]
  rfl

theorem locate_filter {key wanted : String} {field : List Char}
    (h : locate path segment (.obj fields) = .ok slot)
    (hfilter : matchSegment segment = some (.filter key field wanted)) :
    ∃ items index inner, slot = .selected fields key items index ∧
      fields.lookup key = some (.arr items) ∧ items[index]? = some (.obj inner) := by
  have hsegment : listSegment segment = .ok (some (.filter key field wanted)) := by
    rw [listSegment, hfilter]
  rcases locate_cases h with ⟨items, index, hcursor, -⟩ | ⟨fields', -, -, hkey⟩ |
    ⟨fields', selector, items, index, hfields, rfl, hselector, hitems, hfind⟩
  · cases hcursor
  · rw [hsegment] at hkey
    cases hkey
  · obtain rfl := JsonValue.obj.inj hfields
    obtain rfl := Option.some.inj (Except.ok.inj (hsegment.symm.trans hselector))
    rw [find_filter hfilter] at hfind
    obtain ⟨front, item, back, rfl, rfl, -, hitem⟩ := findFilteredIndex_eq_some.mp hfind
    cases item with
    | obj inner => exact ⟨_, _, inner, rfl, hitems, by simp⟩
    | _ => cases hitem

/-- What was put at a place is what its segment leads to. -/
theorem readStep_put {child : Document} (h : locate path segment cursor = .ok slot)
    (hsame : (∃ fields, cursor = .obj fields) → Selectable segment slot child) :
    readStep getAtField segment (slot.put child) = .ok (some child) := by
  rcases locate_cases h with ⟨items, index, rfl, rfl, hdigits, hindex, hlt⟩ |
    ⟨fields, rfl, rfl, hkey⟩ | ⟨fields, selector, items, index, rfl, rfl, hselector, hitems, hfind⟩
  · rw [Slot.put, readStep, if_pos hdigits, hindex]
    exact congrArg Except.ok (List.getElem?_set_self hlt)
  · rw [Slot.put, readStep_key hkey, Dict.lookup_insertEntry, if_pos rfl]
  · have hlt := find_lt hfind
    have hagain : selector.find getAtField (items.set index child) = .ok (some index) := by
      cases selector with
      | index key position =>
        rw [ListSegment.find, List.length_set]
        exact hfind
      | filter key field wanted =>
        have hmatch := listSegment_filter hselector
        obtain ⟨⟨inner, rfl⟩, hread⟩ := hsame ⟨fields, rfl⟩ key field wanted hmatch
        rw [find_filter hmatch] at hfind ⊢
        obtain ⟨front, item, back, rfl, rfl, -, hitem⟩ := findFilteredIndex_eq_some.mp hfind
        have hat : (front ++ item :: back)[front.length]? = some item := by simp
        rw [Slot.value, hat, Option.getD_some] at hread
        apply findFilteredIndex_set hfind hat
        cases item with
        | obj fields => rw [matchesFilter_obj, matchesFilter_obj, hread]
        | _ => cases hitem
    have hput : (Dict.insertEntry selector.key (.arr (items.set index child)) fields).lookup
        selector.key = some (.arr (items.set index child)) := by
      rw [Dict.lookup_insertEntry, if_pos rfl]
    rw [Slot.put, readStep_selector hselector hput, hagain]
    exact congrArg Except.ok (List.getElem?_set_self hlt)

end Places

section Trips

variable {path segment : List Char} {segments : List (List Char)} {cursor value after : Document}
  {fields : List (String × Document)}

/-- What changed deeper down changed on the whole way. -/
theorem testsChanged_put {rest : List (List Char)} {slot : Slot} {child : Document}
    (hslot : locate path segment cursor = .ok slot) (h : TestsChanged rest slot.value child) :
    TestsChanged (segment :: rest) cursor (slot.put child) := by
  rcases locate_cases hslot with ⟨items, index, rfl, rfl, -, -, hlt⟩ | ⟨fields, rfl, rfl, hkey⟩ |
    ⟨fields, selector, items, index, rfl, rfl, hselector, hitems, hfind⟩
  · rw [Slot.value, List.getElem?_eq_getElem hlt, Option.getD_some] at h
    exact .item (List.getElem?_eq_getElem hlt) (List.getElem?_set_self hlt) h
  · rw [Slot.value] at h
    cases hchild : fields.lookup (String.ofList segment) with
    | none =>
      rw [hchild] at h
      cases h
    | some before =>
      rw [hchild, Option.getD_some] at h
      have hafter : (Dict.insertEntry (String.ofList segment) child fields).lookup
          (String.ofList segment) = some child := by
        rw [Dict.lookup_insertEntry, if_pos rfl]
      exact .field hkey hchild hafter h
  · have hlt := find_lt hfind
    rw [Slot.value, List.getElem?_eq_getElem hlt, Option.getD_some] at h
    have hafter : (Dict.insertEntry selector.key (.arr (items.set index child)) fields).lookup
        selector.key = some (.arr (items.set index child)) := by
      rw [Dict.lookup_insertEntry, if_pos rfl]
    exact .selected hselector hitems hafter (List.getElem?_eq_getElem hlt)
      (List.getElem?_set_self hlt) h

/-- What a write stores at the end of its path is found there. -/
theorem walk_writeSegments (hne : segments ≠ [])
    (hlast : ∀ last ∈ segments.getLast?, ∀ key field wanted,
      matchSegment last ≠ some (.filter key field wanted))
    (h : writeSegments path value segments cursor = .ok after)
    (hsame : ¬ TestsChanged segments cursor after) :
    walk (readStep getAtField) segments after = .ok (some value) := by
  induction segments generalizing cursor after with
  | nil => exact absurd rfl hne
  | cons segment rest ih =>
    obtain ⟨slot, hslot, ⟨rfl, rfl⟩ | ⟨child, child', hrest, hchild, hchild', rfl⟩⟩ :=
      writeSegments_cons h
    · have hstep : readStep getAtField segment (slot.put value) = .ok (some value) := by
        apply readStep_put hslot
        intro _ key field wanted hfilter
        exact absurd hfilter (hlast segment rfl key field wanted)
      rw [walk_cons_some hstep, walk_nil]
    · have hstep : readStep getAtField segment (slot.put child') = .ok (some child') := by
        apply readStep_put hslot
        rintro ⟨fields, rfl⟩ key field wanted hfilter
        obtain ⟨items, index, inner, rfl, hitems, hitem⟩ := locate_filter hslot hfilter
        have hvalue : (Slot.selected fields key items index).value = .obj inner := by
          rw [Slot.value, hitem, Option.getD_some]
        rw [hvalue] at hchild ⊢
        obtain rfl : (JsonValue.obj inner : Document) = child := Except.ok.inj hchild
        obtain ⟨next, rest, rfl⟩ := List.exists_cons_of_ne_nil hrest
        obtain ⟨inner', rfl⟩ := writeSegments_obj hchild'
        refine ⟨⟨inner', rfl⟩, ?_⟩
        by_contra hchanged
        have hlt := (List.getElem?_eq_some_iff.mp hitem).1
        have hafter : (Dict.insertEntry key (.arr (items.set index (.obj inner'))) fields).lookup
            key = some (.arr (items.set index (.obj inner'))) := by
          rw [Dict.lookup_insertEntry, if_pos rfl]
        exact hsame (.tested hfilter hitems hafter hitem (List.getElem?_set_self hlt) hchanged)
      rw [walk_cons_some hstep]
      apply ih hrest _ hchild'
      · intro hdeeper
        apply hsame
        rcases stepDown_cases hchild with rfl | rfl
        · exact testsChanged_put hslot hdeeper
        · exact absurd hdeeper not_testsChanged_empty
      · intro last hmem
        apply hlast
        rwa [List.getLast?_cons_of_ne_nil hrest]

/-- A write is seen under its own key only. -/
theorem readStep_other {slot : Slot} {other : List Char}
    (hslot : locate path segment (.obj fields) = .ok slot)
    (hne : segmentKey other ≠ segmentKey segment) :
    readStep getAtField other (slot.put value) = readStep getAtField other (.obj fields) := by
  obtain ⟨key, item, hkey, hput⟩ : ∃ key item, segmentKey segment = .ok key ∧
      slot.put value = .obj (Dict.insertEntry key item fields) := by
    rcases locate_cases hslot with ⟨items, index, hcursor, -⟩ | ⟨fields', hfields, rfl, hkey⟩ |
      ⟨fields', selector, items, index, hfields, rfl, hselector, -⟩
    · cases hcursor
    · obtain rfl := JsonValue.obj.inj hfields
      exact ⟨_, _, by rw [segmentKey, hkey]; rfl, rfl⟩
    · obtain rfl := JsonValue.obj.inj hfields
      exact ⟨_, _, by rw [segmentKey, hselector]; rfl, rfl⟩
  rw [hput, readStep, readStep]
  cases hselector : listSegment other with
  | error e => rfl
  | ok selector =>
    cases selector with
    | none =>
      have hother : String.ofList other ≠ key := by
        rintro rfl
        apply hne
        rw [hkey, segmentKey, hselector]
        rfl
      change Except.ok _ = Except.ok _
      rw [Dict.lookup_insertEntry, if_neg hother]
    | some selector =>
      have hother : selector.key ≠ key := by
        rintro rfl
        apply hne
        rw [hkey, segmentKey, hselector]
        rfl
      have hlookup : (Dict.insertEntry key item fields).lookup selector.key =
          fields.lookup selector.key := by
        rw [Dict.lookup_insertEntry, if_neg hother]
      simp only [bind, Except.bind, hlookup]

theorem getAtPath_eq {document : Document} (h : splitPath path = .ok segments) :
    getAtPath document path =
      (walk (readStep getAtField) segments document).map fun found => found.getD .null := by
  rw [getAtPath, h]
  rfl

theorem getAtPath_setAtPath_self (h : setAtPath fields path value = .ok after)
    (hlast : ¬ EndsInFilter path)
    (hsame : ¬ TestsChanged (cleanedSegments path) (.obj fields) after) :
    getAtPath after path = .ok value := by
  obtain ⟨segments, hsplit, h⟩ := bind_eq_ok.mp h
  obtain ⟨rfl, hne⟩ := splitPath_eq_ok.mp hsplit
  have hwalk : walk (readStep getAtField) (cleanedSegments path) after = .ok (some value) := by
    apply walk_writeSegments hne _ h hsame
    intro last hmem key field wanted hfilter
    exact hlast ⟨last, hmem, key, field, wanted, hfilter⟩
  rw [getAtPath_eq hsplit, hwalk]
  rfl

theorem getAtPath_setAtPath_other {other : List Char}
    (h : setAtPath fields path value = .ok after) (hne : topLevelKey other ≠ topLevelKey path) :
    getAtPath after other = getAtPath (.obj fields) other := by
  obtain ⟨segments, hsplit, h⟩ := bind_eq_ok.mp h
  obtain ⟨segment, rest, rfl⟩ := List.exists_cons_of_ne_nil (splitPath_eq_ok.mp hsplit).2
  have hkey : topLevelKey path = segmentKey segment := by
    rw [topLevelKey, hsplit]
    rfl
  cases hother : splitPath other with
  | error e =>
    rw [getAtPath, getAtPath, hother]
    rfl
  | ok segments =>
    obtain ⟨first, others, rfl⟩ := List.exists_cons_of_ne_nil (splitPath_eq_ok.mp hother).2
    have hfirst : topLevelKey other = segmentKey first := by
      rw [topLevelKey, hother]
      rfl
    rw [hkey, hfirst] at hne
    have hstep : readStep getAtField first after = readStep getAtField first (.obj fields) := by
      obtain ⟨slot, hslot, ⟨-, rfl⟩ | ⟨child, child', -, -, -, rfl⟩⟩ := writeSegments_cons h
      · exact readStep_other hslot hne
      · exact readStep_other hslot hne
    rw [getAtPath_eq hother, getAtPath_eq hother, walk, walk, hstep]

end Trips

end Manus.ObjectPath
