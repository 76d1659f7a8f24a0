import Manus.Context.ObjectReadBack

/-! # When a document can be read

A read raises in few cases only: a segment of digits that is no number at a list, a position
with too many digits, and a filter whose field cannot be read or compared in an item that
it comes to.
-/

namespace Manus.ObjectPath

open Expression (PyException strInt digitLimitMessage)

section Conditions

/-- Digits that `int` does not read. -/
def BadNumber (text : List Char) : Prop :=
  maxStrDigits < text.length ∨ ∃ c ∈ text, isDecimal c = false

inductive FieldLeads : List Char → Document → Document → Prop where
  | item {segment : List Char} {items : List Document} {index : ℕ} {item : Document}
      (hdigits : isDigitText segment = true) (hindex : intOfDigits segment = .ok index)
      (hitem : items[index]? = some item) : FieldLeads segment (.arr items) item
  | field {segment : List Char} {fields : List (String × Document)} {child : Document}
      (hchild : fields.lookup (String.ofList segment) = some child) :
      FieldLeads segment (.obj fields) child

inductive FieldStuck : List Char → Document → Prop where
  | number {segment : List Char} {items : List Document} (hdigits : isDigitText segment = true)
      (hbad : BadNumber segment) : FieldStuck segment (.arr items)

inductive ItemMatches (field : List Char) (value : String) : Document → Prop where
  | intro {fields : List (String × Document)} {found : Document} (hne : cleanedSegments field ≠ [])
      (h : Reaches FieldLeads (cleanedSegments field) (.obj fields) found)
      (htext : scalarText found = .ok (some value)) : ItemMatches field value (.obj fields)

/-- An object whose field cannot be read, or is a number that is too long to be compared. -/
inductive ItemStuck (field : List Char) : Document → Prop where
  | blank {fields : List (String × Document)} (h : cleanedSegments field = []) :
      ItemStuck field (.obj fields)
  | obstructed {fields : List (String × Document)}
      (h : Obstructed FieldLeads FieldStuck (cleanedSegments field) (.obj fields)) :
      ItemStuck field (.obj fields)
  | long {fields : List (String × Document)} {n : ℤ}
      (h : Reaches FieldLeads (cleanedSegments field) (.obj fields) (.num (.int n)))
      (hlong : maxStrDigits < (Nat.toDigits 10 n.natAbs).length) : ItemStuck field (.obj fields)

def ItemPassed (field : List Char) (value : String) (item : Document) : Prop :=
  ¬ ItemMatches field value item ∧ ¬ ItemStuck field item

inductive Leads : List Char → Document → Document → Prop where
  | item {segment : List Char} {items : List Document} {index : ℕ} {item : Document}
      (hdigits : isDigitText segment = true) (hindex : intOfDigits segment = .ok index)
      (hitem : items[index]? = some item) : Leads segment (.arr items) item
  | field {segment : List Char} {fields : List (String × Document)} {child : Document}
      (hkey : matchSegment segment = none)
      (hchild : fields.lookup (String.ofList segment) = some child) :
      Leads segment (.obj fields) child
  | index {segment digits : List Char} {fields : List (String × Document)} {key : String}
      {items : List Document} {index : ℕ} {item : Document}
      (hmatch : matchSegment segment = some (.index key digits))
      (hindex : intOfDigits digits = .ok index) (hitems : fields.lookup key = some (.arr items))
      (hitem : items[index]? = some item) : Leads segment (.obj fields) item
  | filter {segment field : List Char} {fields : List (String × Document)} {key value : String}
      {front back : List Document} {item : Document}
      (hmatch : matchSegment segment = some (.filter key field value))
      (hitems : fields.lookup key = some (.arr (front ++ item :: back)))
      (hfront : ∀ other ∈ front, ItemPassed field value other)
      (hitem : ItemMatches field value item) : Leads segment (.obj fields) item

inductive Stuck : List Char → Document → Prop where
  | number {segment : List Char} {items : List Document} (hdigits : isDigitText segment = true)
      (hbad : BadNumber segment) : Stuck segment (.arr items)
  | index {segment digits : List Char} {fields : List (String × Document)} {key : String}
      (hmatch : matchSegment segment = some (.index key digits))
      (hlong : maxStrDigits < digits.length) : Stuck segment (.obj fields)
  | filter {segment field : List Char} {fields : List (String × Document)} {key value : String}
      {front back : List Document} {item : Document}
      (hmatch : matchSegment segment = some (.filter key field value))
      (hitems : fields.lookup key = some (.arr (front ++ item :: back)))
      (hfront : ∀ other ∈ front, ItemPassed field value other)
      (hitem : ItemStuck field item) : Stuck segment (.obj fields)

end Conditions

section Numbers

theorem intOfDigits_error_iff {text : List Char} :
    (∃ e, intOfDigits text = .error e) ↔ BadNumber text := by
  have hall : text.all isDecimal = true → text.takeWhile isDecimal = text := by
    intro h
    exact List.takeWhile_eq_self_iff.mpr (List.all_eq_true.mp h)
  unfold intOfDigits BadNumber
  constructor
  · rintro ⟨e, h⟩
    split at h
    · rename_i hlong
      exact Or.inl (hlong.trans_le (List.takeWhile_prefix _).length_le)
    · split at h
      · cases h
      · rename_i hother
        right
        simpa using hother
  · rintro (hlong | ⟨c, hc, hother⟩)
    · split
      · exact ⟨_, rfl⟩
      · rename_i hshort
        split
        · rename_i hdecimal
          rw [hall hdecimal] at hshort
          exact absurd hlong hshort
        · exact ⟨_, rfl⟩
    · split
      · exact ⟨_, rfl⟩
      · split
        · rename_i hdecimal
          rw [List.all_eq_true.mp hdecimal c hc] at hother
          cases hother
        · exact ⟨_, rfl⟩

theorem strInt_error_iff {n : ℤ} :
    (∃ e, strInt n = .error e) ↔ maxStrDigits < (Nat.toDigits 10 n.natAbs).length := by
  unfold strInt
  split
  · rename_i h
    exact ⟨fun _ => h, fun _ => ⟨_, rfl⟩⟩
  · rename_i h
    constructor
    · rintro ⟨e, he⟩
      cases he
    · exact fun hlong => absurd hlong h

theorem scalarText_error_iff {value : Document} :
    (∃ e, scalarText value = .error e) ↔
      ∃ n, value = .num (.int n) ∧ maxStrDigits < (Nat.toDigits 10 n.natAbs).length := by
  constructor
  · rintro ⟨e, h⟩
    unfold scalarText at h
    split at h
    · cases h
    · rename_i n
      refine ⟨n, rfl, strInt_error_iff.mp ?_⟩
      cases hstr : strInt n with
      | error e => exact ⟨e, rfl⟩
      | ok text =>
        rw [hstr] at h
        cases h
    · cases h
    · cases h
    · cases h
  · rintro ⟨n, rfl, hlong⟩
    obtain ⟨e, he⟩ := strInt_error_iff.mpr hlong
    exact ⟨e, by rw [scalarText, he]; rfl⟩

end Numbers

section Fields

variable {field : List Char} {value : String} {item : Document}

theorem readStep_arr {readField : FieldReader} {segment : List Char} {items : List Document} :
    readStep readField segment (.arr items) =
      if isDigitText segment then (intOfDigits segment).map fun index => items[index]?
      else .ok none := rfl

theorem readStep_arr_eq_some {readField : FieldReader} {segment : List Char}
    {items : List Document} {next : Document} :
    readStep readField segment (.arr items) = .ok (some next) ↔
      isDigitText segment = true ∧
        ∃ index, intOfDigits segment = .ok index ∧ items[index]? = some next := by
  rw [readStep_arr]
  split
  · rename_i hdigits
    rw [map_eq_ok]
    exact (and_iff_right hdigits).symm
  · rename_i hdigits
    simp [hdigits]

theorem readStep_arr_error_iff {readField : FieldReader} {segment : List Char}
    {items : List Document} :
    (∃ e, readStep readField segment (.arr items) = .error e) ↔
      isDigitText segment = true ∧ BadNumber segment := by
  rw [readStep_arr, ← intOfDigits_error_iff]
  split
  · rename_i hdigits
    cases intOfDigits segment <;> simp [hdigits, Except.map]
  · rename_i hdigits
    simp [hdigits]

theorem fieldStep_eq_some {readField : FieldReader} {segment : List Char} (h : '[' ∉ segment)
    (document next : Document) :
    readStep readField segment document = .ok (some next) ↔ FieldLeads segment document next := by
  cases document with
  | arr items =>
    rw [readStep_arr_eq_some]
    constructor
    · rintro ⟨hdigits, index, hindex, hitem⟩
      exact .item hdigits hindex hitem
    · rintro ⟨hdigits, hindex, hitem⟩
      exact ⟨hdigits, _, hindex, hitem⟩
  | obj fields =>
    rw [readStep_key (listSegment_of_none (matchSegment_of_closed h))]
    constructor
    · intro hstep
      exact .field (Except.ok.inj hstep)
    · rintro (_ | hchild)
      exact congrArg _ hchild
  | _ => exact ⟨nofun, nofun⟩

theorem fieldStep_error_iff {readField : FieldReader} {segment : List Char} (h : '[' ∉ segment)
    (document : Document) :
    (∃ e, readStep readField segment document = .error e) ↔ FieldStuck segment document := by
  cases document with
  | arr items =>
    rw [readStep_arr_error_iff]
    constructor
    · rintro ⟨hdigits, hbad⟩
      exact .number hdigits hbad
    · rintro ⟨hdigits, hbad⟩
      exact ⟨hdigits, hbad⟩
  | obj fields =>
    rw [readStep_key (listSegment_of_none (matchSegment_of_closed h))]
    exact ⟨nofun, nofun⟩
  | _ => exact ⟨nofun, nofun⟩

theorem getAtField_of_blank (h : cleanedSegments field = []) (item : Document) :
    ∃ e, getAtField field item = .error e := by
  rw [getAtField, splitPath, if_pos h]
  exact ⟨_, rfl⟩

theorem getAtField_of_split (h : cleanedSegments field ≠ []) (item : Document) :
    getAtField field item =
      (walk (readStep fun _ _ => .ok .null) (cleanedSegments field) item).map
        fun found => found.getD .null := by
  rw [getAtField, splitPath, if_neg h]
  rfl

theorem matchesFilter_of_read {read : Document → Except PyException Document}
    {fields : List (String × Document)} {found : Document}
    (h : read (.obj fields) = .ok found) :
    matchesFilter read value (.obj fields) =
      (scalarText found).map fun text => text == some value := by
  rw [matchesFilter_obj, h]
  change (scalarText found >>= fun text => .ok (text == some value)) = _
  cases scalarText found <;> rfl

/-- A filter takes an item for a match in one case only. -/
theorem matchesFilter_iff (hclosed : '[' ∉ field) :
    matchesFilter (getAtField field) value item = .ok true ↔ ItemMatches field value item := by
  have hleads : ∀ segment ∈ cleanedSegments field, ∀ value next,
      readStep (fun _ _ => .ok .null) segment value = .ok (some next) ↔
        FieldLeads segment value next :=
    fun segment hmem => fieldStep_eq_some (cleanedSegments_closed hclosed hmem)
  cases item with
  | obj fields =>
    constructor
    · intro h
      rw [matchesFilter_obj] at h
      obtain ⟨found, hfound, h⟩ := bind_eq_ok.mp h
      obtain ⟨text, htext, h⟩ := bind_eq_ok.mp h
      obtain rfl : text = some value := by simpa using Except.ok.inj h
      by_cases hne : cleanedSegments field = []
      · obtain ⟨e, he⟩ := getAtField_of_blank hne (.obj fields)
        rw [he] at hfound
        cases hfound
      · rw [getAtField_of_split hne] at hfound
        obtain ⟨last, hlast, rfl⟩ := map_eq_ok.mp hfound
        cases last with
        | none => cases htext
        | some last => exact .intro hne ((walk_eq_some_iff hleads).mp hlast) htext
    · rintro ⟨hne, hreach, htext⟩
      rename_i found
      have hread : getAtField field (.obj fields) = .ok found := by
        rw [getAtField_of_split hne, (walk_eq_some_iff hleads).mpr hreach]
        rfl
      rw [matchesFilter_of_read hread, htext]
      simp [Except.map]
  | _ => exact ⟨nofun, nofun⟩

/-- A filter raises at an item in few cases only. -/
theorem matchesFilter_error_iff (hclosed : '[' ∉ field) :
    (∃ e, matchesFilter (getAtField field) value item = .error e) ↔ ItemStuck field item := by
  have hleads : ∀ segment ∈ cleanedSegments field, ∀ value next,
      readStep (fun _ _ => .ok .null) segment value = .ok (some next) ↔
        FieldLeads segment value next :=
    fun segment hmem => fieldStep_eq_some (cleanedSegments_closed hclosed hmem)
  have hstuck : ∀ segment ∈ cleanedSegments field, ∀ value,
      (∃ e, readStep (fun _ _ => .ok .null) segment value = .error e) ↔ FieldStuck segment value :=
    fun segment hmem => fieldStep_error_iff (cleanedSegments_closed hclosed hmem)
  cases item with
  | obj fields =>
    by_cases hne : cleanedSegments field = []
    · obtain ⟨e, he⟩ := getAtField_of_blank hne (.obj fields)
      rw [matchesFilter_obj, he]
      exact ⟨fun _ => .blank hne, fun _ => ⟨e, rfl⟩⟩
    · cases hwalk : walk (readStep fun _ _ => .ok .null) (cleanedSegments field)
          (.obj fields : Document) with
      | error e =>
        rw [matchesFilter_obj, getAtField_of_split hne, hwalk]
        exact ⟨fun _ => .obstructed ((walk_error_iff hleads hstuck).mp ⟨e, hwalk⟩),
          fun _ => ⟨e, rfl⟩⟩
      | ok last =>
        have hread : getAtField field (.obj fields) = .ok (last.getD .null) := by
          rw [getAtField_of_split hne, hwalk]
          rfl
        rw [matchesFilter_of_read hread]
        constructor
        · rintro ⟨e, h⟩
          cases htext : scalarText (last.getD .null) with
          | ok text =>
            rw [htext] at h
            cases h
          | error e =>
            obtain ⟨n, hn, hlong⟩ := scalarText_error_iff.mp ⟨e, htext⟩
            cases last with
            | none => cases hn
            | some last =>
              obtain rfl : last = .num (.int n) := hn
              exact .long ((walk_eq_some_iff hleads).mp hwalk) hlong
        · intro h
          cases h with
          | blank h => exact absurd h hne
          | obstructed h =>
            obtain ⟨e, he⟩ := (walk_error_iff hleads hstuck).mpr h
            rw [hwalk] at he
            cases he
          | long h hlong =>
            rename_i n
            have hn := hwalk.symm.trans ((walk_eq_some_iff hleads).mpr h)
            obtain rfl := Except.ok.inj hn
            obtain ⟨e, he⟩ := scalarText_error_iff.mpr ⟨n, rfl, hlong⟩
            rw [Option.getD_some, he]
            exact ⟨e, rfl⟩
  | _ => exact ⟨nofun, nofun⟩

theorem matchesFilter_passed (hclosed : '[' ∉ field) :
    matchesFilter (getAtField field) value item = .ok false ↔ ItemPassed field value item := by
  rw [ItemPassed, ← matchesFilter_iff hclosed, ← @matchesFilter_error_iff field value item hclosed]
  cases matchesFilter (getAtField field) value item with
  | error e => simp
  | ok found => cases found <;> simp

end Fields

section Segments

variable {segment : List Char}

/-- A search raises at the first item that neither matches nor fails to. -/
theorem findFilteredIndex_error_iff {read : Document → Except PyException Document}
    {value : String} {items : List Document} :
    (∃ e, findFilteredIndex read value items = .error e) ↔
      ∃ front item back, items = front ++ item :: back ∧
        (∀ other ∈ front, matchesFilter read value other = .ok false) ∧
        ∃ e, matchesFilter read value item = .error e := by
  induction items with
  | nil =>
    constructor
    · rintro ⟨e, h⟩
      cases h
    · rintro ⟨front, item, back, hitems, -⟩
      simp at hitems
  | cons item items ih =>
    constructor
    · rintro ⟨e, h⟩
      cases hfound : matchesFilter read value item with
      | error e => exact ⟨[], item, items, rfl, by simp, e, hfound⟩
      | ok found =>
        rw [findFilteredIndex, hfound] at h
        cases found with
        | true => cases h
        | false =>
          cases hrest : findFilteredIndex read value items with
          | ok rest =>
            rw [hrest] at h
            cases h
          | error e =>
            obtain ⟨front, item', back, rfl, hfront, hitem⟩ := ih.mp ⟨e, hrest⟩
            refine ⟨item :: front, item', back, rfl, ?_, hitem⟩
            intro other hother
            rcases List.mem_cons.mp hother with rfl | hother
            · exact hfound
            · exact hfront other hother
    · rintro ⟨front, item', back, hitems, hfront, hitem⟩
      cases front with
      | nil =>
        obtain ⟨rfl, rfl⟩ := List.cons.inj hitems
        obtain ⟨e, he⟩ := hitem
        exact ⟨e, by rw [findFilteredIndex, he]; rfl⟩
      | cons other front =>
        obtain ⟨rfl, rfl⟩ := List.cons.inj hitems
        obtain ⟨e, he⟩ := ih.mpr ⟨front, item', back, rfl,
          fun other hother => hfront other (List.mem_cons_of_mem _ hother), hitem⟩
        exact ⟨e, by rw [findFilteredIndex, hfront item List.mem_cons_self, he]; rfl⟩

theorem listSegment_index {key : String} {digits : List Char}
    (h : matchSegment segment = some (.index key digits)) :
    listSegment segment = (intOfDigits digits).map fun index => some (.index key index) := by
  rw [listSegment, h]

theorem listSegment_position {key : String} {digits : List Char} {position : ℕ}
    (h : matchSegment segment = some (.index key digits))
    (hposition : intOfDigits digits = .ok position) :
    listSegment segment = .ok (some (.index key position)) := by
  rw [listSegment_index h, hposition]
  rfl

theorem index_error_iff {key : String} {digits : List Char}
    (h : matchSegment segment = some (.index key digits)) :
    (∃ e, intOfDigits digits = .error e) ↔ maxStrDigits < digits.length := by
  have hdecimal : ∀ c ∈ digits, isDecimal c = true := by
    unfold matchSegment at h
    obtain ⟨⟨text, selector⟩, -, h⟩ := Option.bind_eq_some_iff.mp h
    dsimp only at h
    split at h
    · split at h <;> cases h
    · split at h
      · rename_i hdigits
        cases h
        exact List.all_eq_true.mp hdigits.2
      · cases h
  rw [intOfDigits_error_iff]
  constructor
  · rintro (hlong | ⟨c, hc, hother⟩)
    · exact hlong
    · rw [hdecimal c hc] at hother
      cases hother
  · exact Or.inl

theorem lookup_arr_cases (fields : List (String × Document)) (key : String) :
    (∃ items, fields.lookup key = some (.arr items)) ∨
      ∀ items, fields.lookup key ≠ some (.arr items) := by
  by_cases h : ∃ items, fields.lookup key = some (.arr items)
  · exact Or.inl h
  · exact Or.inr fun items hitems => h ⟨items, hitems⟩

theorem readStep_selector_none {readField : FieldReader} {fields : List (String × Document)}
    {selector : ListSegment} (h : listSegment segment = .ok (some selector))
    (hitems : ∀ items, fields.lookup selector.key ≠ some (.arr items)) :
    readStep readField segment (.obj fields) = .ok none := by
  rw [readStep, h]
  simp only [bind, Except.bind]
  rfl

theorem readStep_selector_eq_some {readField : FieldReader} {fields : List (String × Document)}
    {selector : ListSegment} {next : Document}
    (h : listSegment segment = .ok (some selector)) :
    readStep readField segment (.obj fields) = .ok (some next) ↔
      ∃ items index, fields.lookup selector.key = some (.arr items) ∧
        selector.find readField items = .ok (some index) ∧ items[index]? = some next := by
  rcases lookup_arr_cases fields selector.key with ⟨items, hitems⟩ | hitems
  · rw [readStep_selector h hitems]
    constructor
    · intro hstep
      obtain ⟨index, hfind, hnext⟩ := map_eq_ok.mp hstep
      obtain ⟨index, rfl, hnext⟩ := Option.bind_eq_some_iff.mp hnext
      exact ⟨items, index, hitems, hfind, hnext⟩
    · rintro ⟨items', index, hitems', hfind, hnext⟩
      obtain rfl := JsonValue.arr.inj (Option.some.inj (hitems.symm.trans hitems'))
      rw [hfind]
      exact congrArg _ hnext
  · rw [readStep_selector_none h hitems]
    constructor
    · rintro ⟨⟩
    · rintro ⟨items, index, hlookup, -⟩
      exact absurd hlookup (hitems items)

theorem readStep_selector_error {readField : FieldReader} {fields : List (String × Document)}
    {selector : ListSegment} (h : listSegment segment = .ok (some selector)) :
    (∃ e, readStep readField segment (.obj fields) = .error e) ↔
      ∃ items, fields.lookup selector.key = some (.arr items) ∧
        ∃ e, selector.find readField items = .error e := by
  rcases lookup_arr_cases fields selector.key with ⟨items, hitems⟩ | hitems
  · rw [readStep_selector h hitems]
    constructor
    · rintro ⟨e, hstep⟩
      cases hfind : selector.find readField items with
      | error e => exact ⟨items, hitems, e, hfind⟩
      | ok index =>
        rw [hfind] at hstep
        cases hstep
    · rintro ⟨items', hitems', e, he⟩
      obtain rfl := JsonValue.arr.inj (Option.some.inj (hitems.symm.trans hitems'))
      exact ⟨e, by rw [he]; rfl⟩
  · rw [readStep_selector_none h hitems]
    constructor
    · rintro ⟨e, he⟩
      cases he
    · rintro ⟨items, hlookup, -⟩
      exact absurd hlookup (hitems items)

theorem listSegment_of_filter {key value : String} {field : List Char}
    (h : matchSegment segment = some (.filter key field value)) :
    listSegment segment = .ok (some (.filter key field value)) := by
  rw [listSegment, h]

theorem find_filter_eq_some {key value : String} {field : List Char} (h : '[' ∉ field)
    {items : List Document} {index : ℕ} :
    (ListSegment.filter key field value).find getAtField items = .ok (some index) ↔
      ∃ front item back, items = front ++ item :: back ∧ front.length = index ∧
        (∀ other ∈ front, ItemPassed field value other) ∧ ItemMatches field value item := by
  rw [ListSegment.find, findFilteredIndex_eq_some]
  simp only [matchesFilter_passed h, matchesFilter_iff h]

theorem find_filter_error {key value : String} {field : List Char} (h : '[' ∉ field)
    {items : List Document} :
    (∃ e, (ListSegment.filter key field value).find getAtField items = .error e) ↔
      ∃ front item back, items = front ++ item :: back ∧
        (∀ other ∈ front, ItemPassed field value other) ∧ ItemStuck field item := by
  rw [ListSegment.find, findFilteredIndex_error_iff]
  simp only [matchesFilter_passed h, matchesFilter_error_iff h]

theorem find_index_eq_some {key : String} {position index : ℕ} {items : List Document} :
    (ListSegment.index key position).find getAtField items = .ok (some index) ↔
      position < items.length ∧ position = index := by
  rw [ListSegment.find]
  split
  · rename_i hlt
    simp [hlt]
  · rename_i hlt
    simp [hlt]

/-- Where a segment leads. -/
theorem readStep_eq_some (document next : Document) :
    readStep getAtField segment document = .ok (some next) ↔ Leads segment document next := by
  cases document with
  | arr items =>
    rw [readStep_arr_eq_some]
    constructor
    · rintro ⟨hdigits, index, hindex, hitem⟩
      exact .item hdigits hindex hitem
    · rintro ⟨hdigits, hindex, hitem⟩
      exact ⟨hdigits, _, hindex, hitem⟩
  | obj fields =>
    cases hmatch : matchSegment segment with
    | none =>
      rw [readStep_key (listSegment_of_none hmatch)]
      constructor
      · intro hstep
        exact .field hmatch (Except.ok.inj hstep)
      · intro h
        cases h with
        | field _ hchild => exact congrArg _ hchild
        | index hindex => rw [hmatch] at hindex; cases hindex
        | filter hfilter => rw [hmatch] at hfilter; cases hfilter
    | some parts =>
      cases parts with
      | index key digits =>
        constructor
        · intro hstep
          cases hposition : intOfDigits digits with
          | error e =>
            rw [readStep, listSegment_index hmatch, hposition] at hstep
            cases hstep
          | ok position =>
            rw [readStep_selector_eq_some (listSegment_position hmatch hposition)] at hstep
            obtain ⟨items, index, hitems, hfind, hnext⟩ := hstep
            obtain ⟨-, rfl⟩ := find_index_eq_some.mp hfind
            exact .index hmatch hposition hitems hnext
        · intro h
          cases h with
          | field hkey => rw [hmatch] at hkey; cases hkey
          | filter hfilter => rw [hmatch] at hfilter; cases hfilter
          | index hindex hposition hitems hitem =>
            obtain ⟨rfl, rfl⟩ := SegmentMatch.index.inj
              (Option.some.inj (hmatch.symm.trans hindex))
            rw [readStep_selector_eq_some (listSegment_position hmatch hposition)]
            have hlt := (List.getElem?_eq_some_iff.mp hitem).1
            exact ⟨_, _, hitems, find_index_eq_some.mpr ⟨hlt, rfl⟩, hitem⟩
      | filter key field value =>
        rw [readStep_selector_eq_some (listSegment_of_filter hmatch)]
        simp only [find_filter_eq_some (field_closed hmatch)]
        constructor
        · rintro ⟨items, index, hitems, ⟨front, item, back, rfl, rfl, hfront, hitem⟩, hnext⟩
          obtain rfl : item = next := by simpa using hnext
          exact .filter hmatch hitems hfront hitem
        · intro h
          cases h with
          | field hkey => rw [hmatch] at hkey; cases hkey
          | index hindex => rw [hmatch] at hindex; cases hindex
          | filter hfilter hitems hfront hitem =>
            obtain ⟨rfl, rfl, rfl⟩ := SegmentMatch.filter.inj
              (Option.some.inj (hmatch.symm.trans hfilter))
            exact ⟨_, _, hitems, ⟨_, _, _, rfl, rfl, hfront, hitem⟩, by simp⟩
  | _ =>
    constructor
    · rintro ⟨⟩
    · rintro ⟨⟩

/-- Where a segment cannot be followed. -/
theorem readStep_error_iff (document : Document) :
    (∃ e, readStep getAtField segment document = .error e) ↔ Stuck segment document := by
  cases document with
  | arr items =>
    rw [readStep_arr_error_iff]
    constructor
    · rintro ⟨hdigits, hbad⟩
      exact .number hdigits hbad
    · rintro ⟨hdigits, hbad⟩
      exact ⟨hdigits, hbad⟩
  | obj fields =>
    cases hmatch : matchSegment segment with
    | none =>
      rw [readStep_key (listSegment_of_none hmatch)]
      constructor
      · rintro ⟨e, hstep⟩
        cases hstep
      · intro h
        cases h with
        | index hindex => rw [hmatch] at hindex; cases hindex
        | filter hfilter => rw [hmatch] at hfilter; cases hfilter
    | some parts =>
      cases parts with
      | index key digits =>
        constructor
        · rintro ⟨e, hstep⟩
          apply Stuck.index hmatch
          apply (index_error_iff hmatch).mp
          cases hposition : intOfDigits digits with
          | error e => exact ⟨e, rfl⟩
          | ok position =>
            obtain ⟨items, -, e, hfind⟩ := (readStep_selector_error
              (listSegment_position hmatch hposition)).mp ⟨e, hstep⟩
            cases hfind
        · intro h
          cases h with
          | filter hfilter => rw [hmatch] at hfilter; cases hfilter
          | index hindex hlong =>
            obtain ⟨e, he⟩ := (index_error_iff hindex).mpr hlong
            refine ⟨e, ?_⟩
            rw [readStep, listSegment_index hindex, he]
            rfl
      | filter key field value =>
        rw [readStep_selector_error (listSegment_of_filter hmatch)]
        simp only [find_filter_error (field_closed hmatch)]
        constructor
        · rintro ⟨items, hitems, front, item, back, rfl, hfront, hitem⟩
          exact .filter hmatch hitems hfront hitem
        · intro h
          cases h with
          | index hindex => rw [hmatch] at hindex; cases hindex
          | filter hfilter hitems hfront hitem =>
            obtain ⟨rfl, rfl, rfl⟩ := SegmentMatch.filter.inj
              (Option.some.inj (hmatch.symm.trans hfilter))
            exact ⟨_, hitems, _, _, _, rfl, hfront, hitem⟩
  | _ =>
    constructor
    · rintro ⟨e, ⟨⟩⟩
    · rintro ⟨⟩

theorem getAtPath_eq_ok_iff {path : List Char} (h : cleanedSegments path ≠ [])
    (document : Document) :
    (∃ found, getAtPath document path = .ok found) ↔
      ¬ Obstructed Leads Stuck (cleanedSegments path) document := by
  have hleads : ∀ segment ∈ cleanedSegments path, ∀ value next,
      readStep getAtField segment value = .ok (some next) ↔ Leads segment value next :=
    fun segment _ => readStep_eq_some
  have hstuck : ∀ segment ∈ cleanedSegments path, ∀ value,
      (∃ e, readStep getAtField segment value = .error e) ↔ Stuck segment value :=
    fun segment _ => readStep_error_iff
  rw [getAtPath_eq (splitPath_eq_ok.mpr ⟨rfl, h⟩), ← walk_error_iff hleads hstuck]
  cases walk (readStep getAtField) (cleanedSegments path) document with
  | error e => simp [Except.map]
  | ok found => simp [Except.map]

end Segments

/-- What is written is read back from its path and seen under no other key, and a read returns
a value wherever its path is not obstructed. -/
theorem document_reads_back (fields : List (String × Document)) (path : List Char) :
    (∀ value after, setAtPath fields path value = .ok after →
      (¬ EndsInFilter path → ¬ TestsChanged (cleanedSegments path) (.obj fields) after →
        getAtPath after path = .ok value) ∧
      ∀ other, topLevelKey other ≠ topLevelKey path →
        getAtPath after other = getAtPath (.obj fields) other) ∧
    ∀ document, cleanedSegments path ≠ [] →
      ((∃ found, getAtPath document path = .ok found) ↔
        ¬ Obstructed Leads Stuck (cleanedSegments path) document) := by
  constructor
  · intro value after h
    constructor
    · exact getAtPath_setAtPath_self h
    · exact fun other hne => getAtPath_setAtPath_other h hne
  · exact fun document h => getAtPath_eq_ok_iff h document

/-- A value written two levels down. -/
theorem document_reads_back_nested :
    getAtPath (.obj [("a", .obj [("b", .bool true)])]) ['a', '.', 'b'] = .ok (.bool true) := by
  have hwrite : setAtPath [("a", .obj [])] ['a', '.', 'b'] (.bool true) =
      .ok (.obj [("a", .obj [("b", .bool true)])]) := by rfl
  apply ((document_reads_back _ _).1 _ _ hwrite).1
  · rintro ⟨last, hlast, key, field, value, hfilter⟩
    obtain rfl : ['b'] = last := Option.some.inj hlast
    cases hfilter
  · intro h
    cases h with
    | tested hfilter => cases hfilter
    | selected hselector => cases hselector
    | field _ hchild _ h =>
      obtain rfl := Option.some.inj hchild
      exact not_testsChanged_empty h

/-- A superscript is a digit that is no number. -/
theorem superscript_at_a_list :
    ¬ ∀ document path, cleanedSegments path ≠ [] →
      ∃ found, getAtPath document path = .ok found := by
  intro h
  obtain ⟨found, hfound⟩ := h (.obj [("a", .arr [])]) ['a', '.', '²'] (by decide +kernel)
  have hraises : (getAtPath (.obj [("a", .arr [])]) ['a', '.', '²']).isOk = false := by
    decide +kernel
  rw [hfound] at hraises
  cases hraises

end Manus.ObjectPath
