import Manus.Attributes.Defaults

/-! # What filling in defaults keeps

A merge is described key by key, and from that place by place: a place is a path of
keys. What stands at a place of the bag stays there, what is new at a place comes
from the defaults, and filling in the same defaults again changes nothing.
-/

namespace Manus.Defaults

section Places

def valueAt : List String → Json → Option Json
  | [], value => some value
  | key :: place, value => (value.get? key).bind (valueAt place)

def IsLeaf (value : Json) : Prop := ∀ fields, value ≠ .obj fields

def KeysDistinct (value : Json) : Prop :=
  ∀ place fields, valueAt place value = some (.obj fields) → (fields.map Prod.fst).Nodup

theorem KeysDistinct.nodup {fields : List (String × Json)} (h : KeysDistinct (.obj fields)) :
    (fields.map Prod.fst).Nodup := h [] fields rfl

theorem KeysDistinct.lookup {fields : List (String × Json)} {key : String} {value : Json}
    (h : KeysDistinct (.obj fields)) (hkey : fields.lookup key = some value) :
    KeysDistinct value := by
  intro place inner hplace
  apply h (key :: place)
  rw [valueAt, Json.get?, hkey]
  exact hplace

theorem valueAt_obj {key : String} {place : List String} {fields : List (String × Json)} :
    valueAt (key :: place) (.obj fields) = (fields.lookup key).bind (valueAt place) := rfl

theorem valueAt_key {key : String} {fields : List (String × Json)} :
    valueAt [key] (.obj fields) = fields.lookup key := by
  rw [valueAt_obj]
  cases fields.lookup key <;> rfl

theorem exists_of_valueAt {key : String} {place : List String} {value found : Json}
    (h : valueAt (key :: place) value = some found) :
    ∃ fields inner, value = .obj fields ∧ fields.lookup key = some inner ∧
      valueAt place inner = some found := by
  obtain ⟨inner, hinner, hfound⟩ := Option.bind_eq_some_iff.mp h
  cases value with
  | obj fields => exact ⟨fields, inner, rfl, hinner, hfound⟩
  | _ => cases hinner

theorem isEmpty_of_below {place : List String} {value found : Json} (hplace : place ≠ [])
    (h : valueAt place value = some found) : isEmpty value = false := by
  cases place with
  | nil => exact (hplace rfl).elim
  | cons key place =>
    obtain ⟨fields, inner, rfl, hinner, -⟩ := exists_of_valueAt h
    cases fields with
    | nil => cases hinner
    | cons field fields => rfl

theorem isEmpty_of_valueAt {place : List String} {value found : Json}
    (h : valueAt place value = some found) (hfound : isEmpty found = false) :
    isEmpty value = false := by
  cases place with
  | nil =>
    cases h
    exact hfound
  | cons key place => exact isEmpty_of_below (List.cons_ne_nil key place) h

end Places

section Keys

variable {overwrite : Bool}

def fill (rule : String → Json → Json → Option Json) (merged defaults : List (String × Json)) :
    List (String × Json) :=
  defaults.foldl (fun merged field => store field.1
    (rule field.1 (getKey merged field.1) field.2) merged) merged

theorem lookup_store {key key' : String} {value : Option Json} {merged : List (String × Json)} :
    (store key value merged).lookup key' =
      if key' = key then value.or (merged.lookup key) else merged.lookup key' := by
  cases value with
  | none =>
    by_cases h : key' = key
    · simp [store, h]
    · simp [store, h]
  | some value =>
    rw [store, Dict.lookup_insertEntry]
    rfl

theorem lookup_fill {rule : String → Json → Json → Option Json}
    {merged defaults : List (String × Json)} (hnodup : (defaults.map Prod.fst).Nodup)
    (key : String) :
    (fill rule merged defaults).lookup key =
      ((defaults.lookup key).bind (rule key (getKey merged key))).or (merged.lookup key) := by
  induction defaults generalizing merged with
  | nil => rfl
  | cons field defaults ih =>
    obtain ⟨key₀, value⟩ := field
    obtain ⟨hnew, hnodup⟩ := List.nodup_cons.mp hnodup
    have hstep : fill rule merged ((key₀, value) :: defaults) =
      fill rule (store key₀ (rule key₀ (getKey merged key₀) value) merged) defaults := rfl
    rw [hstep, ih hnodup, Dict.lookup_pair_cons]
    by_cases h : key = key₀
    · subst h
      have hnone : defaults.lookup key = none := by
        apply List.lookup_eq_none_iff.mpr
        intro field hfield
        simpa using fun he : key = field.1 => hnew (List.mem_map.mpr ⟨field, hfield, he.symm⟩)
      simp [hnone, lookup_store]
    · have hsame : (store key₀ (rule key₀ (getKey merged key₀) value) merged).lookup key =
          merged.lookup key := by rw [lookup_store, if_neg h]
      rw [getKey, hsame, if_neg h]
      rfl

theorem fill_self {rule : String → Json → Json → Option Json}
    {merged defaults : List (String × Json)}
    (h : ∀ field ∈ defaults, ∀ value, rule field.1 (getKey merged field.1) field.2 = some value →
      merged.lookup field.1 = some value) : fill rule merged defaults = merged := by
  induction defaults with
  | nil => rfl
  | cons field defaults ih =>
    have hstep : store field.1 (rule field.1 (getKey merged field.1) field.2) merged = merged := by
      have hfield := h field List.mem_cons_self
      cases hrule : rule field.1 (getKey merged field.1) field.2 with
      | none => rfl
      | some value => exact Dict.insertEntry_self (hfield value hrule)
    rw [fill, List.foldl_cons, hstep]
    exact ih fun field hfield => h field (List.mem_cons_of_mem _ hfield)

theorem mergeKeys_eq (merged defaults : List (String × Json)) :
    mergeKeys overwrite merged defaults = fill (fun key current value =>
      mergeKey overwrite key current value (mergeValue overwrite current value))
      merged defaults := by
  induction defaults generalizing merged with
  | nil => rw [mergeKeys]; rfl
  | cons field defaults ih =>
    rw [mergeKeys, ih]
    rfl

theorem mergeCustomFields_eq (existing defaults : Json) :
    mergeCustomFields overwrite existing defaults =
      fill (fun _ => copyDefault overwrite) (fieldsOf existing) (fieldsOf defaults) := by
  unfold mergeCustomFields fill
  congr 1
  funext merged field
  unfold mergeCustomField copyDefault
  by_cases h : overwrite ∨ isEmpty (getKey merged field.1)
  · simp only [if_pos h, store]
  · simp only [if_neg h, store]

theorem mergeValue_obj (existing fields : List (String × Json)) :
    mergeValue overwrite (.obj existing) (.obj fields) =
      some (.obj (mergeNautobotDefaults overwrite (.obj existing) fields)) := by
  rw [mergeValue]
  rfl

theorem lookup_withInterfaceType {defaults merged : List (String × Json)} {key : String}
    (h : key ≠ "interfaces") :
    (withInterfaceType overwrite defaults merged).lookup key = merged.lookup key := by
  unfold withInterfaceType
  split
  · rw [Dict.lookup_insertEntry, if_neg h]
  · rfl

def combine (overwrite : Bool) : Option Json → Option Json → Option Json
  | current, none => current
  | some (.obj existing), some (.obj defaults) =>
    some (.obj (mergeNautobotDefaults overwrite (.obj existing) defaults))
  | current, some default =>
    if overwrite ∨ isEmpty (current.getD .null) then some default else current

def specialKeys : List String := ["interfaces", "custom_fields", interfaceTypeKey]

theorem copyDefault_or {current : Option Json} {value : Json} :
    (copyDefault overwrite (current.getD .null) value).or current =
      if overwrite ∨ isEmpty (current.getD .null) then some value else current := by
  unfold copyDefault
  split <;> rfl

theorem mergeValue_copies {current value : Json} (h : IsLeaf current ∨ IsLeaf value) :
    mergeValue overwrite current value = copyDefault overwrite current value := by
  cases value with
  | obj fields =>
    cases current with
    | obj existing => exact (h.elim (· existing rfl) (· fields rfl)).elim
    | _ =>
      rw [mergeValue]
      rintro fields ⟨⟩
  | _ =>
    rw [mergeValue]
    rintro fields ⟨⟩

theorem combine_copies {current : Option Json} {value : Json}
    (h : IsLeaf (current.getD .null) ∨ IsLeaf value) :
    combine overwrite current (some value) =
      if overwrite ∨ isEmpty (current.getD .null) then some value else current := by
  unfold combine
  split
  · rename_i hnone; cases hnone
  · rename_i existing defaults hvalue
    cases hvalue
    exact (h.elim (· existing rfl) (· defaults rfl)).elim
  · rename_i hvalue
    cases hvalue
    rfl

theorem leaf_or_obj (value : Json) : IsLeaf value ∨ ∃ fields, value = .obj fields := by
  cases value with
  | obj fields => exact .inr ⟨fields, rfl⟩
  | _ =>
    left
    rintro fields ⟨⟩

theorem mergeValue_or (current : Option Json) (value : Json) :
    (mergeValue overwrite (current.getD .null) value).or current =
      combine overwrite current (some value) := by
  rcases leaf_or_obj value with hleaf | ⟨defaults, rfl⟩
  · rw [mergeValue_copies (.inr hleaf), combine_copies (.inr hleaf), copyDefault_or]
  · rcases leaf_or_obj (current.getD .null) with hleaf | ⟨existing, hobj⟩
    · rw [mergeValue_copies (.inl hleaf), combine_copies (.inl hleaf), copyDefault_or]
    · cases current with
      | none => cases hobj
      | some current =>
        cases hobj
        rw [Option.getD_some, mergeValue_obj]
        rfl

variable {existing defaults : List (String × Json)}

theorem lookup_ordinary (hnodup : (defaults.map Prod.fst).Nodup) {key : String}
    (hkey : key ∉ specialKeys) :
    (mergeNautobotDefaults overwrite (.obj existing) defaults).lookup key =
      combine overwrite (existing.lookup key) (defaults.lookup key) := by
  simp only [specialKeys, List.mem_cons, List.not_mem_nil, or_false, not_or] at hkey
  obtain ⟨hinterfaces, hcustom, htype⟩ := hkey
  rw [mergeNautobotDefaults, lookup_withInterfaceType hinterfaces, mergeKeys_eq,
    lookup_fill hnodup]
  cases hdefault : defaults.lookup key with
  | none => simp [combine, fieldsOf]
  | some default =>
    simp only [Option.bind_some, mergeKey, if_neg htype, if_neg hinterfaces, if_neg hcustom]
    exact mergeValue_or (existing.lookup key) default

theorem lookup_interfaceType (hnodup : (defaults.map Prod.fst).Nodup) :
    (mergeNautobotDefaults overwrite (.obj existing) defaults).lookup interfaceTypeKey =
      existing.lookup interfaceTypeKey := by
  have hne : interfaceTypeKey ≠ "interfaces" := by decide
  rw [mergeNautobotDefaults, lookup_withInterfaceType hne, mergeKeys_eq, lookup_fill hnodup]
  cases defaults.lookup interfaceTypeKey with
  | none => rfl
  | some default => simp [mergeKey, fieldsOf]

theorem lookup_customFields (hnodup : (defaults.map Prod.fst).Nodup) :
    (mergeNautobotDefaults overwrite (.obj existing) defaults).lookup "custom_fields" =
      match defaults.lookup "custom_fields" with
      | none => existing.lookup "custom_fields"
      | some fields => some (.obj (mergeCustomFields overwrite
          (getKey existing "custom_fields") fields)) := by
  have hne : "custom_fields" ≠ "interfaces" := by decide
  have htype : "custom_fields" ≠ interfaceTypeKey := by decide
  rw [mergeNautobotDefaults, lookup_withInterfaceType hne, mergeKeys_eq, lookup_fill hnodup]
  cases defaults.lookup "custom_fields" with
  | none => rfl
  | some fields =>
    simp only [Option.bind_some, mergeKey, if_neg htype, if_neg hne, if_true, fieldsOf]
    rfl

def untypedInterfaces (overwrite : Bool) (existing defaults : List (String × Json)) :
    Option Json :=
  match defaults.lookup "interfaces" with
  | none => existing.lookup "interfaces"
  | some interfaces =>
    some (.arr (mergeInterfaces overwrite (getKey existing "interfaces") interfaces))

def typed (overwrite : Bool) : Option Json → Json → Json
  | some interfaceType, .arr interfaces =>
    .arr (applyDefaultInterfaceType overwrite interfaces interfaceType)
  | _, interfaces => interfaces

theorem lookup_interfaces (hnodup : (defaults.map Prod.fst).Nodup) :
    (mergeNautobotDefaults overwrite (.obj existing) defaults).lookup "interfaces" =
      (untypedInterfaces overwrite existing defaults).map
        (typed overwrite (defaults.lookup interfaceTypeKey)) := by
  have htype : "interfaces" ≠ interfaceTypeKey := by decide
  have hloop : (mergeKeys overwrite existing defaults).lookup "interfaces" =
      untypedInterfaces overwrite existing defaults := by
    rw [mergeKeys_eq, lookup_fill hnodup, untypedInterfaces]
    cases defaults.lookup "interfaces" with
    | none => rfl
    | some interfaces => simp [mergeKey, htype]
  simp only [mergeNautobotDefaults, withInterfaceType, fieldsOf, hloop]
  split
  · rename_i interfaceType interfaces hdefault huntyped
    rw [Dict.lookup_insertEntry, if_pos rfl, hdefault, huntyped]
    rfl
  · rename_i hother
    rw [hloop]
    cases huntyped : untypedInterfaces overwrite existing defaults with
    | none => rfl
    | some interfaces =>
      rw [Option.map_some]
      congr 1
      unfold typed
      split
      · rename_i interfaceType interfaces hdefault
        exact (hother interfaceType interfaces hdefault huntyped).elim
      · rfl

end Keys

section Interfaces

def nameOf : Json → Option String
  | .obj fields =>
    let name := textOrEmpty (getKey fields "name")
    if name = "" then none else some name
  | _ => none

def firstNamed : List String → List Json → List Json
  | _, [] => []
  | seen, item :: items =>
    match nameOf item with
    | none => firstNamed seen items
    | some name =>
      if name ∈ seen then firstNamed seen items else item :: firstNamed (seen ++ [name]) items

theorem addInterface_eq (overwrite : Bool) (byName : Dict Json) (item : Json) :
    addInterface overwrite byName item =
      match nameOf item with
      | none => byName
      | some name =>
        if (byName.get? name).isSome ∧ overwrite = false then byName
        else byName.insert name item := by
  cases item with
  | obj fields =>
    simp only [addInterface, nameOf]
    by_cases h : textOrEmpty (getKey fields "name") = ""
    · simp [h]
    · simp [h]
  | _ => rfl

theorem values_foldl_addInterface (items : List Json) (byName : Dict Json) :
    (items.foldl (addInterface false) byName).values =
      byName.values ++ firstNamed byName.keys items := by
  induction items generalizing byName with
  | nil => simp [firstNamed]
  | cons item items ih =>
    rw [List.foldl_cons, ih, addInterface_eq, firstNamed]
    cases nameOf item with
    | none => rfl
    | some name =>
      by_cases h : name ∈ byName.keys
      · simp [h, Dict.mem_keys_iff.mp h]
      · have hnone : byName.get? name = none := Dict.not_mem_keys_iff.mp h
        have hentries : (byName.insert name item).entries = byName.entries ++ [(name, item)] :=
          Dict.insertEntry_new hnone
        have hkeys : (byName.insert name item).keys = byName.keys ++ [name] := by
          rw [Dict.keys, hentries, List.map_append]
          rfl
        have hvalues : (byName.insert name item).values = byName.values ++ [item] := by
          rw [Dict.values, hentries, List.map_append]
          rfl
        simp [h, hnone, hkeys, hvalues]

theorem mergeInterfaces_fills (existing : Json) (defaults : List Json) :
    mergeInterfaces false existing (.arr defaults) =
      firstNamed [] (itemsOf existing ++ defaults) := by
  rw [mergeInterfaces, ← List.foldl_append, values_foldl_addInterface]
  rfl

theorem firstNamed_append (seen : List String) (items items' : List Json) :
    firstNamed seen (items ++ items') = firstNamed seen items ++
      firstNamed (seen ++ (firstNamed seen items).filterMap nameOf) items' := by
  induction items generalizing seen with
  | nil => simp [firstNamed]
  | cons item items ih =>
    rw [List.cons_append, firstNamed, firstNamed]
    cases hname : nameOf item with
    | none => exact ih seen
    | some name =>
      by_cases h : name ∈ seen
      · simp [h, ih]
      · simp [h, ih, hname]

theorem mem_of_mem_firstNamed {seen : List String} {items : List Json} {item : Json}
    (h : item ∈ firstNamed seen items) : item ∈ items := by
  induction items generalizing seen with
  | nil => cases h
  | cons item' items ih =>
    rw [firstNamed] at h
    split at h
    · exact List.mem_cons_of_mem _ (ih h)
    · split at h
      · exact List.mem_cons_of_mem _ (ih h)
      · rcases List.mem_cons.mp h with rfl | h
        · exact List.mem_cons_self
        · exact List.mem_cons_of_mem _ (ih h)

theorem name_mem_firstNamed {seen : List String} {items : List Json} {item : Json} {name : String}
    (h : item ∈ items) (hname : nameOf item = some name) :
    name ∈ seen ++ (firstNamed seen items).filterMap nameOf := by
  induction items generalizing seen with
  | nil => cases h
  | cons item' items ih =>
    rw [firstNamed]
    rcases List.mem_cons.mp h with rfl | h
    · rw [hname]
      by_cases hseen : name ∈ seen
      · exact List.mem_append_left _ hseen
      · simp [hseen, hname]
    · cases hname' : nameOf item' with
      | none => exact ih h
      | some name' =>
        by_cases hseen : name' ∈ seen
        · simpa [hseen] using ih h
        · have hrest := @ih (seen ++ [name']) h
          simpa [hseen, hname'] using hrest

theorem firstNamed_eq_nil {seen : List String} {items : List Json}
    (h : ∀ item ∈ items, ∀ name, nameOf item = some name → name ∈ seen) :
    firstNamed seen items = [] := by
  induction items with
  | nil => rfl
  | cons item items ih =>
    have hrest := ih fun item hitem => h item (List.mem_cons_of_mem _ hitem)
    rw [firstNamed]
    cases hname : nameOf item with
    | none => exact hrest
    | some name => simpa [h item List.mem_cons_self name hname] using hrest

theorem firstNamed_firstNamed (seen : List String) (items : List Json) :
    firstNamed seen (firstNamed seen items) = firstNamed seen items := by
  induction items generalizing seen with
  | nil => rfl
  | cons item items ih =>
    rw [firstNamed]
    cases hname : nameOf item with
    | none => exact ih seen
    | some name =>
      by_cases h : name ∈ seen
      · simpa [h] using ih seen
      · simp [h, firstNamed, hname, ih]

theorem firstNamed_map {f : Json → Json} (hf : ∀ item, nameOf (f item) = nameOf item)
    (seen : List String) (items : List Json) :
    firstNamed seen (items.map f) = (firstNamed seen items).map f := by
  induction items generalizing seen with
  | nil => rfl
  | cons item items ih =>
    rw [List.map_cons, firstNamed, firstNamed, hf]
    cases nameOf item with
    | none => exact ih seen
    | some name =>
      by_cases h : name ∈ seen
      · simpa [h] using ih seen
      · simp [h, ih]

theorem mergeInterfaces_again {f : Json → Json} (hf : ∀ item, nameOf (f item) = nameOf item)
    (existing : Json) (defaults : List Json) :
    mergeInterfaces false (.arr ((mergeInterfaces false existing (.arr defaults)).map f))
      (.arr defaults) = (mergeInterfaces false existing (.arr defaults)).map f := by
  rw [mergeInterfaces_fills, mergeInterfaces_fills, itemsOf, firstNamed_append, firstNamed_map hf,
    firstNamed_firstNamed]
  have hnone : firstNamed ([] ++ ((firstNamed [] (itemsOf existing ++ defaults)).map f).filterMap
      nameOf) defaults = [] := by
    apply firstNamed_eq_nil
    intro item hitem name hname
    have hmem := @name_mem_firstNamed [] (itemsOf existing ++ defaults) item name
      (List.mem_append_right _ hitem) hname
    simpa [List.filterMap_map, Function.comp_def, hf] using hmem
  rw [hnone, List.append_nil]

def TypeFilled (interfaceType : Option Json) (item item' : Json) : Prop :=
  item' = item ∨ ∃ type fields, interfaceType = some type ∧ item = .obj fields ∧
    isEmpty (getKey fields "type") = true ∧
      item' = .obj (Dict.insertEntry "type" (.str (textOf type)) fields)

theorem setType_filled (interfaceType item : Json) :
    TypeFilled (some interfaceType) item (setType false (textOf interfaceType) item) := by
  cases item with
  | obj fields =>
    rw [setType]
    by_cases h : isEmpty (getKey fields "type") = true
    · exact .inr ⟨interfaceType, fields, rfl, rfl, h, by simp [h]⟩
    · exact .inl (by simp [h])
  | _ => exact .inl rfl

theorem nameOf_setType (overwrite : Bool) (default : String) (item : Json) :
    nameOf (setType overwrite default item) = nameOf item := by
  cases item with
  | obj fields =>
    have hname : getKey (Dict.insertEntry "type" (.str default) fields) "name" =
        getKey fields "name" := by simp [getKey, Dict.lookup_insertEntry]
    rw [setType]
    split
    · simp only [nameOf, hname]
    · rfl
  | _ => rfl

theorem setType_again {default : String} (hne : default ≠ "")
    (hstrip : stripText default = default) (item : Json) :
    setType false default (setType false default item) = setType false default item := by
  have hset : isEmpty (.str default) = false := by simp [isEmpty, hstrip, hne]
  cases item with
  | obj fields =>
    by_cases h : isEmpty (getKey fields "type") = true
    · have htype : getKey (Dict.insertEntry "type" (.str default) fields) "type" =
          .str default := by
        simp [getKey, Dict.lookup_insertEntry]
      simp [setType, h, htype, hset]
    · simp [h, setType]
  | _ => rfl

theorem stripText_stripText (text : String) : stripText (stripText text) = stripText text := by
  simp [stripText, pyStrip_pyStrip]

theorem stripText_textOf (value : Json) : stripText (textOf value) = textOf value := by
  cases value with
  | null => rfl
  | _ => exact stripText_stripText _

end Interfaces

end Manus.Defaults
