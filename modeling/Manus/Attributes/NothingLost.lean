import Manus.Attributes.Filling

/-! # Filling in defaults loses nothing

What a bag has stays at its place, and nothing comes in but what the defaults have. Of the
interfaces this holds for the first entry of each name, where the defaults have interfaces
too. Overwriting puts every default at its place.
-/

namespace Manus.Defaults

variable {overwrite : Bool} {existing defaults : List (String × Json)}

section Statements

def Ordinary (place : List String) : Prop :=
  ∀ key ∈ place, key ≠ "interfaces" ∧ key ≠ "custom_fields"

inductive Keyed : List String → Prop
  | nil : Keyed []
  | customField (name : String) (rest : List String) : Keyed ("custom_fields" :: name :: rest)
  | cons {key : String} {place : List String} (hinterfaces : key ≠ "interfaces")
      (hcustom : key ≠ "custom_fields") (hplace : Keyed place) : Keyed (key :: place)

/-- The interfaces that a merge keeps, given those of the defaults: where there are some, the first
entry of each name. -/
def keptEntries (given : Option Json) (items : List Json) : List Json :=
  match given with
  | none => items
  | some _ => firstNamed [] items

/-- What a bag has is still there after the merge. An entry of the interfaces may be lost only
where the block has interfaces, and only if it has no name or the name of an earlier entry. -/
structure Keeps (bag block merged : Json) : Prop where
  values : ∀ place value, Keyed place → valueAt place bag = some value → IsLeaf value →
    isEmpty value = false → valueAt place merged = some value
  interfaces : ∀ place items, Ordinary place →
    valueAt (place ++ ["interfaces"]) bag = some (.arr items) →
    ∃ items' kept, valueAt (place ++ ["interfaces"]) merged = some (.arr items') ∧
      kept.Sublist items' ∧
      List.Forall₂ (TypeFilled (valueAt (place ++ [interfaceTypeKey]) block))
        (keptEntries (valueAt (place ++ ["interfaces"]) block) items) kept

structure AddsOnly (bag block merged : Json) : Prop where
  values : ∀ place value, valueAt place merged = some value → IsLeaf value →
    (∀ before items, Ordinary before → place = before ++ ["interfaces"] → value ≠ .arr items) →
    valueAt place bag = some value ∨ valueAt place block = some value
  interfaces : ∀ place items' item', Ordinary place →
    valueAt (place ++ ["interfaces"]) merged = some (.arr items') → item' ∈ items' →
    ∃ item items, item ∈ items ∧ (valueAt (place ++ ["interfaces"]) bag = some (.arr items) ∨
        valueAt (place ++ ["interfaces"]) block = some (.arr items)) ∧
      TypeFilled (valueAt (place ++ [interfaceTypeKey]) block) item item'

def TypeSet (interfaceType : Option Json) (item item' : Json) : Prop :=
  match interfaceType with
  | none => item' = item
  | some type => ∃ fields, item = .obj fields ∧ item' = .obj (Dict.insertEntry "type" type fields)

/-- What the block has is there after the merge. The type of interfaces is the type of each of
them, and an interface is there in its last entry. -/
structure Present (block merged : Json) : Prop where
  values : ∀ place value, valueAt place block = some value → IsLeaf value →
    place ≠ [interfaceTypeKey] → place ≠ ["interfaces"] → valueAt place merged = some value
  interfaces : ∀ before item after name,
    valueAt ["interfaces"] block = some (.arr (before ++ item :: after)) →
    nameOf item = some name → (∀ later ∈ after, nameOf later ≠ some name) →
    ∃ items' item', valueAt ["interfaces"] merged = some (.arr items') ∧ item' ∈ items' ∧
      TypeSet (valueAt [interfaceTypeKey] block) item item'
  interfaceType : ∀ type items fields, valueAt [interfaceTypeKey] block = some type →
    valueAt ["interfaces"] merged = some (.arr items) → .obj fields ∈ items →
    getKey fields "type" = type

def Plain (value : Json) : Prop :=
  ∀ place, (valueAt place value).isSome → ∀ key ∈ place, key ∉ specialKeys

end Statements

section Places

theorem Plain.lookup {fields : List (String × Json)} {key : String} {value : Json}
    (h : Plain (.obj fields)) (hkey : fields.lookup key = some value) :
    key ∉ specialKeys ∧ Plain value := by
  have hplace : ∀ place, (valueAt place value).isSome →
      ∀ key' ∈ key :: place, key' ∉ specialKeys := by
    intro place hplace
    apply h
    rw [valueAt_obj, hkey]
    exact hplace
  constructor
  · exact hplace [] rfl key List.mem_cons_self
  · intro place hsome key' hmem
    exact hplace place hsome key' (List.mem_cons_of_mem _ hmem)

theorem Ordinary.cons {key : String} {place : List String} (h : Ordinary (key :: place)) :
    (key ≠ "interfaces" ∧ key ≠ "custom_fields") ∧ Ordinary place :=
  ⟨h key List.mem_cons_self, fun key' hmem => h key' (List.mem_cons_of_mem _ hmem)⟩

theorem key_cases (key : String) : key = interfaceTypeKey ∨ key = "interfaces" ∨
    key = "custom_fields" ∨ key ∉ specialKeys := by
  simp only [specialKeys, List.mem_cons, List.not_mem_nil, or_false]
  tauto

theorem combine_cases {current default : Option Json} {value : Json}
    (h : combine overwrite current default = some value) :
    current = some value ∨ default = some value ∨
      ∃ existing defaults, current = some (.obj existing) ∧ default = some (.obj defaults) ∧
        value = .obj (mergeNautobotDefaults overwrite (.obj existing) defaults) := by
  unfold combine at h
  split at h
  · exact .inl h
  · cases h
    exact .inr (.inr ⟨_, _, rfl, rfl, rfl⟩)
  · split at h
    · exact .inr (.inl h)
    · exact .inl h

theorem combine_keeps {current : Json} {default : Option Json} (h : isEmpty current = false) :
    combine false (some current) default = some current ∨
      ∃ existing defaults, current = .obj existing ∧ default = some (.obj defaults) ∧
        combine false (some current) default =
          some (.obj (mergeNautobotDefaults false (.obj existing) defaults)) := by
  unfold combine
  split
  · exact .inl rfl
  · rename_i existing defaults hcurrent
    cases hcurrent
    exact .inr ⟨existing, defaults, rfl, rfl, rfl⟩
  · left
    simp [h]

theorem combine_overwrites {current : Option Json} {default : Json} :
    combine true current (some default) = some default ∨
      ∃ existing defaults, current = some (.obj existing) ∧ default = .obj defaults ∧
        combine true current (some default) =
          some (.obj (mergeNautobotDefaults true (.obj existing) defaults)) := by
  unfold combine
  split
  · rename_i hnone
    cases hnone
  · rename_i existing defaults hdefault
    cases hdefault
    exact .inr ⟨existing, defaults, rfl, rfl, rfl⟩
  · rename_i hdefault
    cases hdefault
    exact .inl (if_pos (.inl rfl))

theorem fieldsOf_nodup {value : Json} (h : KeysDistinct value) :
    ((fieldsOf value).map Prod.fst).Nodup := by
  cases value with
  | obj fields => exact h.nodup
  | _ => exact List.nodup_nil

theorem lookup_mergeCustomFields {current fields : Json} (h : KeysDistinct fields)
    (name : String) :
    (mergeCustomFields overwrite current fields).lookup name =
      (((fieldsOf fields).lookup name).bind
        (copyDefault overwrite (getKey (fieldsOf current) name))).or
        ((fieldsOf current).lookup name) := by
  rw [mergeCustomFields_eq, lookup_fill (fieldsOf_nodup h)]

theorem lookup_fieldsOf_getKey {key name : String} {value : Json}
    (h : (fieldsOf (getKey existing key)).lookup name = some value) :
    ∃ fields, existing.lookup key = some (.obj fields) ∧ fields.lookup name = some value := by
  cases hlookup : existing.lookup key with
  | none =>
    rw [getKey, hlookup] at h
    cases h
  | some current =>
    rw [getKey, hlookup] at h
    cases current with
    | obj fields => exact ⟨fields, rfl, h⟩
    | _ => cases h

end Places

section Kept

theorem mergeCustomFields_keeps {current fields : Json} (h : KeysDistinct fields) {name : String}
    {value : Json} (hcurrent : (fieldsOf current).lookup name = some value)
    (hvalue : isEmpty value = false) :
    (mergeCustomFields false current fields).lookup name = some value := by
  have hcopy : ∀ default, copyDefault false value default = none := by
    intro default
    simp [copyDefault, hvalue]
  rw [lookup_mergeCustomFields h, hcurrent, getKey, hcurrent, Option.getD_some]
  cases (fieldsOf fields).lookup name with
  | none => rfl
  | some default => rw [Option.bind_some, hcopy]; rfl

theorem keeps_values {place : List String} (hplace : Keyed place) :
    ∀ {existing defaults : List (String × Json)} {value : Json}, KeysDistinct (.obj defaults) →
      valueAt place (.obj existing) = some value → IsLeaf value → isEmpty value = false →
      valueAt place (.obj (mergeNautobotDefaults false (.obj existing) defaults)) = some value := by
  induction hplace with
  | nil =>
    intro existing defaults value _ hvalue hleaf
    cases hvalue
    exact (hleaf existing rfl).elim
  | customField name rest =>
    intro existing defaults value hdistinct hvalue hleaf hnonempty
    rw [valueAt_obj, Option.bind_eq_some_iff] at hvalue
    obtain ⟨current, hcurrent, hvalue⟩ := hvalue
    obtain ⟨fields, inner, rfl, hinner, hrest⟩ := exists_of_valueAt hvalue
    rw [valueAt_obj, lookup_customFields hdistinct.nodup]
    cases hdefault : defaults.lookup "custom_fields" with
    | none =>
      simp only [hcurrent, Option.bind_some]
      exact hvalue
    | some default =>
      have hcustom : (fieldsOf (getKey existing "custom_fields")).lookup name = some inner := by
        simpa [getKey, hcurrent, fieldsOf] using hinner
      have hkept := mergeCustomFields_keeps (hdistinct.lookup hdefault) hcustom
        (isEmpty_of_valueAt hrest hnonempty)
      simp only [Option.bind_some, valueAt_obj, hkept]
      exact hrest
  | @cons key place hinterfaces hcustom _ ih =>
    intro existing defaults value hdistinct hvalue hleaf hnonempty
    rw [valueAt_obj, Option.bind_eq_some_iff] at hvalue
    obtain ⟨current, hcurrent, hvalue⟩ := hvalue
    rw [valueAt_obj]
    rcases key_cases key with rfl | hkey | hkey | hkey
    · rw [lookup_interfaceType hdistinct.nodup, hcurrent]
      exact hvalue
    · exact (hinterfaces hkey).elim
    · exact (hcustom hkey).elim
    · rw [lookup_ordinary hdistinct.nodup hkey, hcurrent]
      rcases combine_keeps (isEmpty_of_valueAt hvalue hnonempty) with
        hsame | ⟨existing', defaults', rfl, hdefault, hmerged⟩
      · rw [hsame]
        exact hvalue
      · rw [hmerged]
        exact ih (hdistinct.lookup hdefault) hvalue hleaf hnonempty

theorem forall₂_typeFilled_refl (interfaceType : Option Json) (items : List Json) :
    List.Forall₂ (TypeFilled interfaceType) items items := by
  induction items with
  | nil => exact .nil
  | cons item items ih => exact .cons (.inl rfl) ih

theorem firstNamed_sublist (seen : List String) (items : List Json) :
    (firstNamed seen items).Sublist items := by
  induction items generalizing seen with
  | nil => exact .slnil
  | cons item items ih =>
    rw [firstNamed]
    split
    · exact (ih _).cons _
    · split
      · exact (ih _).cons _
      · exact (ih _).cons_cons _

theorem typed_filled (interfaceType : Option Json) (items : List Json) :
    ∃ items', typed false interfaceType (.arr items) = .arr items' ∧
      List.Forall₂ (TypeFilled interfaceType) items items' := by
  cases interfaceType with
  | none => exact ⟨items, rfl, forall₂_typeFilled_refl none items⟩
  | some interfaceType =>
    refine ⟨applyDefaultInterfaceType false items interfaceType, rfl, ?_⟩
    rw [applyDefaultInterfaceType]
    split
    · exact forall₂_typeFilled_refl _ items
    · induction items with
      | nil => exact .nil
      | cons item items ih => exact .cons (setType_filled interfaceType item) ih

theorem sublist_forall₂ {R : Json → Json → Prop} {kept items items' : List Json}
    (hsub : kept.Sublist items) (h : List.Forall₂ R items items') :
    ∃ kept', kept'.Sublist items' ∧ List.Forall₂ R kept kept' := by
  induction hsub generalizing items' with
  | slnil => cases h; exact ⟨[], .slnil, .nil⟩
  | cons item _ ih =>
    cases h with
    | cons _ h =>
      obtain ⟨kept', hsub, hkept⟩ := ih h
      exact ⟨kept', hsub.cons _, hkept⟩
  | cons_cons item _ ih =>
    cases h with
    | cons hitem h =>
      obtain ⟨kept', hsub, hkept⟩ := ih h
      exact ⟨_ :: kept', hsub.cons_cons _, .cons hitem hkept⟩

theorem exists_kept (interfaceType given : Option Json) (items : List Json) :
    ∃ kept, kept.Sublist items ∧ List.Forall₂ (TypeFilled interfaceType)
      (keptEntries given items) kept := by
  cases given with
  | none => exact ⟨items, .refl _, forall₂_typeFilled_refl _ _⟩
  | some given =>
    exact ⟨firstNamed [] items, firstNamed_sublist [] items, forall₂_typeFilled_refl _ _⟩

theorem firstNamed_sublist_merge (items : List Json) (defaults : Json) :
    (firstNamed [] items).Sublist (mergeInterfaces false (.arr items) defaults) := by
  cases defaults with
  | arr defaults =>
    rw [mergeInterfaces_fills, itemsOf, firstNamed_append]
    exact List.sublist_append_left _ _
  | _ => exact firstNamed_sublist [] items

theorem keeps_interfaces {place : List String} (hplace : Ordinary place) {items : List Json}
    (hdistinct : KeysDistinct (.obj defaults))
    (hitems : valueAt (place ++ ["interfaces"]) (.obj existing) = some (.arr items)) :
    ∃ items' kept, valueAt (place ++ ["interfaces"])
        (.obj (mergeNautobotDefaults false (.obj existing) defaults)) = some (.arr items') ∧
      kept.Sublist items' ∧
      List.Forall₂ (TypeFilled (valueAt (place ++ [interfaceTypeKey]) (.obj defaults)))
        (keptEntries (valueAt (place ++ ["interfaces"]) (.obj defaults)) items) kept := by
  induction place generalizing existing defaults with
  | nil =>
    rw [List.nil_append, valueAt_key] at hitems
    simp only [List.nil_append, valueAt_key, lookup_interfaces hdistinct.nodup, untypedInterfaces]
    cases hdefault : defaults.lookup "interfaces" with
    | none =>
      obtain ⟨items', htyped, hfilled⟩ := typed_filled (defaults.lookup interfaceTypeKey) items
      exact ⟨items', items', by simp [hitems, htyped], .refl _, hfilled⟩
    | some default =>
      have hsub := firstNamed_sublist_merge items default
      obtain ⟨items', htyped, hfilled⟩ := typed_filled (defaults.lookup interfaceTypeKey)
        (mergeInterfaces false (.arr items) default)
      obtain ⟨kept, hkept, hall⟩ := sublist_forall₂ hsub hfilled
      exact ⟨items', kept, by simp [getKey, hitems, htyped], hkept, hall⟩
  | cons key place ih =>
    obtain ⟨⟨hinterfaces, hcustom⟩, hplace⟩ := hplace.cons
    rw [List.cons_append, valueAt_obj, Option.bind_eq_some_iff] at hitems
    obtain ⟨current, hcurrent, hitems⟩ := hitems
    simp only [List.cons_append, valueAt_obj]
    have hunchanged : (mergeNautobotDefaults false (.obj existing) defaults).lookup key =
        some current → ∃ items' kept,
          ((mergeNautobotDefaults false (.obj existing) defaults).lookup key).bind
            (valueAt (place ++ ["interfaces"])) = some (.arr items') ∧ kept.Sublist items' ∧
          List.Forall₂ (TypeFilled ((defaults.lookup key).bind
            (valueAt (place ++ [interfaceTypeKey]))))
            (keptEntries ((defaults.lookup key).bind (valueAt (place ++ ["interfaces"]))) items)
            kept := by
      intro hsame
      obtain ⟨kept, hsub, hkept⟩ := exists_kept _ _ items
      exact ⟨items, kept, by rw [hsame]; exact hitems, hsub, hkept⟩
    rcases key_cases key with rfl | hkey | hkey | hkey
    · exact hunchanged (by rw [lookup_interfaceType hdistinct.nodup, hcurrent])
    · exact (hinterfaces hkey).elim
    · exact (hcustom hkey).elim
    · have hlookup := @lookup_ordinary false existing defaults hdistinct.nodup key hkey
      rw [hcurrent] at hlookup
      rcases combine_keeps (isEmpty_of_below (by simp) hitems) with
        hsame | ⟨existing', defaults', rfl, hdefault, hmerged⟩
      · exact hunchanged (hlookup.trans hsame)
      · rw [hlookup, hmerged, hdefault]
        exact ih hplace (hdistinct.lookup hdefault) hitems

end Kept

section Added

theorem mergeCustomFields_adds {current fields value : Json} {name : String}
    (h : KeysDistinct fields)
    (hvalue : (mergeCustomFields overwrite current fields).lookup name = some value) :
    (fieldsOf current).lookup name = some value ∨ (fieldsOf fields).lookup name = some value := by
  rw [lookup_mergeCustomFields h, Option.or_eq_some_iff, Option.bind_eq_some_iff] at hvalue
  rcases hvalue with ⟨default, hdefault, hcopy⟩ | ⟨-, hcurrent⟩
  · rw [copyDefault] at hcopy
    split at hcopy
    · cases hcopy
      exact .inr hdefault
    · cases hcopy
  · exact .inl hcurrent

theorem typed_eq {interfaceType : Option Json} {value merged : Json}
    (h : typed overwrite interfaceType value = merged) :
    value = merged ∨ ∃ items type, interfaceType = some type ∧ value = .arr items ∧
      merged = .arr (applyDefaultInterfaceType overwrite items type) := by
  unfold typed at h
  split at h
  · exact .inr ⟨_, _, rfl, rfl, h.symm⟩
  · exact .inl h

theorem lookup_interfaces_other (hnodup : (defaults.map Prod.fst).Nodup) {value : Json}
    (h : (mergeNautobotDefaults overwrite (.obj existing) defaults).lookup "interfaces" =
      some value) (hvalue : ∀ items, value ≠ .arr items) :
    existing.lookup "interfaces" = some value := by
  rw [lookup_interfaces hnodup, Option.map_eq_some_iff] at h
  obtain ⟨untyped, huntyped, htyped⟩ := h
  rcases typed_eq htyped with rfl | ⟨items, type, -, -, rfl⟩
  · rw [untypedInterfaces] at huntyped
    split at huntyped
    · exact huntyped
    · cases huntyped
      exact (hvalue _ rfl).elim
  · exact (hvalue _ rfl).elim

theorem adds_values {place : List String} {value : Json}
    (hdistinct : KeysDistinct (.obj defaults))
    (hvalue : valueAt place (.obj (mergeNautobotDefaults overwrite (.obj existing) defaults)) =
      some value) (hleaf : IsLeaf value)
    (hother : ∀ before items, Ordinary before → place = before ++ ["interfaces"] →
      value ≠ .arr items) :
    valueAt place (.obj existing) = some value ∨ valueAt place (.obj defaults) = some value := by
  induction place generalizing existing defaults with
  | nil =>
    cases hvalue
    exact (hleaf _ rfl).elim
  | cons key place ih =>
    rw [valueAt_obj, Option.bind_eq_some_iff] at hvalue
    obtain ⟨merged, hmerged, hvalue⟩ := hvalue
    have hleft : existing.lookup key = some merged →
        valueAt (key :: place) (.obj existing) = some value := by
      intro h
      rw [valueAt_obj, h]
      exact hvalue
    rcases key_cases key with rfl | rfl | rfl | hkey
    · rw [lookup_interfaceType hdistinct.nodup] at hmerged
      exact .inl (hleft hmerged)
    · refine .inl (hleft (lookup_interfaces_other hdistinct.nodup hmerged ?_))
      rintro items rfl
      cases place with
      | nil =>
        cases hvalue
        exact hother [] items (fun _ h => nomatch h) rfl rfl
      | cons key place => cases hvalue
    · rw [lookup_customFields hdistinct.nodup] at hmerged
      cases hdefault : defaults.lookup "custom_fields" with
      | none =>
        rw [hdefault] at hmerged
        exact .inl (hleft hmerged)
      | some fields =>
        rw [hdefault] at hmerged
        cases hmerged
        cases place with
        | nil =>
          cases hvalue
          exact (hleaf _ rfl).elim
        | cons name place =>
          rw [valueAt_obj, Option.bind_eq_some_iff] at hvalue
          obtain ⟨inner, hinner, hvalue⟩ := hvalue
          rcases mergeCustomFields_adds (hdistinct.lookup hdefault) hinner with hin | hin
          · obtain ⟨current, hcurrent, hlookup⟩ := lookup_fieldsOf_getKey hin
            left
            simp only [valueAt_obj, hcurrent, Option.bind_some, hlookup, hvalue]
          · right
            cases fields with
            | obj fields =>
              rw [fieldsOf] at hin
              simp only [valueAt_obj, hdefault, Option.bind_some, hin, hvalue]
            | _ => cases hin
    · rw [lookup_ordinary hdistinct.nodup hkey] at hmerged
      rcases combine_cases hmerged with h | h | ⟨existing', defaults', h, hdefault, rfl⟩
      · exact .inl (hleft h)
      · right
        rw [valueAt_obj, h]
        exact hvalue
      · rw [valueAt_obj, valueAt_obj, h, hdefault]
        apply ih (hdistinct.lookup hdefault) hvalue
        intro before items hbefore hplace
        have hordinary : Ordinary (key :: before) := by
          simp only [specialKeys, List.mem_cons, List.not_mem_nil, or_false, not_or] at hkey
          intro key' hmem
          rcases List.mem_cons.mp hmem with rfl | hmem
          · exact ⟨hkey.1, hkey.2.1⟩
          · exact hbefore key' hmem
        exact hother (key :: before) items hordinary (by rw [hplace]; rfl)

theorem mem_mergeInterfaces {current interfaces item : Json}
    (h : item ∈ mergeInterfaces false current interfaces) :
    item ∈ itemsOf current ∨ item ∈ itemsOf interfaces := by
  cases interfaces with
  | arr defaults =>
    rw [mergeInterfaces_fills] at h
    exact List.mem_append.mp (mem_of_mem_firstNamed h)
  | _ => exact .inl h

theorem mem_itemsOf {value item : Json} (h : item ∈ itemsOf value) :
    ∃ items, value = .arr items ∧ item ∈ items := by
  cases value with
  | arr items => exact ⟨items, rfl, h⟩
  | _ => cases h

theorem mem_getKey {key : String} {item : Json} (h : item ∈ itemsOf (getKey existing key)) :
    ∃ items, existing.lookup key = some (.arr items) ∧ item ∈ items := by
  obtain ⟨items, hitems, hmem⟩ := mem_itemsOf h
  rw [getKey] at hitems
  cases hlookup : existing.lookup key with
  | none =>
    rw [hlookup] at hitems
    cases hitems
  | some value =>
    rw [hlookup] at hitems
    cases hitems
    exact ⟨items, rfl, hmem⟩

theorem typeFilled_of_mem {interfaceType item' : Json} {items : List Json}
    (h : item' ∈ applyDefaultInterfaceType false items interfaceType) :
    ∃ item ∈ items, TypeFilled (some interfaceType) item item' := by
  rw [applyDefaultInterfaceType] at h
  split at h
  · exact ⟨item', h, .inl rfl⟩
  · obtain ⟨item, hitem, rfl⟩ := List.mem_map.mp h
    exact ⟨item, hitem, setType_filled interfaceType item⟩

theorem adds_interfaces {place : List String} (hplace : Ordinary place) {items' : List Json}
    {item' : Json} (hdistinct : KeysDistinct (.obj defaults))
    (hitems : valueAt (place ++ ["interfaces"])
      (.obj (mergeNautobotDefaults false (.obj existing) defaults)) = some (.arr items'))
    (hitem : item' ∈ items') :
    ∃ item items, item ∈ items ∧
      (valueAt (place ++ ["interfaces"]) (.obj existing) = some (.arr items) ∨
        valueAt (place ++ ["interfaces"]) (.obj defaults) = some (.arr items)) ∧
      TypeFilled (valueAt (place ++ [interfaceTypeKey]) (.obj defaults)) item item' := by
  induction place generalizing existing defaults with
  | nil =>
    simp only [List.nil_append, valueAt_key] at hitems ⊢
    rw [lookup_interfaces hdistinct.nodup, Option.map_eq_some_iff] at hitems
    obtain ⟨untyped, huntyped, htyped⟩ := hitems
    -- where an entry of the list before the types comes from
    have hfrom : ∀ items item, untyped = .arr items → item ∈ items →
        ∃ items, item ∈ items ∧ (existing.lookup "interfaces" = some (.arr items) ∨
          defaults.lookup "interfaces" = some (.arr items)) := by
      rintro items item rfl hmem
      rw [untypedInterfaces] at huntyped
      split at huntyped
      · exact ⟨items, hmem, .inl huntyped⟩
      · rename_i interfaces hdefault
        cases huntyped
        rcases mem_mergeInterfaces hmem with h | h
        · obtain ⟨items, hlookup, hmem⟩ := mem_getKey h
          exact ⟨items, hmem, .inl hlookup⟩
        · obtain ⟨items, rfl, hgiven⟩ := mem_itemsOf h
          exact ⟨items, hgiven, .inr hdefault⟩
    rcases typed_eq htyped with h | ⟨items, type, htype, h, htypes⟩
    · obtain ⟨items, hmem, horigin⟩ := hfrom items' item' h hitem
      exact ⟨item', items, hmem, horigin, .inl rfl⟩
    · cases htypes
      obtain ⟨item, hmem, hfilled⟩ := typeFilled_of_mem hitem
      obtain ⟨items, hmem, horigin⟩ := hfrom items item h hmem
      rw [htype]
      exact ⟨item, items, hmem, horigin, hfilled⟩
  | cons key place ih =>
    obtain ⟨⟨hinterfaces, hcustom⟩, hplace⟩ := hplace.cons
    simp only [List.cons_append, valueAt_obj] at hitems ⊢
    obtain ⟨merged, hmerged, hbelow⟩ := Option.bind_eq_some_iff.mp hitems
    rcases key_cases key with rfl | hkey | hkey | hkey
    · rw [lookup_interfaceType hdistinct.nodup] at hmerged
      rw [hmerged]
      exact ⟨item', items', hitem, .inl hbelow, .inl rfl⟩
    · exact (hinterfaces hkey).elim
    · exact (hcustom hkey).elim
    · rw [lookup_ordinary hdistinct.nodup hkey] at hmerged
      rcases combine_cases hmerged with h | h | ⟨existing', defaults', h, hdefault, rfl⟩
      · rw [h]
        exact ⟨item', items', hitem, .inl hbelow, .inl rfl⟩
      · rw [h]
        exact ⟨item', items', hitem, .inr hbelow, .inl rfl⟩
      · rw [h, hdefault]
        exact ih hplace (hdistinct.lookup hdefault) hbelow

end Added

end Manus.Defaults
