import Manus.Attributes.NothingLost

/-! # Filling in twice, and normalised blocks

Filling in a second time changes nothing, provided that no dictionary that may be copied
into a bag as it is has interfaces or custom fields of its own. A normalised block is such
a block when its references are.
-/

namespace Manus.Defaults

variable {existing defaults : List (String × Json)}

section Again

theorem mergeKey_ordinary {overwrite : Bool} {key : String} (h : key ∉ specialKeys)
    (current value : Json) (other : Option Json) :
    mergeKey overwrite key current value other = other := by
  simp only [specialKeys, List.mem_cons, List.not_mem_nil, or_false, not_or] at h
  simp [mergeKey, h]

theorem lookup_of_mem (hnodup : (defaults.map Prod.fst).Nodup) {key : String} {value : Json}
    (h : (key, value) ∈ defaults) : defaults.lookup key = some value :=
  Dict.get?_eq_some_iff (d := ⟨defaults, hnodup⟩).mpr h

theorem sizeOf_lookup {fields : List (String × Json)} {key : String} {value : Json}
    (h : fields.lookup key = some value) : sizeOf value < sizeOf fields := by
  induction fields with
  | nil => cases h
  | cons field fields ih =>
    obtain ⟨key₀, value₀⟩ := field
    rw [Dict.lookup_pair_cons] at h
    simp only [List.cons.sizeOf_spec, Prod.mk.sizeOf_spec]
    split at h
    · cases h
      omega
    · have := ih h
      omega

/-- A dictionary without special keys is its own merge. -/
theorem merge_self {fields : List (String × Json)} (hdistinct : KeysDistinct (.obj fields))
    (hplain : Plain (.obj fields)) : mergeNautobotDefaults false (.obj fields) fields = fields := by
  have hloop : mergeKeys false fields fields = fields := by
    rw [mergeKeys_eq]
    apply fill_self
    rintro ⟨key, value⟩ hmem stored hstored
    have hlookup := lookup_of_mem hdistinct.nodup hmem
    obtain ⟨hkey, hvalue⟩ := hplain.lookup hlookup
    have hget : getKey fields key = value := by rw [getKey, hlookup]; rfl
    rw [mergeKey_ordinary hkey, hget] at hstored
    rw [hlookup]
    rcases leaf_or_obj value with hleaf | ⟨inner, rfl⟩
    · rw [mergeValue_copies (.inl hleaf), copyDefault] at hstored
      split at hstored
      · exact hstored
      · cases hstored
    · rw [mergeValue_obj, merge_self (hdistinct.lookup hlookup) hvalue] at hstored
      exact hstored
  have hnone : fields.lookup interfaceTypeKey = none := by
    cases h : fields.lookup interfaceTypeKey with
    | none => rfl
    | some value => exact ((hplain.lookup h).1 (by simp [specialKeys])).elim
  rw [mergeNautobotDefaults, fieldsOf, hloop, withInterfaceType, hnone]
termination_by sizeOf fields
decreasing_by
  have := sizeOf_lookup hlookup
  simp only [Json.obj.sizeOf_spec] at this
  omega

theorem exists_typed (interfaceType : Option Json) (items : List Json) :
    ∃ f : Json → Json, (∀ item, nameOf (f item) = nameOf item) ∧
      typed false interfaceType (.arr items) = .arr (items.map f) := by
  cases interfaceType with
  | none => exact ⟨id, fun _ => rfl, by simp [typed]⟩
  | some type =>
    by_cases h : textOf type = ""
    · exact ⟨id, fun _ => rfl, by simp [typed, applyDefaultInterfaceType, h]⟩
    · exact ⟨setType false (textOf type), nameOf_setType false _,
        by simp [typed, applyDefaultInterfaceType, h]⟩

theorem typed_again (interfaceType : Option Json) (value : Json) :
    typed false interfaceType (typed false interfaceType value) =
      typed false interfaceType value := by
  cases interfaceType with
  | none => rfl
  | some type =>
    cases value with
    | arr items =>
      simp only [typed, applyDefaultInterfaceType]
      by_cases h : textOf type = ""
      · simp [h]
      · simp only [if_neg h, List.map_map]
        congr 1
        apply List.map_congr_left
        intro item _
        exact setType_again h (stripText_textOf type) item
    | _ => rfl

theorem mergeInterfaces_other {current value : Json} (h : ∀ items, value ≠ .arr items) :
    mergeInterfaces false current value = itemsOf current := by
  cases value with
  | arr items => exact (h items rfl).elim
  | _ => rfl

theorem interfaces_again (hnodup : (defaults.map Prod.fst).Nodup) {value : Json}
    (hdefault : defaults.lookup "interfaces" = some value) :
    (mergeNautobotDefaults false (.obj existing) defaults).lookup "interfaces" =
      some (.arr (mergeInterfaces false
        (getKey (mergeNautobotDefaults false (.obj existing) defaults) "interfaces") value)) := by
  obtain ⟨f, hf, htyped⟩ := exists_typed (defaults.lookup interfaceTypeKey)
    (mergeInterfaces false (getKey existing "interfaces") value)
  have hlookup : (mergeNautobotDefaults false (.obj existing) defaults).lookup "interfaces" =
      some (.arr ((mergeInterfaces false (getKey existing "interfaces") value).map f)) := by
    rw [lookup_interfaces hnodup, untypedInterfaces, hdefault, Option.map_some, htyped]
  have hget : getKey (mergeNautobotDefaults false (.obj existing) defaults) "interfaces" =
      .arr ((mergeInterfaces false (getKey existing "interfaces") value).map f) := by
    rw [getKey, hlookup]
    rfl
  rw [hlookup, hget]
  by_cases hlist : ∃ items, value = .arr items
  · obtain ⟨items, rfl⟩ := hlist
    rw [mergeInterfaces_again hf]
  · have hother : ∀ items, value ≠ .arr items := fun items h => hlist ⟨items, h⟩
    rw [mergeInterfaces_other hother, mergeInterfaces_other hother]
    rfl

theorem customFields_again {current fields : Json} (h : KeysDistinct fields) :
    mergeCustomFields false (.obj (mergeCustomFields false current fields)) fields =
      mergeCustomFields false current fields := by
  rw [mergeCustomFields_eq (.obj _)]
  apply fill_self
  rintro ⟨name, value⟩ hmem stored hstored
  have hgiven := lookup_of_mem (fieldsOf_nodup h) hmem
  rw [copyDefault] at hstored
  split at hstored
  · rename_i hempty
    cases hstored
    have hlookup := @lookup_mergeCustomFields false current fields h name
    rw [hgiven, Option.bind_some] at hlookup
    simp only [Bool.false_eq_true, false_or, fieldsOf] at hempty
    rw [fieldsOf, hlookup]
    by_cases hcurrent : isEmpty (getKey (fieldsOf current) name) = true
    · simp [copyDefault, hcurrent]
    · rw [getKey, hlookup] at hempty
      simp only [copyDefault, hcurrent, Bool.false_eq_true, or_self, if_false, Option.none_or]
        at hempty
      exact (hcurrent hempty).elim
  · cases hstored

theorem combine_again {current : Option Json} {value : Json}
    (hself : ∀ fields, value = .obj fields →
      mergeNautobotDefaults false (.obj fields) fields = fields)
    (hmerged : ∀ inner fields, current = some (.obj inner) → value = .obj fields →
      mergeNautobotDefaults false (.obj (mergeNautobotDefaults false (.obj inner) fields)) fields =
        mergeNautobotDefaults false (.obj inner) fields) :
    combine false (combine false current (some value)) (some value) =
      combine false current (some value) := by
  have hcopied : combine false (some value) (some value) = some value := by
    rcases leaf_or_obj value with hleaf | ⟨fields, rfl⟩
    · rw [combine_copies (.inr hleaf)]
      simp
    · rw [combine, hself fields rfl]
  by_cases hboth : ∃ inner fields, current = some (.obj inner) ∧ value = .obj fields
  · obtain ⟨inner, fields, rfl, rfl⟩ := hboth
    rw [combine, combine, hmerged inner fields rfl rfl]
  · have hleaf : IsLeaf (current.getD .null) ∨ IsLeaf value := by
      rcases leaf_or_obj value with hleaf | ⟨fields, hvalue⟩
      · exact .inr hleaf
      · left
        intro inner hinner
        cases current with
        | none => cases hinner
        | some current => exact hboth ⟨inner, fields, congrArg some hinner, hvalue⟩
    rw [combine_copies hleaf]
    by_cases hempty : isEmpty (current.getD .null) = true
    · rw [if_pos (.inr hempty), hcopied]
    · rw [if_neg (by simp [hempty]), combine_copies hleaf, if_neg (by simp [hempty])]

theorem ordinary_again {key : String} (hkey : key ∉ specialKeys)
    (hnodup : (defaults.map Prod.fst).Nodup) {value stored : Json}
    (hdefault : defaults.lookup key = some value)
    (hagain : combine false (combine false (existing.lookup key) (some value)) (some value) =
      combine false (existing.lookup key) (some value))
    (hstored : mergeValue false
      (getKey (mergeNautobotDefaults false (.obj existing) defaults) key) value = some stored) :
    (mergeNautobotDefaults false (.obj existing) defaults).lookup key = some stored := by
  have hlookup := @lookup_ordinary false existing defaults hnodup key hkey
  rw [hdefault] at hlookup
  rw [getKey, hlookup] at hstored
  rw [hlookup, ← hagain, ← mergeValue_or, hstored]
  rfl

def CopiesPlain (defaults : List (String × Json)) : Prop :=
  ∀ key value, key ∉ specialKeys → defaults.lookup key = some value → Plain value

theorem Plain.copiesPlain {fields : List (String × Json)} (h : Plain (.obj fields)) :
    CopiesPlain fields := fun _ _ _ hlookup => (h.lookup hlookup).2

/-- The second time every default is there. -/
theorem merge_again {existing defaults : List (String × Json)}
    (hdistinct : KeysDistinct (.obj defaults)) (hplain : CopiesPlain defaults) :
    mergeNautobotDefaults false (.obj (mergeNautobotDefaults false (.obj existing) defaults))
      defaults = mergeNautobotDefaults false (.obj existing) defaults := by
  have hloop : mergeKeys false (mergeNautobotDefaults false (.obj existing) defaults) defaults =
      mergeNautobotDefaults false (.obj existing) defaults := by
    rw [mergeKeys_eq]
    apply fill_self
    rintro ⟨key, value⟩ hmem stored hstored
    have hdefault := lookup_of_mem hdistinct.nodup hmem
    rcases key_cases key with rfl | rfl | rfl | hkey
    · simp [mergeKey] at hstored
    · rw [interfaces_again hdistinct.nodup hdefault]
      simpa [mergeKey, interfaceTypeKey] using hstored
    · have hlookup := @lookup_customFields false existing defaults hdistinct.nodup
      rw [hdefault] at hlookup
      simp only at hlookup
      have hget : getKey (mergeNautobotDefaults false (.obj existing) defaults) "custom_fields" =
          .obj (mergeCustomFields false (getKey existing "custom_fields") value) := by
        rw [getKey, hlookup]
        rfl
      rw [hlookup, ← customFields_again (hdistinct.lookup hdefault), ← hget]
      simpa [mergeKey, interfaceTypeKey] using hstored
    · rw [mergeKey_ordinary hkey] at hstored
      have hvalue := hplain key value hkey hdefault
      apply ordinary_again hkey hdistinct.nodup hdefault _ hstored
      apply combine_again
      · rintro fields rfl
        exact merge_self (hdistinct.lookup hdefault) hvalue
      · rintro inner fields _ rfl
        exact merge_again (hdistinct.lookup hdefault) hvalue.copiesPlain
  rw [mergeNautobotDefaults, fieldsOf, hloop, withInterfaceType]
  split
  · rename_i type items htype hitems
    -- the types are set already
    rw [lookup_interfaces hdistinct.nodup, Option.map_eq_some_iff] at hitems
    obtain ⟨untyped, huntyped, htyped⟩ := hitems
    have hsame := typed_again (defaults.lookup interfaceTypeKey) untyped
    rw [htyped, htype] at hsame
    have hset : Json.arr (applyDefaultInterfaceType false items type) = .arr items := hsame
    dsimp only
    rw [hset]
    apply Dict.insertEntry_self
    rw [lookup_interfaces hdistinct.nodup, huntyped, Option.map_some, htyped]
  · rfl
termination_by sizeOf defaults
decreasing_by
  have := sizeOf_lookup hdefault
  simp only [Json.obj.sizeOf_spec] at this
  omega

end Again

section Overwritten

theorem overwrites_values {place : List String} {value : Json}
    (hdistinct : KeysDistinct (.obj defaults))
    (hplace : ∀ key ∈ place, key ∉ specialKeys)
    (hvalue : valueAt place (.obj defaults) = some value) (hleaf : IsLeaf value) :
    valueAt place (.obj (mergeNautobotDefaults true (.obj existing) defaults)) = some value := by
  induction place generalizing existing defaults with
  | nil =>
    cases hvalue
    exact (hleaf defaults rfl).elim
  | cons key place ih =>
    rw [valueAt_obj, Option.bind_eq_some_iff] at hvalue
    obtain ⟨default, hdefault, hvalue⟩ := hvalue
    rw [valueAt_obj, lookup_ordinary hdistinct.nodup (hplace key List.mem_cons_self), hdefault]
    rcases @combine_overwrites (existing.lookup key) default with
      hcopied | ⟨existing', defaults', -, rfl, hmerged⟩
    · rw [hcopied]
      exact hvalue
    · rw [hmerged]
      exact ih (hdistinct.lookup hdefault)
        (fun key' hmem => hplace key' (List.mem_cons_of_mem _ hmem)) hvalue

theorem mergeCustomFields_overwrites {current fields : Json} (h : KeysDistinct fields)
    {name : String} {value : Json} (hvalue : (fieldsOf fields).lookup name = some value) :
    (mergeCustomFields true current fields).lookup name = some value := by
  rw [lookup_mergeCustomFields h, hvalue]
  rfl

theorem get?_foldl_addInterface {before after : List Json} {item : Json} {name : String}
    (hname : nameOf item = some name) (hafter : ∀ later ∈ after, nameOf later ≠ some name)
    (byName : Dict Json) :
    ((before ++ item :: after).foldl (addInterface true) byName).get? name = some item := by
  rw [List.foldl_append, List.foldl_cons]
  generalize before.foldl (addInterface true) byName = byName
  have hadded : (addInterface true byName item).get? name = some item := by
    rw [addInterface_eq, hname]
    simp
  generalize addInterface true byName item = byName at hadded
  induction after generalizing byName with
  | nil => exact hadded
  | cons later after ih =>
    rw [List.foldl_cons]
    apply ih fun later hlater => hafter later (List.mem_cons_of_mem _ hlater)
    have hother := hafter later List.mem_cons_self
    rw [addInterface_eq]
    cases hlater : nameOf later with
    | none => exact hadded
    | some name' =>
      have hne : name ≠ name' := fun he => hother (by rw [hlater, he])
      simp [hne, hadded]

theorem mem_mergeInterfaces_last {current item : Json} {before after : List Json} {name : String}
    (hname : nameOf item = some name) (hafter : ∀ later ∈ after, nameOf later ≠ some name) :
    item ∈ mergeInterfaces true current (.arr (before ++ item :: after)) :=
  Dict.mem_values_iff.mpr ⟨name, get?_foldl_addInterface hname hafter _⟩

end Overwritten

section Blocks

theorem eq_of_orNone {value value' : Json} (h : orNone value = some value') : value = value' := by
  rw [orNone] at h
  split at h
  · exact Option.some.inj h
  · cases h

theorem places_of_leaf {value : Json} (h : IsLeaf value) {place : List String} {found : Json}
    (hplace : valueAt place value = some found) : place = [] := by
  cases place with
  | nil => rfl
  | cons key place =>
    obtain ⟨fields, inner, rfl, -, -⟩ := exists_of_valueAt hplace
    exact (h fields rfl).elim

theorem keysDistinct_of_leaf {value : Json} (h : IsLeaf value) : KeysDistinct value := by
  intro place fields hplace
  obtain rfl := places_of_leaf h hplace
  cases hplace
  exact (h fields rfl).elim

theorem plain_of_leaf {value : Json} (h : IsLeaf value) : Plain value := by
  intro place hsome key hmem
  obtain ⟨found, hfound⟩ := Option.isSome_iff_exists.mp hsome
  obtain rfl := places_of_leaf h hfound
  cases hmem

theorem keysDistinct_obj {fields : List (String × Json)} (hnodup : (fields.map Prod.fst).Nodup)
    (h : ∀ field ∈ fields, KeysDistinct field.2) : KeysDistinct (.obj fields) := by
  intro place inner hplace
  cases place with
  | nil =>
    cases hplace
    exact hnodup
  | cons key place =>
    rw [valueAt_obj, Option.bind_eq_some_iff] at hplace
    obtain ⟨value, hvalue, hplace⟩ := hplace
    have hmem : (key, value) ∈ fields := Dict.get?_eq_some_iff (d := ⟨fields, hnodup⟩).mp hvalue
    exact h (key, value) hmem place inner hplace

theorem plain_obj {fields : List (String × Json)}
    (h : ∀ field ∈ fields, field.1 ∉ specialKeys ∧ Plain field.2) : Plain (.obj fields) := by
  intro place hsome key hmem
  cases place with
  | nil => cases hmem
  | cons key₀ place =>
    obtain ⟨found, hfound⟩ := Option.isSome_iff_exists.mp hsome
    obtain ⟨fields', inner, hfields, hinner, hfound⟩ := exists_of_valueAt hfound
    cases hfields
    obtain ⟨l₁, l₂, hl, -⟩ := List.lookup_eq_some_iff.mp hinner
    obtain ⟨hkey, hplain⟩ := h (key₀, inner) (by rw [hl]; simp)
    rcases List.mem_cons.mp hmem with rfl | hmem
    · exact hkey
    · exact hplain place (Option.isSome_iff_exists.mpr ⟨found, hfound⟩) key hmem

theorem readers_nodup : (blockReaders.map Prod.fst).Nodup := by decide

theorem block_nodup (raw : Json) : ((normalizeDefaultsBlock raw).map Prod.fst).Nodup := by
  have hsub : ∀ readers : List (String × (Json → Option Json)), ((readers.filterMap fun reader =>
      (raw.get? reader.1).bind fun value => (reader.2 value).map fun value =>
        (reader.1, value)).map Prod.fst).Sublist (readers.map Prod.fst) := by
    intro readers
    induction readers with
    | nil => exact .slnil
    | cons reader readers ih =>
      rw [List.filterMap_cons]
      split
      · exact ih.cons _
      · rename_i field hfield
        obtain ⟨value, -, hvalue⟩ := Option.bind_eq_some_iff.mp hfield
        obtain ⟨value', -, rfl⟩ := Option.map_eq_some_iff.mp hvalue
        exact ih.cons_cons _
  exact readers_nodup.sublist (hsub blockReaders)

inductive ReadBy : String → (Json → Option Json) → Prop
  | reference {key : String} (h : key ∈ namedReferenceKeys) : ReadBy key namedReferenceDefault
  | tags : ReadBy "tags" tagsDefault
  | deviceType : ReadBy "device_type" deviceTypeDefault
  | scalar {key : String} (h : key ∈ scalarKeys) : ReadBy key scalarDefault
  | customFields : ReadBy "custom_fields" customFieldsDefault
  | interfaces : ReadBy "interfaces" interfacesDefault

theorem readBy_of_mem {key : String} {read : Json → Option Json}
    (h : (key, read) ∈ blockReaders) : ReadBy key read := by
  simp only [blockReaders, List.mem_append, List.mem_map, List.mem_cons, List.not_mem_nil,
    or_false, Prod.mk.injEq] at h
  rcases h with ((⟨_, hkey, rfl, rfl⟩ | (⟨rfl, rfl⟩ | ⟨rfl, rfl⟩)) | ⟨_, hkey, rfl, rfl⟩) |
    (⟨rfl, rfl⟩ | ⟨rfl, rfl⟩)
  · exact .reference hkey
  · exact .tags
  · exact .deviceType
  · exact .scalar hkey
  · exact .customFields
  · exact .interfaces

theorem mem_reader_of_lookup {raw value : Json} {key : String}
    (h : (normalizeDefaultsBlock raw).lookup key = some value) :
    ∃ read given, (key, read) ∈ blockReaders ∧ raw.get? key = some given ∧
      read given = some value := by
  obtain ⟨l₁, l₂, hl, -⟩ := List.lookup_eq_some_iff.mp h
  have hmem : (key, value) ∈ normalizeDefaultsBlock raw := by
    rw [hl]
    simp
  obtain ⟨⟨key', read⟩, hreader, hfield⟩ := List.mem_filterMap.mp hmem
  obtain ⟨given, hgiven, hread⟩ := Option.bind_eq_some_iff.mp hfield
  obtain ⟨value', hvalue, hpair⟩ := Option.map_eq_some_iff.mp hread
  cases hpair
  exact ⟨read, given, hreader, hgiven, hvalue⟩

theorem read_of_lookup {raw value : Json} {key : String}
    (h : (normalizeDefaultsBlock raw).lookup key = some value) :
    ∃ read given, ReadBy key read ∧ raw.get? key = some given ∧ read given = some value := by
  obtain ⟨read, given, hreader, hgiven, hvalue⟩ := mem_reader_of_lookup h
  exact ⟨read, given, readBy_of_mem hreader, hgiven, hvalue⟩

theorem read_by {raw value : Json} {key : String} {read : Json → Option Json}
    (hread : (key, read) ∈ blockReaders)
    (h : (normalizeDefaultsBlock raw).lookup key = some value) :
    ∃ given, read given = some value := by
  obtain ⟨read', given, hreader, -, hvalue⟩ := mem_reader_of_lookup h
  have hsame : read' = read := by
    have hone : ∀ read, (key, read) ∈ blockReaders → blockReaders.lookup key = some read :=
      fun _ hmem => Dict.get?_eq_some_iff (d := ⟨blockReaders, readers_nodup⟩).mpr hmem
    exact Option.some.inj ((hone read' hreader).symm.trans (hone read hread))
  exact ⟨given, hsame ▸ hvalue⟩

theorem leaf_str (text : String) : IsLeaf (.str text) := by
  rintro fields ⟨⟩

theorem nameReference_distinct (name : String) : KeysDistinct (nameReference name) :=
  keysDistinct_obj (by simp) (by simp [keysDistinct_of_leaf (leaf_str name)])

theorem nameReference_plain (name : String) : Plain (nameReference name) :=
  plain_obj (by simp [plain_of_leaf (leaf_str name), specialKeys, interfaceTypeKey])

theorem namedReferenceDefault_cases {given value : Json}
    (h : namedReferenceDefault given = some value) :
    (∃ name, value = nameReference name) ∨ value = given := by
  cases given with
  | obj fields =>
    simp only [namedReferenceDefault] at h
    split at h
    · exact .inl ⟨_, (Option.some.inj h).symm⟩
    · exact .inr (eq_of_orNone h).symm
  | _ =>
    simp only [namedReferenceDefault] at h
    split at h
    · exact .inl ⟨_, (Option.some.inj h).symm⟩
    · cases h

theorem deviceTypeDefault_cases {given value : Json} (h : deviceTypeDefault given = some value) :
    ∃ model manufacturer, value = .obj
      ((if model ≠ "" then [("model", Json.str model)] else []) ++
        (if manufacturer ≠ "" then [("manufacturer", nameReference manufacturer)] else [])) := by
  cases given with
  | obj fields => exact ⟨_, _, (eq_of_orNone h).symm⟩
  | _ => cases h

theorem deviceType_distinct {given value : Json} (h : deviceTypeDefault given = some value) :
    KeysDistinct value ∧ Plain value := by
  obtain ⟨model, manufacturer, rfl⟩ := deviceTypeDefault_cases h
  constructor
  · apply keysDistinct_obj
    · split <;> split <;> simp
    · intro field hfield
      rcases List.mem_append.mp hfield with hfield | hfield
      · split at hfield <;> simp_all [keysDistinct_of_leaf (leaf_str model)]
      · split at hfield <;> simp_all [nameReference_distinct]
  · apply plain_obj
    intro field hfield
    rcases List.mem_append.mp hfield with hfield | hfield
    · split at hfield <;> simp_all [plain_of_leaf (leaf_str model), specialKeys, interfaceTypeKey]
    · split at hfield <;> simp_all [nameReference_plain, specialKeys, interfaceTypeKey]

theorem customFieldsDefault_cases {given value : Json}
    (h : customFieldsDefault given = some value) :
    ∃ fields, value = .obj fields ∧ KeysDistinct value := by
  cases given with
  | obj raw =>
    obtain rfl := eq_of_orNone h
    refine ⟨_, rfl, keysDistinct_obj (Dict.nodup _) ?_⟩
    intro field hfield
    have hlookup := Dict.get?_eq_some_iff.mpr hfield
    rw [Dict.get?_ofPairs] at hlookup
    obtain ⟨l₁, l₂, hl, -⟩ := List.lookup_eq_some_iff.mp hlookup
    have hmem : (field.1, field.2) ∈ (l₁ ++ (field.1, field.2) :: l₂) := by simp
    rw [← hl, List.mem_reverse] at hmem
    obtain ⟨named, -, hnamed⟩ := List.mem_map.mp hmem
    rw [← (Prod.mk.inj hnamed).2]
    exact keysDistinct_of_leaf (leaf_str _)
  | _ => cases h

theorem leaf_arr (items : List Json) : IsLeaf (.arr items) := by
  rintro fields ⟨⟩

theorem tagsDefault_leaf {given value : Json} (h : tagsDefault given = some value) :
    IsLeaf value := by
  obtain rfl := eq_of_orNone h
  exact leaf_arr _

theorem interfacesDefault_list {given value : Json} (h : interfacesDefault given = some value) :
    ∃ items, value = .arr items := ⟨_, (eq_of_orNone h).symm⟩

theorem scalarDefault_text {given value : Json} (h : scalarDefault given = some value) :
    ∃ text, value = .str text ∧ text ≠ "" ∧ textOf value = text := by
  rw [scalarDefault] at h
  split at h
  · rename_i hne
    cases h
    exact ⟨_, rfl, hne, stripText_textOf given⟩
  · cases h

theorem block_distinct {raw : Json} (hraw : KeysDistinct raw) :
    KeysDistinct (.obj (normalizeDefaultsBlock raw)) := by
  apply keysDistinct_obj (block_nodup raw)
  rintro ⟨key, value⟩ hmem
  obtain ⟨read, given, hread, hgiven, hvalue⟩ :=
    read_of_lookup (lookup_of_mem (block_nodup raw) hmem)
  cases hread with
  | reference =>
    rcases namedReferenceDefault_cases hvalue with ⟨name, rfl⟩ | rfl
    · exact nameReference_distinct name
    · cases raw with
      | obj fields => exact hraw.lookup hgiven
      | _ => cases hgiven
  | tags => exact keysDistinct_of_leaf (tagsDefault_leaf hvalue)
  | deviceType => exact (deviceType_distinct hvalue).1
  | scalar =>
    obtain ⟨text, rfl, -⟩ := scalarDefault_text hvalue
    exact keysDistinct_of_leaf (leaf_str text)
  | customFields => exact (customFieldsDefault_cases hvalue).choose_spec.2
  | interfaces =>
    obtain ⟨items, rfl⟩ := interfacesDefault_list hvalue
    exact keysDistinct_of_leaf (leaf_arr items)

def ReferencesPlain (block : List (String × Json)) : Prop :=
  ∀ key ∈ namedReferenceKeys, ∀ value, block.lookup key = some value → Plain value

theorem block_copiesPlain {raw : Json} (h : ReferencesPlain (normalizeDefaultsBlock raw)) :
    CopiesPlain (normalizeDefaultsBlock raw) := by
  intro key value hkey hlookup
  obtain ⟨read, given, hread, -, hvalue⟩ := read_of_lookup hlookup
  cases hread with
  | reference href => exact h key href value hlookup
  | tags => exact plain_of_leaf (tagsDefault_leaf hvalue)
  | deviceType => exact (deviceType_distinct hvalue).2
  | scalar =>
    obtain ⟨text, rfl, -⟩ := scalarDefault_text hvalue
    exact plain_of_leaf (leaf_str text)
  | customFields => exact (hkey (by decide)).elim
  | interfaces => exact (hkey (by decide)).elim

theorem block_customFields {raw value : Json}
    (h : (normalizeDefaultsBlock raw).lookup "custom_fields" = some value) :
    ∃ fields, value = .obj fields := by
  have hread : ("custom_fields", customFieldsDefault) ∈ blockReaders := by simp [blockReaders]
  obtain ⟨given, hvalue⟩ := read_by hread h
  obtain ⟨fields, hfields, -⟩ := customFieldsDefault_cases hvalue
  exact ⟨fields, hfields⟩

theorem block_interfaces {raw value : Json}
    (h : (normalizeDefaultsBlock raw).lookup "interfaces" = some value) :
    ∃ items, value = .arr items := by
  have hread : ("interfaces", interfacesDefault) ∈ blockReaders := by simp [blockReaders]
  obtain ⟨given, hvalue⟩ := read_by hread h
  exact interfacesDefault_list hvalue

theorem block_interfaceType {raw value : Json}
    (h : (normalizeDefaultsBlock raw).lookup interfaceTypeKey = some value) :
    ∃ text, value = .str text ∧ text ≠ "" ∧ textOf value = text := by
  have hread : (interfaceTypeKey, scalarDefault) ∈ blockReaders := by
    simp [blockReaders, scalarKeys]
  obtain ⟨given, hvalue⟩ := read_by hread h
  exact scalarDefault_text hvalue

end Blocks

section Results

variable {raw existing : Json}

theorem overwrite_interfaces {fields : List (String × Json)} {items : List Json}
    (hblock : (normalizeDefaultsBlock raw).lookup "interfaces" = some (.arr items)) :
    (mergeNautobotDefaults true (.obj fields) (normalizeDefaultsBlock raw)).lookup "interfaces" =
      some (typed true ((normalizeDefaultsBlock raw).lookup interfaceTypeKey)
        (.arr (mergeInterfaces true (getKey fields "interfaces") (.arr items)))) := by
  rw [lookup_interfaces (block_nodup raw), untypedInterfaces, hblock]
  rfl

theorem setType_named {item : Json} {name : String} (hname : nameOf item = some name)
    (default : String) : ∃ fields, item = .obj fields ∧
      setType true default item = .obj (Dict.insertEntry "type" (.str default) fields) := by
  cases item with
  | obj fields => exact ⟨fields, rfl, by rw [setType, if_pos (.inl rfl)]⟩
  | _ => cases hname

/-- Every default that is a key is there. -/
theorem present_values (hraw : KeysDistinct raw)
    (hplain : ReferencesPlain (normalizeDefaultsBlock raw)) {fields : List (String × Json)}
    {place : List String} {value : Json}
    (hvalue : valueAt place (.obj (normalizeDefaultsBlock raw)) = some value)
    (hleaf : IsLeaf value) (htype : place ≠ [interfaceTypeKey])
    (hinterfaces : place ≠ ["interfaces"]) :
    valueAt place (.obj (mergeNautobotDefaults true (.obj fields) (normalizeDefaultsBlock raw))) =
      some value := by
  cases place with
  | nil =>
    cases hvalue
    exact (hleaf _ rfl).elim
  | cons key place =>
    have hplace := hvalue
    rw [valueAt_obj, Option.bind_eq_some_iff] at hplace
    obtain ⟨default, hdefault, hplace⟩ := hplace
    rcases key_cases key with rfl | rfl | rfl | hkey
    · obtain ⟨text, rfl, -⟩ := block_interfaceType hdefault
      obtain rfl := places_of_leaf (leaf_str text) hplace
      exact (htype rfl).elim
    · obtain ⟨items, rfl⟩ := block_interfaces hdefault
      obtain rfl := places_of_leaf (leaf_arr items) hplace
      exact (hinterfaces rfl).elim
    · obtain ⟨given, rfl⟩ := block_customFields hdefault
      cases place with
      | nil =>
        cases hplace
        exact (hleaf _ rfl).elim
      | cons name place =>
        rw [valueAt_obj, Option.bind_eq_some_iff] at hplace
        obtain ⟨inner, hinner, hplace⟩ := hplace
        have hmerged := @mergeCustomFields_overwrites (getKey fields "custom_fields") _
          ((block_distinct hraw).lookup hdefault) name inner hinner
        rw [valueAt_obj, lookup_customFields (block_nodup raw), hdefault]
        simp only [Option.bind_some, valueAt_obj, hmerged, hplace]
    · apply overwrites_values (block_distinct hraw) _ hvalue hleaf
      intro key' hmem
      rcases List.mem_cons.mp hmem with rfl | hmem
      · exact hkey
      · have hbelow := block_copiesPlain hplain key default hkey hdefault
        exact hbelow place (Option.isSome_iff_exists.mpr ⟨value, hplace⟩) key' hmem

theorem present_interfaces {fields : List (String × Json)} {before after : List Json} {item : Json}
    {name : String}
    (hblock : (normalizeDefaultsBlock raw).lookup "interfaces" =
      some (.arr (before ++ item :: after)))
    (hname : nameOf item = some name) (hafter : ∀ later ∈ after, nameOf later ≠ some name) :
    ∃ items' item', (mergeNautobotDefaults true (.obj fields) (normalizeDefaultsBlock raw)).lookup
        "interfaces" = some (.arr items') ∧ item' ∈ items' ∧
      TypeSet ((normalizeDefaultsBlock raw).lookup interfaceTypeKey) item item' := by
  have hmem := @mem_mergeInterfaces_last (getKey fields "interfaces") item before after name
    hname hafter
  rw [overwrite_interfaces hblock]
  cases htype : (normalizeDefaultsBlock raw).lookup interfaceTypeKey with
  | none => exact ⟨_, item, rfl, hmem, rfl⟩
  | some type =>
    obtain ⟨text, rfl, hne, htext⟩ := block_interfaceType htype
    obtain ⟨inner, rfl, hset⟩ := setType_named hname text
    refine ⟨_, setType true text (.obj inner), rfl, ?_, inner, rfl, hset⟩
    rw [applyDefaultInterfaceType, htext, if_neg hne]
    exact List.mem_map_of_mem hmem

theorem present_interfaceType {merged fields : List (String × Json)} {type : Json}
    {items : List Json}
    (htype : (normalizeDefaultsBlock raw).lookup interfaceTypeKey = some type)
    (hitems : (mergeNautobotDefaults true (.obj merged) (normalizeDefaultsBlock raw)).lookup
      "interfaces" = some (.arr items)) (hmem : .obj fields ∈ items) :
    getKey fields "type" = type := by
  obtain ⟨text, rfl, hne, htext⟩ := block_interfaceType htype
  rw [lookup_interfaces (block_nodup raw), Option.map_eq_some_iff, htype] at hitems
  obtain ⟨untyped, -, htyped⟩ := hitems
  cases untyped with
  | arr untyped =>
    cases htyped
    rw [applyDefaultInterfaceType, htext, if_neg hne] at hmem
    obtain ⟨item, -, hset⟩ := List.mem_map.mp hmem
    cases item with
    | obj inner =>
      rw [setType, if_pos (.inl rfl)] at hset
      cases hset
      simp [getKey, Dict.lookup_insertEntry]
    | _ => cases hset
  | _ => cases htyped

/-- Filling in a block keeps what the bag has and adds nothing else, and where the references of
the block are plain, a second time changes nothing and overwriting puts the whole block there. -/
theorem merge_loses_nothing (existing raw : Json) (hraw : KeysDistinct raw) :
    let block := normalizeDefaultsBlock raw
    let filled := mergeNautobotDefaults false existing block
    Keeps (.obj (fieldsOf existing)) (.obj block) (.obj filled) ∧
      AddsOnly (.obj (fieldsOf existing)) (.obj block) (.obj filled) ∧
      (ReferencesPlain block → mergeNautobotDefaults false (.obj filled) block = filled ∧
        Present (.obj block) (.obj (mergeNautobotDefaults true existing block))) := by
  have hblock := block_distinct hraw
  refine ⟨⟨?_, ?_⟩, ⟨?_, ?_⟩, fun hplain => ⟨?_, ?_, ?_, ?_⟩⟩
  · intro place value hplace hvalue hleaf hnonempty
    exact keeps_values hplace hblock hvalue hleaf hnonempty
  · intro place items hplace hitems
    exact keeps_interfaces hplace hblock hitems
  · intro place value hvalue hleaf hother
    exact adds_values hblock hvalue hleaf hother
  · intro place items' item' hplace hitems hitem
    exact adds_interfaces hplace hblock hitems hitem
  · exact merge_again hblock (block_copiesPlain hplain)
  · intro place value hvalue hleaf htype hinterfaces
    exact present_values hraw hplain hvalue hleaf htype hinterfaces
  · intro before item after name hitems hname hafter
    simp only [valueAt_key] at hitems ⊢
    exact present_interfaces hitems hname hafter
  · intro type items fields htype hitems hmem
    rw [valueAt_key] at htype hitems
    exact present_interfaceType htype hitems hmem

def lo0 : Json := .obj [("name", .str "lo0"), ("type", .str "virtual")]

theorem merge_loses_nothing_twoInterfaces :
    Keeps (.obj [("interfaces", .arr [.obj [("name", .str "eth0")]])])
      (.obj (normalizeDefaultsBlock (.obj [("interfaces", .arr [lo0])])))
      (.obj (mergeNautobotDefaults false
        (.obj [("interfaces", .arr [.obj [("name", .str "eth0")]])])
        (normalizeDefaultsBlock (.obj [("interfaces", .arr [lo0])])))) :=
  (merge_loses_nothing (.obj [("interfaces", .arr [.obj [("name", .str "eth0")]])])
    (.obj [("interfaces", .arr [lo0])])
    (keysDistinct_obj (by simp) (by simp [keysDistinct_of_leaf (leaf_arr _)]))).1

/-- The type of interfaces is stored nowhere in a bag without interfaces; and an interface without
a name is lost when the defaults have interfaces. -/
theorem interfaceType_not_stored :
    normalizeDefaultsBlock (.obj [("interface_type", .str "virtual")]) =
        [("interface_type", .str "virtual")] ∧
      mergeNautobotDefaults true (.obj [])
        (normalizeDefaultsBlock (.obj [("interface_type", .str "virtual")])) = [] ∧
      mergeNautobotDefaults false
        (.obj [("interfaces", .arr [.obj [("description", .str "uplink")]])])
        (normalizeDefaultsBlock (.obj [("interfaces", .arr [lo0])])) =
        [("interfaces", .arr [lo0])] := by
  decide +kernel

end Results

end Manus.Defaults
