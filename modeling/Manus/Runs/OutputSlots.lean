import Manus.Runs.OutputCap
import Manus.Lib.Dict

/-! # The slots of persisted outputs

Sizes before and after a replacement, what is left of a value that is shrunk, and the
slots: each holds a value, none is listed twice, and a replacement leaves them in place.
A value of fewer than 33 bytes is smaller than its marker.
-/

namespace Manus.OutputCap

open JsonValue (at? putAt changeEntry DistinctKeys)

section Sizes

theorem size_marker (n : ℕ) : size (marker n) = 31 + (Nat.toDigits 10 n).length := by
  have hdigits : intText (n : ℤ) = Nat.toDigits 10 n := by
    rw [intText, if_neg (by omega), Int.natAbs_natCast]
  have htruncated : (stringText truncatedKey).length = 15 := by decide +kernel
  have hbytes : (stringText "bytes").length = 7 := by decide +kernel
  simp only [marker, size, sizeFields, numberText, hdigits, htruncated, hbytes]
  simp
  omega

theorem digits_le {n k : ℕ} (hk : 0 < k) (h : n < 10 ^ k) : (Nat.toDigits 10 n).length ≤ k :=
  (Nat.length_toDigits_le_iff (by decide) hk).mpr h

theorem lt_ten_pow (m : ℕ) : 33 + m < 10 ^ (2 + m) := by
  induction m with
  | zero => decide
  | succ m ih =>
    have hpow : 10 ^ (2 + (m + 1)) = 10 ^ (2 + m) * 10 := Nat.pow_succ ..
    omega

theorem size_marker_le {n : ℕ} (h : 33 ≤ n) : size (marker n) ≤ n := by
  obtain ⟨m, rfl⟩ := Nat.exists_eq_add_of_le h
  have hdigits := digits_le (by omega) (lt_ten_pow m)
  rw [size_marker]
  omega

theorem lt_size_marker {n : ℕ} (h : n < 33) : n < size (marker n) := by
  rw [size_marker]
  have hpos : 0 < (Nat.toDigits 10 n).length := Nat.length_toDigits_pos
  by_cases hsmall : n < 32
  · omega
  · obtain rfl : n = 32 := by omega
    decide +kernel

theorem sizeFields_changeEntry {key : String} {change : Json → Json} {old : Json}
    {fields : List (String × Json)} (h : fields.lookup key = some old) :
    sizeFields (changeEntry key change fields) + size old =
      sizeFields fields + size (change old) := by
  induction fields with
  | nil => cases h
  | cons field fields ih =>
    obtain ⟨key₀, value₀⟩ := field
    rw [changeEntry]
    split
    · rename_i hkey
      obtain rfl : value₀ = old := by simpa [hkey] using h
      simp only [sizeFields]
      omega
    · rename_i hkey
      have hne : (key == key₀) = false := by simpa using Ne.symm hkey
      rw [List.lookup_cons, hne] at h
      have hempty : (changeEntry key change fields).isEmpty = fields.isEmpty := by
        cases fields with
        | nil => rfl
        | cons field fields =>
          rw [changeEntry]
          split <;> rfl
      have hrest := ih h
      simp only [sizeFields, hempty]
      omega

theorem size_putAt {new value old : Json} {place : List String}
    (h : at? place value = some old) :
    size (putAt new place value) + size old = size value + size new := by
  induction place generalizing value with
  | nil =>
    obtain rfl := Option.some.inj h
    exact Nat.add_comm _ _
  | cons key place ih =>
    obtain ⟨fields, inner, rfl, hlookup, h⟩ := JsonValue.at?_cons_eq_some.mp h
    have hinner := ih h
    have hfields := @sizeFields_changeEntry key (putAt new place) inner fields hlookup
    rw [putAt, size, size]
    omega

end Sizes

section Shrinking

variable {valueMax : ℕ} {value : Json}

theorem size_le_of_falsy (h : truthy value = false) : size value ≤ 5 := by
  cases value with
  | null => decide
  | bool b => cases b <;> decide
  | num n =>
    cases n with
    | int n =>
      obtain rfl : n = 0 := by simpa [truthy] using h
      decide +kernel
    | float text =>
      have htext : text = "0.0" ∨ text = "-0.0" := by
        by_contra hne
        rw [not_or] at hne
        simp [truthy, hne.1, hne.2] at h
      rcases htext with rfl | rfl <;> decide +kernel
  | str text =>
    obtain rfl : text = "" := by simpa [truthy] using h
    decide +kernel
  | arr items =>
    obtain rfl : items = [] := by simpa [truthy] using h
    decide
  | obj fields =>
    obtain rfl : fields = [] := by simpa [truthy] using h
    decide

theorem lookup_map_value (key : String) (change : Json → Json) (fields : List (String × Json)) :
    (fields.map fun field => (field.1, change field.2)).lookup key =
      (fields.lookup key).map change := by
  induction fields with
  | nil => rfl
  | cons field fields ih =>
    rw [List.map_cons, List.lookup_cons, List.lookup_cons]
    split <;> simp_all

/-- What `_shrink` can leave: the marker, or an object that fits and is no marker. -/
theorem shrink_cases (hmax : 32 ≤ valueMax) (hlarge : valueMax < size value)
    (hvalue : isMarker value = false) :
    shrink valueMax (size value) value = marker (size value) ∨
      size (shrink valueMax (size value) value) ≤ valueMax ∧
        isMarker (shrink valueMax (size value) value) = false := by
  cases value with
  | obj fields =>
    rw [shrink]
    split
    · rename_i hfits
      right
      refine ⟨hfits, ?_⟩
      change (List.lookup truncatedKey (List.map _ fields)).any truthy = false
      change (fields.lookup truncatedKey).any truthy = false at hvalue
      rw [lookup_map_value]
      cases hkey : fields.lookup truncatedKey with
      | none => rfl
      | some child =>
        rw [hkey] at hvalue
        have hfalsy : truthy child = false := hvalue
        have hsmall := size_le_of_falsy hfalsy
        have hkept : shrinkChild valueMax child = child := by
          rw [shrinkChild, if_neg (by omega)]
        rw [Option.map_some, hkept]
        exact hfalsy
    · exact Or.inl rfl
  | _ => exact Or.inl rfl

end Shrinking

section Slots

variable {place : List String} {new : Json}

theorem flatMap_changeEntry {β : Type} {key : String} {change : Json → Json}
    {f : String × Json → List β} (h : ∀ value, f (key, change value) = f (key, value))
    (fields : List (String × Json)) :
    (changeEntry key change fields).flatMap f = fields.flatMap f := by
  induction fields with
  | nil => rfl
  | cons field fields ih =>
    obtain ⟨key₀, value₀⟩ := field
    rw [changeEntry]
    split
    · rename_i hkey
      subst hkey
      rw [List.flatMap_cons, List.flatMap_cons, h]
    · rw [List.flatMap_cons, List.flatMap_cons, ih]

theorem mappingSlots_putAt (key : String) (mapping : Option Json) :
    mappingSlots place (mapping.map (putAt new [key])) = mappingSlots place mapping := by
  rcases mapping with _ | value
  · rfl
  · cases value with
    | obj fields =>
      change (changeEntry key _ fields).map _ = fields.map _
      have hkeys := JsonValue.keys_changeEntry key (putAt new []) fields
      calc (changeEntry key (putAt new []) fields).map (fun field => place ++ [field.1])
          = ((changeEntry key (putAt new []) fields).map Prod.fst).map
              (fun key => place ++ [key]) := by rw [List.map_map]; rfl
        _ = fields.map fun field => place ++ [field.1] := by rw [hkeys, List.map_map]; rfl
    | _ => rfl

theorem bagSlots_putAt (bag key : String) (bags : Option Json) :
    bagSlots place (bags.map (putAt new [bag, key])) = bagSlots place bags := by
  rcases bags with _ | value
  · rfl
  · cases value with
    | obj fields =>
      exact flatMap_changeEntry (fun value => mappingSlots_putAt key (some value)) fields
    | _ => rfl

theorem deviceSlots_parsed (key : String) (device : Json) :
    deviceSlots place (putAt new ["parsed", key] device) = deviceSlots place device := by
  cases device with
  | obj fields =>
    rw [putAt, deviceSlots, deviceSlots, JsonValue.lookup_changeEntry, if_pos rfl,
      mappingSlots_putAt, JsonValue.lookup_changeEntry, if_neg (by decide)]
  | _ => rfl

theorem deviceSlots_bag (bag key : String) (device : Json) :
    deviceSlots place (putAt new ["attribute_bags", bag, key] device) =
      deviceSlots place device := by
  cases device with
  | obj fields =>
    rw [putAt, deviceSlots, deviceSlots, JsonValue.lookup_changeEntry, if_neg (by decide),
      JsonValue.lookup_changeEntry, if_pos rfl, bagSlots_putAt]
  | _ => rfl

theorem contextSlots_metadata (key : String) (context : Json) :
    contextSlots place (putAt new ["metadata", key] context) = contextSlots place context := by
  cases context with
  | obj fields =>
    rw [putAt, contextSlots, contextSlots, JsonValue.lookup_changeEntry, if_pos rfl,
      mappingSlots_putAt, JsonValue.lookup_changeEntry, if_neg (by decide)]
  | _ => rfl

theorem contextSlots_device {rest : List String} (device : String) (context : Json)
    (h : ∀ place value, deviceSlots place (putAt new rest value) = deviceSlots place value) :
    contextSlots place (putAt new ("devices" :: device :: rest) context) =
      contextSlots place context := by
  cases context with
  | obj fields =>
    rw [putAt, contextSlots, contextSlots, JsonValue.lookup_changeEntry, if_neg (by decide),
      JsonValue.lookup_changeEntry, if_pos rfl]
    congr 1
    rcases fields.lookup "devices" with _ | value
    · rfl
    · cases value with
      | obj devices => exact flatMap_changeEntry (fun value => h _ value) devices
      | _ => rfl
  | _ => rfl

theorem slots_context {rest : List String} (outcome : String) (persisted : Json)
    (h : ∀ place value, contextSlots place (putAt new rest value) = contextSlots place value) :
    slots (putAt new (outcome :: rest) persisted) = slots persisted := by
  cases persisted with
  | obj fields => exact flatMap_changeEntry (fun value => h _ value) fields
  | _ => rfl

inductive IsSlot : List String → Prop where
  | metadata (outcome key : String) : IsSlot [outcome, "metadata", key]
  | parsed (outcome device key : String) : IsSlot [outcome, "devices", device, "parsed", key]
  | bag (outcome device bag key : String) :
      IsSlot [outcome, "devices", device, "attribute_bags", bag, key]

theorem slots_putAt (h : IsSlot place) (persisted : Json) :
    slots (putAt new place persisted) = slots persisted := by
  cases h with
  | metadata outcome key =>
    exact slots_context outcome persisted fun _ value => contextSlots_metadata key value
  | parsed outcome device key =>
    exact slots_context outcome persisted fun _ value =>
      contextSlots_device device value fun _ value => deviceSlots_parsed key value
  | bag outcome device bag key =>
    exact slots_context outcome persisted fun _ value =>
      contextSlots_device device value fun _ value => deviceSlots_bag bag key value

theorem IsSlot.apart {place' : List String} (h : IsSlot place) (h' : IsSlot place')
    (hne : place ≠ place') : JsonValue.Apart place place' := by
  cases h <;> cases h' <;> simp_all [JsonValue.Apart, List.cons_prefix_cons] <;> tauto

theorem lookup_of_mem {fields : List (String × Json)} {key : String} {value : Json}
    (hkeys : (fields.map Prod.fst).Nodup) (h : (key, value) ∈ fields) :
    fields.lookup key = some value :=
  (@Dict.get?_eq_some_iff _ ⟨fields, hkeys⟩ key value).mpr h

theorem keys_nodup {fields : List (String × Json)} (h : DistinctKeys (.obj fields)) :
    (fields.map Prod.fst).Nodup := h [] fields rfl

theorem distinctKeys_inner {fields : List (String × Json)} {key : String} {value : Json}
    (h : DistinctKeys (.obj fields)) (hvalue : fields.lookup key = some value) :
    DistinctKeys value := by
  have hat : at? [key] (.obj fields) = some value := by
    rw [JsonValue.at?_obj, hvalue]
    rfl
  exact h.at? hat

theorem mem_mappingSlots {slot : List String} {mapping : Json}
    (h : DistinctKeys mapping) (hslot : slot ∈ mappingSlots place (some mapping)) :
    ∃ key value, slot = place ++ [key] ∧ at? [key] mapping = some value := by
  cases mapping with
  | obj fields =>
    obtain ⟨⟨key, value⟩, hmem, rfl⟩ := List.mem_map.mp hslot
    refine ⟨key, value, rfl, ?_⟩
    rw [JsonValue.at?_obj, lookup_of_mem (keys_nodup h) hmem]
    rfl
  | _ => cases hslot

theorem mem_bagSlots {slot : List String} {bags : Json} (h : DistinctKeys bags)
    (hslot : slot ∈ bagSlots place (some bags)) :
    ∃ bag key value, slot = place ++ [bag] ++ [key] ∧ at? [bag, key] bags = some value := by
  cases bags with
  | obj fields =>
    obtain ⟨⟨bag, mapping⟩, hmem, hslot⟩ := List.mem_flatMap.mp hslot
    have hlookup := lookup_of_mem (keys_nodup h) hmem
    obtain ⟨key, value, rfl, hvalue⟩ := mem_mappingSlots (distinctKeys_inner h hlookup) hslot
    refine ⟨bag, key, value, rfl, ?_⟩
    rw [JsonValue.at?_obj, hlookup]
    exact hvalue
  | _ => cases hslot

theorem mem_deviceSlots {slot : List String} {device : Json} (h : DistinctKeys device)
    (hslot : slot ∈ deviceSlots place device) :
    (∃ key value, slot = place ++ ["parsed"] ++ [key] ∧ at? ["parsed", key] device = some value) ∨
      ∃ bag key value, slot = place ++ ["attribute_bags"] ++ [bag] ++ [key] ∧
        at? ["attribute_bags", bag, key] device = some value := by
  cases device with
  | obj fields =>
    rcases List.mem_append.mp hslot with hslot | hslot
    · left
      cases hparsed : fields.lookup "parsed" with
      | none =>
        rw [hparsed] at hslot
        cases hslot
      | some mapping =>
        rw [hparsed] at hslot
        obtain ⟨key, value, rfl, hvalue⟩ := mem_mappingSlots (distinctKeys_inner h hparsed) hslot
        refine ⟨key, value, rfl, ?_⟩
        rw [JsonValue.at?_obj, hparsed]
        exact hvalue
    · right
      cases hbags : fields.lookup "attribute_bags" with
      | none =>
        rw [hbags] at hslot
        cases hslot
      | some bags =>
        rw [hbags] at hslot
        obtain ⟨bag, key, value, rfl, hvalue⟩ := mem_bagSlots (distinctKeys_inner h hbags) hslot
        refine ⟨bag, key, value, rfl, ?_⟩
        rw [JsonValue.at?_obj, hbags]
        exact hvalue
  | _ => cases hslot

/-- Every slot holds a value. -/
theorem mem_slots {persisted : Json} (h : DistinctKeys persisted)
    (hslot : place ∈ slots persisted) :
    IsSlot place ∧ ∃ value, at? place persisted = some value := by
  cases persisted with
  | obj outcomes =>
    obtain ⟨⟨outcome, context⟩, hmem, hslot⟩ := List.mem_flatMap.mp hslot
    have hcontext := lookup_of_mem (keys_nodup h) hmem
    have hinside : ∀ rest, at? (outcome :: rest) (.obj outcomes) = at? rest context := by
      intro rest
      rw [JsonValue.at?_obj, hcontext]
      rfl
    have h := distinctKeys_inner h hcontext
    cases context with
    | obj fields =>
      rcases List.mem_append.mp hslot with hslot | hslot
      · cases hmetadata : fields.lookup "metadata" with
        | none =>
          rw [hmetadata] at hslot
          cases hslot
        | some mapping =>
          rw [hmetadata] at hslot
          obtain ⟨key, value, rfl, hvalue⟩ :=
            mem_mappingSlots (distinctKeys_inner h hmetadata) hslot
          refine ⟨.metadata outcome key, value, ?_⟩
          change at? [outcome, "metadata", key] _ = _
          rw [hinside, JsonValue.at?_obj, hmetadata]
          exact hvalue
      · split at hslot
        · rename_i devices hdevices
          obtain ⟨⟨name, device⟩, hmem, hslot⟩ := List.mem_flatMap.mp hslot
          have hdistinct := distinctKeys_inner h hdevices
          have hdevice := lookup_of_mem (keys_nodup hdistinct) hmem
          have hdeeper : ∀ rest, at? (outcome :: "devices" :: name :: rest) (.obj outcomes) =
              at? rest device := by
            intro rest
            rw [hinside, JsonValue.at?_obj, hdevices, Option.bind_some, JsonValue.at?_obj, hdevice]
            rfl
          rcases mem_deviceSlots (distinctKeys_inner hdistinct hdevice) hslot with
            ⟨key, value, rfl, hvalue⟩ | ⟨bag, key, value, rfl, hvalue⟩
          · exact ⟨.parsed outcome name key, value, (hdeeper _).trans hvalue⟩
          · exact ⟨.bag outcome name bag key, value, (hdeeper _).trans hvalue⟩
        · cases hslot
    | _ => cases hslot
  | _ => cases hslot

end Slots

section Distinct

variable {place : List String}

theorem prefix_of_mem_mappingSlots {slot : List String} {mapping : Option Json}
    (h : slot ∈ mappingSlots place mapping) : place <+: slot := by
  unfold mappingSlots at h
  split at h
  · obtain ⟨field, -, rfl⟩ := List.mem_map.mp h
    exact List.prefix_append _ _
  · cases h

theorem prefix_of_mem_bagSlots {slot : List String} {bags : Option Json}
    (h : slot ∈ bagSlots place bags) : place <+: slot := by
  unfold bagSlots at h
  split at h
  · obtain ⟨bag, -, hslot⟩ := List.mem_flatMap.mp h
    exact (List.prefix_append _ _).trans (prefix_of_mem_mappingSlots hslot)
  · cases h

theorem prefix_of_mem_deviceSlots {slot : List String} {device : Json}
    (h : slot ∈ deviceSlots place device) : place <+: slot := by
  unfold deviceSlots at h
  split at h
  · rcases List.mem_append.mp h with h | h
    · exact (List.prefix_append _ _).trans (prefix_of_mem_mappingSlots h)
    · exact (List.prefix_append _ _).trans (prefix_of_mem_bagSlots h)
  · cases h

theorem prefix_of_mem_contextSlots {slot : List String} {context : Json}
    (h : slot ∈ contextSlots place context) : place <+: slot := by
  unfold contextSlots at h
  split at h
  · rcases List.mem_append.mp h with h | h
    · exact (List.prefix_append _ _).trans (prefix_of_mem_mappingSlots h)
    · split at h
      · obtain ⟨device, -, h⟩ := List.mem_flatMap.mp h
        exact (List.prefix_append _ _).trans (prefix_of_mem_deviceSlots h)
      · cases h
  · cases h

theorem not_prefix_both {key key' : String} {rest slot : List String} (hne : key ≠ key')
    (h : place ++ key :: rest <+: slot) {rest' : List String}
    (h' : place ++ key' :: rest' <+: slot) : False := by
  obtain ⟨back, rfl⟩ := h
  obtain ⟨back', h'⟩ := h'
  rw [List.append_assoc, List.append_assoc] at h'
  exact hne (List.cons.inj (List.append_cancel_left h')).1.symm

theorem nodup_flatMap_keys (place : List String) {fields : List (String × Json)}
    {f : String × Json → List (List String)} (hkeys : (fields.map Prod.fst).Nodup)
    (hnodup : ∀ field ∈ fields, (f field).Nodup)
    (hbegins : ∀ field, ∀ slot ∈ f field, place ++ [field.1] <+: slot) :
    (fields.flatMap f).Nodup := by
  rw [List.nodup_flatMap]
  refine ⟨hnodup, ?_⟩
  have hpairs := List.pairwise_map.mp hkeys
  apply hpairs.imp
  intro field field' hne
  apply List.disjoint_left.mpr
  intro slot hslot hslot'
  exact not_prefix_both hne (hbegins field slot hslot) (hbegins field' slot hslot')

theorem nodup_mappingSlots {mapping : Json} (h : DistinctKeys mapping) :
    (mappingSlots place (some mapping)).Nodup := by
  cases mapping with
  | obj fields =>
    have hinjective : Function.Injective fun key => place ++ [key] :=
      fun key key' heq => by simpa using heq
    have hmap := (keys_nodup h).map hinjective
    rwa [List.map_map] at hmap
  | _ => exact List.nodup_nil

theorem nodup_bagSlots {bags : Json} (h : DistinctKeys bags) :
    (bagSlots place (some bags)).Nodup := by
  cases bags with
  | obj fields =>
    apply nodup_flatMap_keys place (keys_nodup h)
    · intro field hmem
      exact nodup_mappingSlots (distinctKeys_inner h (lookup_of_mem (keys_nodup h) hmem))
    · intro field slot hslot
      exact prefix_of_mem_mappingSlots hslot
  | _ => exact List.nodup_nil

theorem nodup_deviceSlots {device : Json} (h : DistinctKeys device) :
    (deviceSlots place device).Nodup := by
  cases device with
  | obj fields =>
    apply List.Nodup.append
    · cases hparsed : fields.lookup "parsed" with
      | none => exact List.nodup_nil
      | some mapping => exact nodup_mappingSlots (distinctKeys_inner h hparsed)
    · cases hbags : fields.lookup "attribute_bags" with
      | none => exact List.nodup_nil
      | some bags => exact nodup_bagSlots (distinctKeys_inner h hbags)
    · apply List.disjoint_left.mpr
      intro slot hslot hslot'
      exact not_prefix_both (by decide) (prefix_of_mem_mappingSlots hslot)
        (prefix_of_mem_bagSlots hslot')
  | _ => exact List.nodup_nil

theorem nodup_contextSlots {context : Json} (h : DistinctKeys context) :
    (contextSlots place context).Nodup := by
  cases context with
  | obj fields =>
    apply List.Nodup.append
    · cases hmetadata : fields.lookup "metadata" with
      | none => exact List.nodup_nil
      | some mapping => exact nodup_mappingSlots (distinctKeys_inner h hmetadata)
    · split
      · rename_i devices hdevices
        have hdistinct := distinctKeys_inner h hdevices
        apply nodup_flatMap_keys (place ++ ["devices"]) (keys_nodup hdistinct)
        · intro field hmem
          exact nodup_deviceSlots
            (distinctKeys_inner hdistinct (lookup_of_mem (keys_nodup hdistinct) hmem))
        · intro field slot hslot
          have hbegins := prefix_of_mem_deviceSlots hslot
          rwa [List.append_assoc]
      · exact List.nodup_nil
    · apply List.disjoint_left.mpr
      intro slot hslot hslot'
      split at hslot'
      · obtain ⟨device, -, hslot'⟩ := List.mem_flatMap.mp hslot'
        exact not_prefix_both (by decide) (prefix_of_mem_mappingSlots hslot)
          (prefix_of_mem_deviceSlots hslot')
      · cases hslot'
  | _ => exact List.nodup_nil

theorem nodup_slots {persisted : Json} (h : DistinctKeys persisted) : (slots persisted).Nodup := by
  cases persisted with
  | obj outcomes =>
    apply nodup_flatMap_keys [] (keys_nodup h)
    · intro field hmem
      exact nodup_contextSlots (distinctKeys_inner h (lookup_of_mem (keys_nodup h) hmem))
    · intro field slot hslot
      exact prefix_of_mem_contextSlots hslot
  | _ => exact List.nodup_nil

end Distinct

end Manus.OutputCap
