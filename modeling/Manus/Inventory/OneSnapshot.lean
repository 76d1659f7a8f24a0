import Manus.Inventory.Narrowing

/-! # Reading while the cache is refreshed

The ids, and then the devices, of a narrowed read come from separate commands,
and the hashes may be replaced between any two of them. Devices that are gone or
do not match are noticed when they are fetched, devices that are missing are not.
-/

namespace Manus

open Prog

section Interleaved

variable {g : List Redis} {cache : Option (List DeviceInfo)} {field value : String} {negate : Bool}

def HeldIn (g : List Redis) (cache : Option (List DeviceInfo)) : Prop :=
  ∀ devices, cache = some devices → ∃ r ∈ g, devices = r.devices

theorem heldIn_none : HeldIn g none := nofun

theorem getAllDevicesCached_reads (h : HeldIn g cache) :
    (Service.getAllDevicesCached cache).Spec Redis.Warm reading g fun result g' =>
      ∃ r ∈ g', result = (.ok r.devices, some r.devices) := by
  cases cache with
  | none =>
    refine Spec.get_bind fun r hr => ?_
    rw [hr.hvals]
    exact ⟨r, List.mem_cons_self, rfl⟩
  | some devices =>
    obtain ⟨r, hr, rfl⟩ := h devices rfl
    exact ⟨r, hr, rfl⟩

theorem readIndexIds_reads :
    (readIndexIds field value negate).Spec Redis.Warm reading g fun _ _ => True := by
  have hcomplement : ∀ ids g, (readIndexIds.complement negate ids).Spec Redis.Warm reading g
      fun _ _ => True := by
    intro ids g
    unfold readIndexIds.complement
    cases negate with
    | false => trivial
    | true => exact Spec.get_bind fun r _ => trivial
  refine Spec.get_bind fun r hr => ?_
  rw [if_pos hr.1]
  split
  · trivial
  · exact hcomplement _ _
  · refine Spec.get_bind fun r' _ => ?_
    split
    · exact hcomplement _ _
    · trivial

theorem reads_spec {α β : Type} {p : Prog Outside Redis α} {k : α → Service β}
    {Q : α → Prop} {R : Except Raised β × Option (List DeviceInfo) → List Redis → Prop}
    (hp : p.Spec Redis.Warm reading g fun a _ => Q a)
    (hk : ∀ a g, Q a → (k a none).Spec Redis.Warm reading g R) :
    ((Service.reads p >>= k) none).Spec Redis.Warm reading g R := by
  have hread : (Service.reads p none).Spec Redis.Warm reading g fun result _ =>
      ∃ a, result = (.ok a, none) ∧ Q a := hp.bind fun a g ha => ⟨a, rfl, ha⟩
  refine hread.bind ?_
  rintro _ g ⟨a, rfl, ha⟩
  exact hk a g ha

theorem idsByAttribute_reads (h : HeldIn g cache) :
    (Service.idsByAttribute field value negate cache).Spec Redis.Warm reading g fun result g' =>
      (∃ ids, result.1 = .ok ids) ∧ HeldIn g' result.2 := by
  -- the list of all devices, when the index does not say
  have hfull : ∀ {g : List Redis} {cache : Option (List DeviceInfo)}, HeldIn g cache →
      ((do
        let devices ← Service.getAllDevicesCached
        return (devices.filter fun d => d.matches field value negate).map DeviceInfo.id :
          Service (List String)) cache).Spec Redis.Warm reading g fun result g' =>
        (∃ ids, result.1 = .ok ids) ∧ HeldIn g' result.2 := by
    intro g cache h
    refine (getAllDevicesCached_reads h).bind ?_
    rintro _ g' ⟨r, hr, rfl⟩
    refine ⟨⟨_, rfl⟩, ?_⟩
    rintro devices ⟨⟩
    exact ⟨r, hr, rfl⟩
  cases cache with
  | none =>
    refine reads_spec readIndexIds_reads fun found g' _ => ?_
    cases found with
    | none => exact hfull heldIn_none
    | some ids => exact ⟨⟨ids, rfl⟩, heldIn_none⟩
  | some devices => exact hfull h

theorem lookupIds_reads (conditions : List LogicalCondition) (h : HeldIn g cache) :
    (Cached.lookupIds conditions cache).Spec Redis.Warm reading g fun result g' =>
      (∃ idSets, result.1 = .ok idSets) ∧ HeldIn g' result.2 := by
  induction conditions generalizing g cache with
  | nil => exact ⟨⟨[], rfl⟩, h⟩
  | cons c conditions ih =>
    refine (idsByAttribute_reads h).bind ?_
    rintro ⟨_, cache'⟩ g' ⟨⟨ids, rfl⟩, h'⟩
    refine (ih h').bind ?_
    rintro ⟨_, cache''⟩ g'' ⟨⟨idSets, rfl⟩, h''⟩
    exact ⟨⟨ids :: idSets, rfl⟩, h''⟩

theorem fetched_ids {r : Redis} {ids : List String} (h : ∀ id ∈ ids, (r.data.get? id).isSome) :
    ((ids.map r.data.get?).filterMap id).map DeviceInfo.id = ids := by
  induction ids with
  | nil => rfl
  | cons id ids ih =>
    rw [List.forall_mem_cons] at h
    obtain ⟨d, hd⟩ := Option.isSome_iff_exists.mp h.1
    obtain ⟨d', -, he⟩ := List.mem_map.mp (Dict.get?_eq_some_iff.mp hd)
    cases he
    rw [List.map_cons, List.filterMap_cons_some (by exact hd), List.map_cons, ih h.2]

theorem fetchDevices_reads (ids : List String) (predicates : List Predicate) :
    (fetchDevices ids predicates).Spec Redis.Warm reading g fun fetched _ =>
      ∀ devices, fetched = some devices → devices.map DeviceInfo.id = ids := by
  unfold fetchDevices
  split
  · rename_i hempty
    rintro devices ⟨⟩
    exact (List.isEmpty_iff.mp hempty).symm
  · refine Spec.get_bind fun r hr => ?_
    rw [if_pos hr.1]
    intro devices hdevices
    obtain ⟨hall, he⟩ := Option.ite_none_right_eq_some.mp hdevices
    rw [Bool.and_eq_true, List.all_eq_true, List.forall_mem_map] at hall
    rw [← Option.some.inj he]
    exact fetched_ids hall.1

theorem devicesByIds_reads {ids : List String} {predicates : List Predicate}
    (hne : predicates ≠ []) (h : HeldIn g cache) :
    (Service.devicesByIds ids predicates cache).Spec Redis.Warm reading g fun result g' =>
      ∃ devices, result.1 = .ok devices ∧ (cache = none ∧ devices.map DeviceInfo.id = ids ∨
        ∃ r ∈ g', devices = r.devices.filter fun d => matchesAll d predicates) := by
  -- the list of all devices, when the devices cannot be fetched
  have hfull : ∀ {g : List Redis} {cache' : Option (List DeviceInfo)}, HeldIn g cache' →
      ((do
        let devices ← Service.getAllDevicesCached
        return if predicates.isEmpty then devices.filter fun d => d.id ∈ ids
          else devices.filter fun d => matchesAll d predicates :
            Service (List DeviceInfo)) cache').Spec Redis.Warm reading g fun result g' =>
        ∃ devices, result.1 = .ok devices ∧ (cache = none ∧ devices.map DeviceInfo.id = ids ∨
          ∃ r ∈ g', devices = r.devices.filter fun d => matchesAll d predicates) := by
    intro g cache' h
    refine (getAllDevicesCached_reads h).bind ?_
    rintro _ g' ⟨r, hr, rfl⟩
    exact ⟨_, rfl, .inr ⟨r, hr, if_neg (by simpa using hne)⟩⟩
  cases cache with
  | none =>
    refine reads_spec (fetchDevices_reads ids predicates) fun found g' hfound => ?_
    cases found with
    | none => exact hfull heldIn_none
    | some devices => exact ⟨devices, rfl, .inl ⟨rfl, hfound devices rfl⟩⟩
  | some devices => exact hfull h

end Interleaved

section Narrowed

variable {moments : List (Tick Outside ⊕ Redis)} {r : Redis} {seen : List Redis}

/-- No refresh comes between the lookups of the ids, as long as the index answers them. -/
def LookedUpAtOnce (moments : List (Tick Outside ⊕ Redis)) (r : Redis)
    (indexed : List LogicalCondition) : Prop :=
  ∀ idSets seen, (Cached.lookupIds indexed none).beside moments r =
    some ((.ok idSets, none), seen) → ∀ r' ∈ seen, r' = r

/-- The ids of the devices that some indexed conditions select in a store. -/
def Selects (r : Redis) (indexed : List LogicalCondition) (candidates : List DeviceInfo) : Prop :=
  ∀ id, id ∈ candidates.map DeviceInfo.id ↔ ∃ d ∈ r.devices, d.id = id ∧
    ∀ c ∈ indexed, d.matches c.field c.value (c.operator == "not_equals") = true

theorem selects_of_ids {indexed : List LogicalCondition} {candidates : List DeviceInfo}
    (h : candidates.map DeviceInfo.id = (r.devices.filter fun d => indexed.all fun c =>
      d.matches c.field c.value (c.operator == "not_equals")).map DeviceInfo.id) :
    Selects r indexed candidates := by
  intro id
  rw [h]
  simp only [List.mem_map, List.mem_filter, List.all_eq_true]
  exact exists_congr fun d => by rw [and_assoc, and_comm (a := d.id = id)]

/-- The devices that are left are those of one of the stores. -/
theorem narrow_oneSnapshot {indexed : List LogicalCondition} (hne : indexed ≠ [])
    (hv : ∀ c ∈ indexed, c.value ≠ "") (hr : r.Warm) (hswaps : ∀ r', .inr r' ∈ moments → r'.Warm)
    {result : Except Raised (List DeviceInfo) × Option (List DeviceInfo)}
    (hrun : (Cached.narrow indexed none).beside moments r = some (result, seen))
    (hone : LookedUpAtOnce moments r indexed) :
    ∃ candidates, result.1 = .ok candidates ∧ ∃ r' ∈ seen, Selects r' indexed candidates := by
  obtain ⟨⟨ids, cache⟩, seen₁, rest, r', seen₂, h₁, h₂, hr', hrest, hsub₁, hsub₂⟩ :=
    beside_bind hrun
  obtain ⟨⟨g₁, ⟨⟨idSets, rfl⟩, hheld⟩, hg₁⟩, hwarm⟩ :=
    (lookupIds_reads indexed heldIn_none).beside hr hswaps h₁ (g := [])
  have hpredicates : indexed.map Cached.predicate ≠ [] := by simpa using hne
  obtain ⟨⟨g₂, ⟨candidates, hok, hcases⟩, hg₂⟩, -⟩ := (devicesByIds_reads hpredicates hheld).beside
    (hwarm r' hr') (fun r' hm => hswaps r' (hrest _ hm)) h₂
  refine ⟨candidates, hok, ?_⟩
  rcases hcases with ⟨rfl, hids⟩ | ⟨r'', hr'', rfl⟩
  · -- all ids come from one store, and the devices have these ids
    have hanswers : Answers r False r.devices _ _ := answers_lookupIds hr hv
    have hlooked := ((hanswers none rfl).weaken fun _ _ => nofun).beside h₁ (hone idSets seen₁ h₁)
    have hsets : idSets = indexed.map fun c => (r.devices.filter fun d =>
        d.matches c.field c.value (c.operator == "not_equals")).map DeviceInfo.id := by
      rcases hlooked.1 with he | ⟨-, he⟩
      · exact Except.ok.inj he
      · cases he
    refine ⟨r, mem_of_beside hrun, selects_of_ids ?_⟩
    have hcommon := commonIds_map r.unique (indexed.map fun c (d : DeviceInfo) =>
      d.matches c.field c.value (c.operator == "not_equals")) (by simpa using hne)
    rw [List.map_map] at hcommon
    rw [hids, hsets]
    refine hcommon.trans ?_
    simp only [List.all_map]
    rfl
  · refine ⟨r'', ?_, selects_of_ids ?_⟩
    · rcases hg₂ r'' hr'' with hin | hin
      · rcases hg₁ r'' hin with hin | hin
        · cases hin
        · exact hsub₁ r'' hin
      · exact hsub₂ r'' hin
    · simp only [matchesAll_predicate]

theorem indexed_iff {op : LogicalOperation} {candidates : List DeviceInfo} :
    Selects r (op.conditions.filter isIndexedCondition) candidates ↔
      ∀ id, id ∈ candidates.map DeviceInfo.id ↔ ∃ d ∈ r.devices, d.id = id ∧
        ∀ c ∈ op.conditions, isIndexedCondition c = true →
          d.matches c.field c.value (c.operator == "not_equals") = true := by
  simp only [Selects, List.mem_filter, and_imp]

/-- In every interleaving with refreshes, a narrowed read returns the devices that all indexed
conditions select in one store that was there during the read, if no refresh comes between the
lookups of the ids. -/
theorem narrowByIndex_oneSnapshot {op : LogicalOperation} (ht : op.type = .and)
    (hne : ∃ c ∈ op.conditions, isIndexedCondition c = true) (hr : r.Warm)
    (hswaps : ∀ r', .inr r' ∈ moments → r'.Warm)
    (hone : LookedUpAtOnce moments r (op.conditions.filter isIndexedCondition))
    {result : Except Raised (Option (List DeviceInfo × List LogicalCondition × ℕ)) ×
      Option (List DeviceInfo)}
    (hrun : (Cached.narrowByIndex op none).beside moments r = some (result, seen)) :
    ∃ candidates remaining count, result.1 = .ok (some (candidates, remaining, count)) ∧
      ∃ r' ∈ seen, ∀ id, id ∈ candidates.map DeviceInfo.id ↔ ∃ d ∈ r'.devices, d.id = id ∧
        ∀ c ∈ op.conditions, isIndexedCondition c = true →
          d.matches c.field c.value (c.operator == "not_equals") = true := by
  have hindexed : op.conditions.filter isIndexedCondition ≠ [] := by
    obtain ⟨c, hc, hi⟩ := hne
    exact List.ne_nil_of_mem (List.mem_filter.mpr ⟨hc, hi⟩)
  unfold Cached.narrowByIndex at hrun
  rw [if_neg (by simp [ht, hindexed])] at hrun
  obtain ⟨_, seen₁, rest, _, _, h₁, h₂, -, -, hsub₁, -⟩ := beside_bind hrun
  obtain ⟨narrowed, seen₂, rest', _, _, h₃, h₄, -, -, hsub₂, -⟩ := beside_bind h₁
  obtain ⟨candidates, hok, r', hr', hselects⟩ := narrow_oneSnapshot hindexed
    (fun c hc => value_ne_of_indexed (List.mem_filter.mp hc).2) hr hswaps h₃ hone
  obtain ⟨_, cache⟩ := narrowed
  obtain rfl := hok
  cases (beside_ret _).symm.trans h₄
  cases (beside_ret _).symm.trans h₂
  exact ⟨candidates, _, _, rfl, r', hsub₁ r' (hsub₂ r' hr'), indexed_iff.mp hselects⟩

def activeLeaf (id : String) : DeviceInfo :=
  { id, role := some "leaf", status := some "Active" }

def activeLeafs : LogicalOperation :=
  ⟨"AND", [⟨"role", "equals", "leaf"⟩, ⟨"status", "equals", "Active"⟩], []⟩

def beforeRefresh : Redis where
  devices := [activeLeaf "a", activeLeaf "b"]
  unique := by simp [activeLeaf]

def afterRefresh : Redis where
  devices := [activeLeaf "a", { activeLeaf "b" with status := some "Planned" }, activeLeaf "c"]
  unique := by simp [activeLeaf]

def nextCommand : Tick Outside ⊕ Redis := .inl ⟨0, [], {}⟩

theorem narrowByIndex_activeLeafs : Cached.narrowByIndex activeLeafs = Service.orElse (do
    let candidates ← Cached.narrow activeLeafs.conditions
    return some (candidates, [], 2)) none := by
  have ht : activeLeafs.type = .and := by decide +kernel
  unfold Cached.narrowByIndex
  rw [if_neg (not_or.mpr ⟨not_not.mpr ht, by decide +kernel⟩)]
  rfl

/-- With a refresh between the two lookups, neither the device that left nor the new one is
there. -/
theorem refreshBetween_mixes :
    beforeRefresh.Warm ∧ afterRefresh.Warm ∧ ∃ candidates remaining count seen,
      (Cached.narrowByIndex activeLeafs none).beside
        [nextCommand, .inr afterRefresh, nextCommand, nextCommand] beforeRefresh =
        some ((.ok (some (candidates, remaining, count)), none), seen) ∧
      ∀ r' ∈ seen, ¬ ∀ id, id ∈ candidates.map DeviceInfo.id ↔ ∃ d ∈ r'.devices, d.id = id ∧
        ∀ c ∈ activeLeafs.conditions, isIndexedCondition c = true →
          d.matches c.field c.value (c.operator == "not_equals") = true := by
  have hactive : ∀ id, ∀ c ∈ activeLeafs.conditions, isIndexedCondition c = true →
      (activeLeaf id).matches c.field c.value (c.operator == "not_equals") = true := by
    intro id c hc _
    rcases List.mem_cons.mp hc with rfl | hc
    · rfl
    · obtain rfl := List.mem_singleton.mp hc
      rfl
  refine ⟨⟨rfl, by simp [beforeRefresh]⟩, ⟨rfl, by simp [afterRefresh]⟩, [activeLeaf "a"], [], 2,
    [beforeRefresh, beforeRefresh, afterRefresh, afterRefresh, afterRefresh], ?_, ?_⟩
  · rw [narrowByIndex_activeLeafs]
    rfl
  · intro r' hr' hids
    have hcases : r' = beforeRefresh ∨ r' = afterRefresh := by simpa [or_assoc] using hr'
    rcases hcases with rfl | rfl
    · have hb := (hids "b").mpr ⟨activeLeaf "b", by simp [beforeRefresh], rfl, hactive "b"⟩
      simp [activeLeaf] at hb
    · have hc := (hids "c").mpr ⟨activeLeaf "c", by simp [afterRefresh], rfl, hactive "c"⟩
      simp [activeLeaf] at hc

/-- With the refresh after the lookups, the devices are noticed to have changed and all of them are
read again. -/
theorem refreshAfter_isOneSnapshot : ∃ candidates remaining count seen,
    (Cached.narrowByIndex activeLeafs none).beside
      [nextCommand, nextCommand, .inr afterRefresh, nextCommand, nextCommand] beforeRefresh =
      some ((.ok (some (candidates, remaining, count)), some afterRefresh.devices), seen) ∧
    ∃ r' ∈ seen, ∀ id, id ∈ candidates.map DeviceInfo.id ↔ ∃ d ∈ r'.devices, d.id = id ∧
      ∀ c ∈ activeLeafs.conditions, isIndexedCondition c = true →
        d.matches c.field c.value (c.operator == "not_equals") = true := by
  have hrun : ∃ result seen, (Cached.narrowByIndex activeLeafs none).beside
      [nextCommand, nextCommand, .inr afterRefresh, nextCommand, nextCommand] beforeRefresh =
      some (result, seen) ∧ result.2 = some afterRefresh.devices := by
    rw [narrowByIndex_activeLeafs]
    exact ⟨_, _, rfl, rfl⟩
  obtain ⟨⟨result, cache⟩, seen, hrun, rfl⟩ := hrun
  have hwarm : beforeRefresh.Warm ∧ afterRefresh.Warm :=
    ⟨⟨rfl, by simp [beforeRefresh]⟩, ⟨rfl, by simp [afterRefresh]⟩⟩
  have hone : LookedUpAtOnce
      [nextCommand, nextCommand, .inr afterRefresh, nextCommand, nextCommand] beforeRefresh
      (activeLeafs.conditions.filter isIndexedCondition) := by
    intro idSets seen hlooked
    have hseen : seen = [beforeRefresh, beforeRefresh, beforeRefresh] :=
      (congrArg Prod.snd (Option.some.inj hlooked)).symm
    rw [hseen]
    simp
  obtain ⟨candidates, remaining, count, rfl, h⟩ := narrowByIndex_oneSnapshot (by decide +kernel)
    ⟨_, List.mem_cons_self, by decide +kernel⟩ hwarm.1
    (by simpa [nextCommand] using hwarm.2) hone hrun
  exact ⟨candidates, remaining, count, seen, hrun, h⟩

end Narrowed

end Manus
