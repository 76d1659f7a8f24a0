import Manus.Nautobot.FreeAddresses

/-! # Addresses that are handed out once

The devices of one prefix are served from one list, so no two of them get the same
address. Two prefixes have a list each, and where the prefixes overlap the lists can have
addresses in common: the devices get distinct addresses exactly if the parts that are
handed out have none.
-/

namespace Manus.FreeIp

open Expression

section Chunks

variable {pool : List String} {count : ℕ}

def chunk (pool : List String) (count i : ℕ) : List String := (pool.drop (i * count)).take count

def handedOutOf (pool : List String) (count devices : ℕ) : List String :=
  pool.take (min devices (pool.length / count) * count)

theorem take_eq (hcount : 1 ≤ count) (used : ℕ) :
    take pool used count =
      if used + count ≤ pool.length then some ((pool.drop used).take count) else none := by
  have hlength : ((pool.drop used).take count).length = count ↔ used + count ≤ pool.length := by
    rw [List.length_take, List.length_drop]
    omega
  rw [take]
  simp only [hlength]

theorem length_chunk {i : ℕ} (h : (i + 1) * count ≤ pool.length) :
    (chunk pool count i).length = count := by
  rw [Nat.succ_mul] at h
  rw [chunk, List.length_take, List.length_drop]
  omega

theorem mem_chunk {i : ℕ} {text : String} :
    text ∈ chunk pool count i ↔ ∃ j < count, pool[i * count + j]? = some text := by
  rw [chunk, List.mem_iff_getElem?]
  constructor
  · rintro ⟨j, hj⟩
    rw [List.getElem?_take] at hj
    split at hj
    · next hlt => exact ⟨j, hlt, by rwa [List.getElem?_drop] at hj⟩
    · cases hj
  · rintro ⟨j, hlt, hj⟩
    refine ⟨j, ?_⟩
    rw [List.getElem?_take, if_pos hlt, List.getElem?_drop]
    exact hj

theorem chunk_disjoint (hnodup : pool.Nodup) {i j : ℕ} (hne : i ≠ j) :
    (chunk pool count i).Disjoint (chunk pool count j) := by
  intro text hi hj
  obtain ⟨k, hk, hi⟩ := mem_chunk.mp hi
  obtain ⟨l, hl, hj⟩ := mem_chunk.mp hj
  have hsame : i * count + k = j * count + l := by
    have hbound : i * count + k < pool.length := (List.getElem?_eq_some_iff.mp hi).1
    exact (List.getElem?_inj hbound hnodup).mp (hi.trans hj.symm)
  rcases Nat.lt_or_gt_of_ne hne with h | h
  · have hle := Nat.mul_le_mul_right count (Nat.succ_le_of_lt h)
    rw [Nat.succ_mul] at hle
    omega
  · have hle := Nat.mul_le_mul_right count (Nat.succ_le_of_lt h)
    rw [Nat.succ_mul] at hle
    omega

/-- What is handed out is what the members get. -/
theorem mem_handedOutOf (hcount : 1 ≤ count) {devices : ℕ} {text : String} :
    text ∈ handedOutOf pool count devices ↔
      ∃ i < devices, (i + 1) * count ≤ pool.length ∧ text ∈ chunk pool count i := by
  constructor
  · intro h
    obtain ⟨k, hk⟩ := List.mem_iff_getElem?.mp h
    rw [handedOutOf, List.getElem?_take] at hk
    split at hk
    · next hlt =>
      have hi : k / count < min devices (pool.length / count) :=
        Nat.div_lt_of_lt_mul (by rwa [Nat.mul_comm])
      have hfull : (k / count + 1) * count ≤ pool.length :=
        (Nat.mul_le_mul_right count (Nat.succ_le_of_lt (lt_min_iff.mp hi).2)).trans
          (Nat.div_mul_le_self _ _)
      refine ⟨k / count, (lt_min_iff.mp hi).1, hfull, mem_chunk.mpr ⟨k % count, ?_, ?_⟩⟩
      · exact Nat.mod_lt _ hcount
      · rwa [Nat.mul_comm, Nat.div_add_mod]
    · cases hk
  · rintro ⟨i, hi, hfull, hmem⟩
    obtain ⟨j, hj, htext⟩ := mem_chunk.mp hmem
    have hlt : i * count + j < min devices (pool.length / count) * count := by
      have hpool : i + 1 ≤ pool.length / count := (Nat.le_div_iff_mul_le hcount).mpr hfull
      have hle := Nat.mul_le_mul_right count (le_min (Nat.succ_le_of_lt hi) hpool)
      rw [Nat.succ_mul] at hle
      omega
    apply List.mem_iff_getElem?.mpr
    exact ⟨i * count + j, by rw [handedOutOf, List.getElem?_take, if_pos hlt, htext]⟩

end Chunks

section Serving

variable {attributes : Attributes} {parsed : ParsedConfig} {nodeId : String} {target : Target}
  {pool : List String} {windowCut : Bool} {members : List DeviceContext}

def PlacedAt (attributes : Attributes) (parsed : ParsedConfig) (pool : List String) (i : ℕ)
    (device : DeviceContext) (placed : Placed) : Prop :=
  ((i + 1) * parsed.count ≤ pool.length ∧
    ∃ updated, attributes.set device (assignedValue parsed (chunk pool parsed.count i)) =
      .ok updated ∧ placed = .given (chunk pool parsed.count i) updated) ∨
  (pool.length < (i + 1) * parsed.count ∧ ∃ updated, placed = .failed updated)

theorem mul_succ_le (offset i count : ℕ) : offset * count + count ≤ (offset + i + 1) * count := by
  rw [← Nat.succ_mul]
  exact Nat.mul_le_mul_right count (by omega)

theorem serveMembers_exhausted {used : ℕ} (hshort : pool.length < used + parsed.count) :
    ∃ entries : List (String × Placed),
      serveMembers attributes parsed nodeId target pool windowCut used members = .ok entries ∧
      entries.map Prod.fst = members.map (·.id) ∧
      ∀ (i : ℕ) (device : DeviceContext), members[i]? = some device →
        ∃ updated, entries[i]? = some (device.id, Placed.failed updated) := by
  induction members with
  | nil => exact ⟨[], rfl, rfl, fun i device h => by cases h⟩
  | cons device members ih =>
    obtain ⟨entries, hentries, hids, hfailed⟩ := ih
    refine ⟨(device.id, .failed (notEnough parsed nodeId target windowCut (pool.length - used)
      device)) :: entries, ?_, ?_, ?_⟩
    · rw [serveMembers, take_eq parsed.count_pos, if_neg (Nat.not_le.mpr hshort)]
      simp only [hentries, bind, Except.bind]
      rfl
    · rw [List.map_cons, List.map_cons, hids]
    · intro i other hother
      cases i with
      | zero =>
        obtain rfl : device = other := by simpa using hother
        exact ⟨_, rfl⟩
      | succ i => exact hfailed i other (by simpa using hother)

theorem serveMembers_placed {offset : ℕ} {entries : List (String × Placed)}
    (h : serveMembers attributes parsed nodeId target pool windowCut (offset * parsed.count)
      members = .ok entries) :
    entries.map Prod.fst = members.map (·.id) ∧
      ∀ i device, members[i]? = some device → ∃ placed, entries[i]? = some (device.id, placed) ∧
        PlacedAt attributes parsed pool (offset + i) device placed := by
  induction members generalizing offset entries with
  | nil =>
    cases h
    exact ⟨rfl, fun i device hdevice => by cases hdevice⟩
  | cons device members ih =>
    by_cases hfull : offset * parsed.count + parsed.count ≤ pool.length
    · rw [serveMembers, take_eq parsed.count_pos, if_pos hfull] at h
      obtain ⟨updated, hset, h⟩ := bind_eq_ok.mp h
      obtain ⟨rest, hrest, h⟩ := bind_eq_ok.mp h
      cases h
      rw [← Nat.succ_mul] at hrest hfull
      obtain ⟨hids, hplaced⟩ := ih hrest
      constructor
      · rw [List.map_cons, List.map_cons, hids]
      · intro i other hother
        cases i with
        | zero =>
          obtain rfl : device = other := by simpa using hother
          exact ⟨_, rfl, Or.inl ⟨hfull, updated, hset, rfl⟩⟩
        | succ i =>
          obtain ⟨placed, hentry, hat⟩ := hplaced i other (by simpa using hother)
          refine ⟨placed, by simpa using hentry, ?_⟩
          rwa [Nat.succ_add, ← Nat.add_succ] at hat
    · obtain ⟨all, hall, hids, hfailed⟩ := @serveMembers_exhausted attributes parsed nodeId target
        pool windowCut (device :: members) _ (Nat.not_le.mp hfull)
      obtain rfl := Except.ok.inj (hall.symm.trans h)
      refine ⟨hids, fun i other hother => ?_⟩
      obtain ⟨updated, hentry⟩ := hfailed i other hother
      refine ⟨_, hentry, Or.inr ⟨?_, updated, rfl⟩⟩
      exact (Nat.not_le.mp hfull).trans_le (mul_succ_le offset i parsed.count)

/-- The members are served if every value can be stored. -/
theorem serveMembers_ok_iff {offset : ℕ} :
    (∃ entries, serveMembers attributes parsed nodeId target pool windowCut
        (offset * parsed.count) members = .ok entries) ↔
      ∀ i device, members[i]? = some device → (offset + i + 1) * parsed.count ≤ pool.length →
        ∃ updated, attributes.set device
          (assignedValue parsed (chunk pool parsed.count (offset + i))) = .ok updated := by
  induction members generalizing offset with
  | nil =>
    constructor
    · intro _ i device hdevice
      cases hdevice
    · intro _
      exact ⟨[], rfl⟩
  | cons device members ih =>
    by_cases hfull : offset * parsed.count + parsed.count ≤ pool.length
    · rw [serveMembers, take_eq parsed.count_pos, if_pos hfull]
      simp only [bind_eq_ok]
      constructor
      · rintro ⟨entries, updated, hset, rest, hrest, -⟩ i other hother hi
        cases i with
        | zero =>
          obtain rfl : device = other := by simpa using hother
          exact ⟨updated, hset⟩
        | succ i =>
          rw [← Nat.succ_mul] at hrest
          rw [Nat.add_succ, ← Nat.succ_add] at hi ⊢
          exact ih.mp ⟨rest, hrest⟩ i other (by simpa using hother) hi
      · intro h
        obtain ⟨updated, hset⟩ := h 0 device rfl (by rw [Nat.add_zero, Nat.succ_mul]; exact hfull)
        obtain ⟨rest, hrest⟩ := (@ih (offset + 1)).mpr fun i other hother hi => by
          rw [Nat.succ_add, ← Nat.add_succ] at hi ⊢
          exact h (i + 1) other (by simpa using hother) hi
        rw [Nat.succ_mul] at hrest
        exact ⟨_, updated, hset, rest, hrest, rfl⟩
    · constructor
      · intro _ i other _ hi
        exact absurd ((mul_succ_le offset i parsed.count).trans hi) hfull
      · intro _
        obtain ⟨entries, hentries, -⟩ := @serveMembers_exhausted attributes parsed nodeId target
          pool windowCut (device :: members) _ (Nat.not_le.mp hfull)
        exact ⟨entries, hentries⟩

end Serving

section Groups

def waiting (routed : List (DeviceContext × Routed)) (prefixId : String) :
    List (Target × DeviceContext) :=
  routed.filterMap fun entry =>
    match entry.2 with
    | .failed _ => none
    | .waits target => if target.prefixId = prefixId then some (target, entry.1) else none

theorem mem_waiting {routed : List (DeviceContext × Routed)} {prefixId : String} {target : Target}
    {device : DeviceContext} : (target, device) ∈ waiting routed prefixId ↔
      (device, .waits target) ∈ routed ∧ target.prefixId = prefixId := by
  simp only [waiting, List.mem_filterMap, Prod.exists]
  constructor
  · rintro ⟨other, step, hmem, hstep⟩
    cases step with
    | failed updated => cases hstep
    | waits found =>
      dsimp only at hstep
      split at hstep
      · next hid =>
        cases hstep
        exact ⟨hmem, hid⟩
      · cases hstep
  · rintro ⟨hmem, hid⟩
    exact ⟨device, .waits target, hmem, by simp [hid]⟩

/-- A group has the target that came first, and everyone who waits. -/
theorem get?_groupsOf (routed : List (DeviceContext × Routed)) (prefixId : String) :
    (groupsOf routed).get? prefixId =
      (waiting routed prefixId).head?.map fun first =>
        (first.1, (waiting routed prefixId).map Prod.snd) := by
  induction routed using List.reverseRecOn with
  | nil => rfl
  | append_singleton routed entry ih =>
    obtain ⟨device, step⟩ := entry
    have hgroups : groupsOf (routed ++ [(device, step)]) =
        addRouted (groupsOf routed) (device, step) := by
      rw [groupsOf, List.foldl_append]
      rfl
    have hwaiting : waiting (routed ++ [(device, step)]) prefixId =
        waiting routed prefixId ++ waiting [(device, step)] prefixId := List.filterMap_append
    rw [hgroups, hwaiting]
    cases step with
    | failed updated =>
      have hnone : waiting [(device, Routed.failed updated)] prefixId = [] := rfl
      rw [hnone, List.append_nil]
      exact ih
    | waits target =>
      simp only [addRouted, addMember, Dict.get?_insert]
      by_cases hid : prefixId = target.prefixId
      · have hone : waiting [(device, Routed.waits target)] prefixId = [(target, device)] := by
          simp [waiting, hid]
        rw [if_pos hid, ← hid, ih, hone]
        cases waiting routed prefixId <;> simp
      · have hnone : waiting [(device, Routed.waits target)] prefixId = [] := by
          simp [waiting, Ne.symm hid]
        rw [if_neg hid, hnone, List.append_nil]
        exact ih

theorem get?_groupsOf_eq_some {routed : List (DeviceContext × Routed)} {prefixId : String}
    {group : Target × List DeviceContext} (h : (groupsOf routed).get? prefixId = some group) :
    group.2 = (waiting routed prefixId).map Prod.snd ∧ group.1.prefixId = prefixId ∧
      ∃ device, (device, .waits group.1) ∈ routed := by
  rw [get?_groupsOf] at h
  obtain ⟨⟨target, device⟩, hfirst, rfl⟩ := Option.map_eq_some_iff.mp h
  obtain ⟨hmem, hid⟩ := mem_waiting.mp (List.mem_of_mem_head? hfirst)
  exact ⟨rfl, hid, device, hmem⟩

theorem exists_group {routed : List (DeviceContext × Routed)} {device : DeviceContext}
    {target : Target} (h : (device, .waits target) ∈ routed) :
    ∃ group, (groupsOf routed).get? target.prefixId = some group ∧ device ∈ group.2 := by
  have hmem : (target, device) ∈ waiting routed target.prefixId := mem_waiting.mpr ⟨h, rfl⟩
  rw [get?_groupsOf]
  cases hfirst : (waiting routed target.prefixId).head? with
  | none =>
    rw [List.head?_eq_none_iff.mp hfirst] at hmem
    cases hmem
  | some first => exact ⟨_, rfl, List.mem_map.mpr ⟨_, hmem, rfl⟩⟩

theorem mem_group {routed : List (DeviceContext × Routed)} {device : DeviceContext}
    {prefixId : String} {group : Target × List DeviceContext}
    (h : (groupsOf routed).get? prefixId = some group) (hdevice : device ∈ group.2) :
    ∃ target, (device, .waits target) ∈ routed ∧ target.prefixId = prefixId := by
  rw [(get?_groupsOf_eq_some h).1] at hdevice
  obtain ⟨⟨target, other⟩, hmem, rfl⟩ := List.mem_map.mp hdevice
  exact ⟨target, mem_waiting.mp hmem⟩

theorem group_sublist {routed : List (DeviceContext × Routed)} {prefixId : String}
    {group : Target × List DeviceContext} (h : (groupsOf routed).get? prefixId = some group) :
    group.2.Sublist (routed.map Prod.fst) := by
  rw [(get?_groupsOf_eq_some h).1]
  clear h
  induction routed with
  | nil => exact List.Sublist.slnil
  | cons entry routed ih =>
    obtain ⟨device, step⟩ := entry
    cases step with
    | failed updated => exact ih.cons device
    | waits target =>
      by_cases hid : target.prefixId = prefixId
      · have hwaiting : waiting ((device, .waits target) :: routed) prefixId =
            (target, device) :: waiting routed prefixId := by
          simp [waiting, hid]
        rw [hwaiting]
        exact ih.cons_cons device
      · have hwaiting : waiting ((device, .waits target) :: routed) prefixId =
            waiting routed prefixId := by
          simp [waiting, hid]
        rw [hwaiting]
        exact ih.cons device

end Groups

section Placements

variable {attributes : Attributes} {parsed : ParsedConfig} {nautobot : Nautobot} {nodeId : String}
  {devices : Devices} {routed : List (DeviceContext × Routed)}
  {served : List (List (String × Placed))}

theorem routeAll_eq_ok (h : routeAll attributes parsed nautobot nodeId devices = .ok routed) :
    routed.map Prod.fst = devices.all.values ∧
      ∀ entry ∈ routed, route attributes parsed nautobot nodeId entry.1 = .ok entry.2 := by
  unfold routeAll at h
  generalize devices.all.values = all at h
  induction all generalizing routed with
  | nil =>
    cases h
    exact ⟨rfl, fun entry hentry => absurd hentry List.not_mem_nil⟩
  | cons device all ih =>
    simp only [List.mapM_cons, bind_eq_ok] at h
    obtain ⟨entry, hentry, rest, hrest, h⟩ := h
    cases h
    obtain ⟨step, hstep, rfl⟩ := map_eq_ok.mp hentry
    obtain ⟨hfirst, hall⟩ := ih hrest
    constructor
    · rw [List.map_cons, hfirst]
    · intro other hother
      rcases List.mem_cons.mp hother with rfl | hother
      · exact hstep
      · exact hall other hother

theorem values_map_id : devices.all.values.map (·.id) = devices.all.keys := by
  rw [Dict.values, Dict.keys, List.map_map]
  apply List.map_congr_left
  intro entry hentry
  exact (devices.keyed entry hentry).symm

theorem ids_nodup (hfirst : routed.map Prod.fst = devices.all.values) :
    (routed.map fun entry => entry.1.id).Nodup := by
  have hids : (routed.map fun entry => entry.1.id) = devices.all.keys := by
    rw [← values_map_id, ← hfirst, List.map_map]
    rfl
  rw [hids]
  exact devices.all.keys_nodup

theorem routed_unique (hfirst : routed.map Prod.fst = devices.all.values)
    {entry other : DeviceContext × Routed} (hentry : entry ∈ routed) (hother : other ∈ routed)
    (hid : entry.1.id = other.1.id) : entry = other :=
  List.inj_on_of_nodup_map (ids_nodup hfirst) hentry hother hid

theorem keys_serveGroup {group : Target × List DeviceContext} {entries : List (String × Placed)}
    (h : serveGroup attributes parsed nodeId nautobot group = .ok entries) :
    entries.map Prod.fst = group.2.map (·.id) := by
  unfold serveGroup at h
  split at h
  · cases h
    simp [List.map_map, Function.comp_def]
  · have hzero := h
    rw [← Nat.zero_mul parsed.count] at hzero
    exact (serveMembers_placed hzero).1

theorem mem_entries {key : String} {placed : Placed}
    (hserved : (groupsOf routed).values.mapM (serveGroup attributes parsed nodeId nautobot) =
      .ok served) (h : (key, placed) ∈ failedAtOnce routed ++ served.flatten) :
    (∃ device updated, (device, .failed updated) ∈ routed ∧ key = device.id ∧
      placed = .failed updated) ∨
    (∃ prefixId group entries, (groupsOf routed).get? prefixId = some group ∧
      serveGroup attributes parsed nodeId nautobot group = .ok entries ∧
        (key, placed) ∈ entries) := by
  rcases List.mem_append.mp h with h | h
  · left
    obtain ⟨⟨device, step⟩, hmem, hstep⟩ := List.mem_filterMap.mp h
    cases step with
    | failed updated =>
      cases hstep
      exact ⟨device, updated, hmem, rfl, rfl⟩
    | waits target => cases hstep
  · right
    obtain ⟨entries, hentries, hmem⟩ := List.mem_flatten.mp h
    obtain ⟨group, hgroup, hserve⟩ := (mapM_eq_ok hserved).1 entries hentries
    obtain ⟨⟨prefixId, group'⟩, hentry, rfl⟩ := List.mem_map.mp hgroup
    exact ⟨prefixId, group', entries, Dict.get?_eq_some_iff.mpr hentry, hserve, hmem⟩

theorem placed_failed (hfirst : routed.map Prod.fst = devices.all.values)
    (hserved : (groupsOf routed).values.mapM (serveGroup attributes parsed nodeId nautobot) =
      .ok served) {device updated : DeviceContext} (h : (device, .failed updated) ∈ routed) :
    (Dict.ofPairs (failedAtOnce routed ++ served.flatten)).get? device.id =
      some (.failed updated) := by
  apply Dict.get?_ofPairs_unique
  · apply List.mem_append_left
    exact List.mem_filterMap.mpr ⟨_, h, rfl⟩
  · intro other hother
    rcases mem_entries hserved hother with ⟨device', updated', hmem, hid, rfl⟩ |
      ⟨prefixId, group, entries, hgroup, hserve, hmem⟩
    · cases routed_unique hfirst h hmem hid
      rfl
    · have hkey : device.id ∈ group.2.map (·.id) := by
        rw [← keys_serveGroup hserve]
        exact List.mem_map.mpr ⟨_, hmem, rfl⟩
      obtain ⟨member, hmember, hid⟩ := List.mem_map.mp hkey
      obtain ⟨target, hwaits, -⟩ := mem_group hgroup hmember
      cases routed_unique hfirst h hwaits hid.symm

/-- A device that waits is placed by its group. -/
theorem placed_waits (hfirst : routed.map Prod.fst = devices.all.values)
    (hserved : (groupsOf routed).values.mapM (serveGroup attributes parsed nodeId nautobot) =
      .ok served) {prefixId : String} {group : Target × List DeviceContext}
    {entries : List (String × Placed)} (hgroup : (groupsOf routed).get? prefixId = some group)
    (hserve : serveGroup attributes parsed nodeId nautobot group = .ok entries) {i : ℕ}
    {device : DeviceContext} {placed : Placed} (hdevice : group.2[i]? = some device)
    (hentry : entries[i]? = some (device.id, placed)) :
    (Dict.ofPairs (failedAtOnce routed ++ served.flatten)).get? device.id = some placed := by
  have hmember := List.mem_of_getElem? hdevice
  obtain ⟨target, hwaits, hid⟩ := mem_group hgroup hmember
  have hinValues : group ∈ (groupsOf routed).values :=
    List.mem_map.mpr ⟨_, Dict.get?_eq_some_iff.mp hgroup, rfl⟩
  obtain ⟨entries', hentries', hserve'⟩ := (mapM_eq_ok hserved).2 group hinValues
  obtain rfl := Except.ok.inj (hserve.symm.trans hserve')
  apply Dict.get?_ofPairs_unique
  · apply List.mem_append_right
    exact List.mem_flatten.mpr ⟨entries, hentries', List.mem_of_getElem? hentry⟩
  · intro other hother
    rcases mem_entries hserved hother with ⟨device', updated', hmem, hsame, rfl⟩ |
      ⟨prefixId', group', entries', hgroup', hserve', hmem⟩
    · cases routed_unique hfirst hwaits hmem hsame
    · have hkey : device.id ∈ group'.2.map (·.id) := by
        rw [← keys_serveGroup hserve']
        exact List.mem_map.mpr ⟨_, hmem, rfl⟩
      obtain ⟨member, hmember', hsame⟩ := List.mem_map.mp hkey
      obtain ⟨target', hwaits', hid'⟩ := mem_group hgroup' hmember'
      cases routed_unique hfirst hwaits hwaits' hsame.symm
      obtain rfl : prefixId = prefixId' := hid.symm.trans hid'
      obtain rfl := Option.some.inj (hgroup.symm.trans hgroup')
      obtain rfl := Except.ok.inj (hserve.symm.trans hserve')
      have hnodup : (entries.map Prod.fst).Nodup := by
        have hids : (routed.map Prod.fst).map (·.id) = routed.map fun entry => entry.1.id := by
          rw [List.map_map]
          rfl
        rw [keys_serveGroup hserve]
        apply List.Nodup.sublist ((group_sublist hgroup).map (·.id))
        rw [hids]
        exact ids_nodup hfirst
      have hsameEntry := List.inj_on_of_nodup_map hnodup hmem (List.mem_of_getElem? hentry) rfl
      exact congrArg Prod.snd hsameEntry

end Placements

section Truth

/-- What Nautobot holds: the network of every prefix and its free addresses in ascending order. -/
structure Ipam where
  network : String → IpNetwork
  free : String → List IpAddress
  ascending : ∀ prefixId, (free prefixId).Pairwise fun a b => a.value < b.value
  inside : ∀ prefixId, ∀ address ∈ free prefixId,
    (network prefixId).contains address = true ∧ address.scope = none

/-- Nautobot finds the prefix that was asked for, and lists each of its free addresses once, in
order, up to the limit. -/
structure Truthful (nautobot : Nautobot) (ipam : Ipam) : Prop where
  network : ∀ expression key target, resolveTarget nautobot expression key = .ok target →
    ipam.network target.prefixId = target.network
  available : ∀ prefixId limit items, fetchAvailableIps nautobot prefixId limit = .ok items →
    items.map itemAddress = ((ipam.free prefixId).take limit).map some

def freeFrom (ipam : Ipam) (prefixId : String) (startOffset : ℕ) : List IpAddress :=
  (ipam.free prefixId).filter fun address =>
    decide ((ipam.network prefixId).address + startOffset ≤ address.value)

def limitOf (parsed : ParsedConfig) (devices : ℕ) : ℕ :=
  min (windowSize parsed.startOffset parsed.count devices (availableIpsCap * 1000)) availableIpsCap

variable {nautobot : Nautobot} {ipam : Ipam} {parsed : ParsedConfig} {target : Target}
  {pool : List String} {windowCut : Bool} {devices : ℕ}

theorem contains_iff {network : IpNetwork} {address : IpAddress} :
    network.contains address = true ↔ address.version = network.version ∧
      address.value / 2 ^ (network.version.bits - network.prefixLength) *
        2 ^ (network.version.bits - network.prefixLength) = network.address := by
  simp [IpNetwork.contains]

theorem address_le_of_contains {network : IpNetwork} {address : IpAddress}
    (h : network.contains address = true) : network.address ≤ address.value := by
  rw [← (contains_iff.mp h).2]
  exact Nat.div_mul_le_self _ _

theorem loadPool_eq_ok (htruth : Truthful nautobot ipam)
    (hnetwork : ipam.network target.prefixId = target.network)
    (h : loadPool nautobot parsed target devices = .ok (pool, windowCut)) :
    pool = (((ipam.free target.prefixId).take (limitOf parsed devices)).filter fun address =>
      decide (target.network.address + parsed.startOffset ≤ address.value)).map IpAddress.text := by
  obtain ⟨items, hitems, h⟩ := bind_eq_ok.mp h
  obtain ⟨rfl, -⟩ : freeAddressesFrom items target.network parsed.startOffset = pool ∧ _ :=
    Prod.mk.inj (Except.ok.inj h)
  have haddresses : items.filterMap itemAddress =
      (ipam.free target.prefixId).take (limitOf parsed devices) := by
    have havailable := htruth.available _ _ _ hitems
    have hid : items.filterMap itemAddress = (items.map itemAddress).filterMap id := by
      rw [List.filterMap_map]
      rfl
    rw [hid, havailable, List.filterMap_map]
    exact List.filterMap_some
  rw [freeAddressesFrom, haddresses]
  congr 1
  apply List.filter_congr
  intro address haddress
  have hinside := (ipam.inside _ address (List.take_subset _ _ haddress)).1
  rw [hnetwork] at hinside
  simp [freeAddress, hinside, (contains_iff.mp hinside).1]

theorem countP_below {values : List ℕ} (hascending : values.Pairwise (· < ·)) {start : ℕ}
    (hstart : ∀ value ∈ values, start ≤ value) (offset : ℕ) :
    values.countP (fun value => decide (value < start + offset)) ≤ offset := by
  induction values generalizing start offset with
  | nil => exact Nat.zero_le _
  | cons value values ih =>
    obtain ⟨hlt, hrest⟩ := List.pairwise_cons.mp hascending
    have hvalue := hstart value List.mem_cons_self
    by_cases hbelow : value < start + offset
    · rw [List.countP_cons_of_pos (by simpa using hbelow)]
      have hoffset : start + offset = (value + 1) + (start + offset - (value + 1)) := by omega
      have hcount := ih hrest (fun other hother => Nat.succ_le_of_lt (hlt other hother))
        (start + offset - (value + 1))
      rw [← hoffset] at hcount
      omega
    · rw [List.countP_cons_of_neg (by simpa using hbelow)]
      have hnone : values.countP (fun value => decide (value < start + offset)) = 0 := by
        rw [List.countP_eq_zero]
        intro other hother
        have := hlt other hother
        simp only [decide_eq_true_eq]
        omega
      omega

/-- A window of the offset and the demand reaches enough addresses, if there are enough. -/
theorem enough_in_pool (htruth : Truthful nautobot ipam)
    (hnetwork : ipam.network target.prefixId = target.network)
    (h : loadPool nautobot parsed target devices = .ok (pool, windowCut))
    (hwindow : parsed.startOffset + parsed.count * devices ≤ availableIpsCap)
    (hfree : parsed.count * devices ≤
      (freeFrom ipam target.prefixId parsed.startOffset).length) :
    parsed.count * devices ≤ pool.length := by
  have hlimit : limitOf parsed devices = parsed.startOffset + parsed.count * devices := by
    have hcap : availableIpsCap ≤ availableIpsCap * 1000 := by decide
    rw [limitOf, windowSize, min_eq_right (hwindow.trans hcap), min_eq_left hwindow]
  rw [loadPool_eq_ok htruth hnetwork h, List.length_map, hlimit]
  rw [freeFrom, hnetwork] at hfree
  by_cases hall : (ipam.free target.prefixId).length ≤
      parsed.startOffset + parsed.count * devices
  · rwa [List.take_of_length_le hall]
  · have hstart : ∀ value ∈ (ipam.free target.prefixId).map (·.value),
        target.network.address ≤ value := by
      intro value hvalue
      obtain ⟨address, haddress, rfl⟩ := List.mem_map.mp hvalue
      rw [← hnetwork]
      exact address_le_of_contains (ipam.inside _ address haddress).1
    have hbelow := countP_below (List.pairwise_map.mpr (ipam.ascending target.prefixId)) hstart
      parsed.startOffset
    rw [List.countP_map] at hbelow
    have htake := (List.take_sublist (parsed.startOffset + parsed.count * devices)
      (ipam.free target.prefixId)).countP_le
        (p := (fun value => decide (value < target.network.address + parsed.startOffset)) ∘
          IpAddress.value)
    have hsplit := List.length_eq_countP_add_countP
      (fun address : IpAddress =>
        decide (target.network.address + parsed.startOffset ≤ address.value))
      (l := (ipam.free target.prefixId).take (parsed.startOffset + parsed.count * devices))
    rw [List.length_take, min_eq_left (Nat.le_of_not_le hall), List.countP_eq_length_filter]
      at hsplit
    have hother : ((ipam.free target.prefixId).take
        (parsed.startOffset + parsed.count * devices)).countP
          (fun address => decide ¬ decide
            (target.network.address + parsed.startOffset ≤ address.value) = true) =
        ((ipam.free target.prefixId).take
          (parsed.startOffset + parsed.count * devices)).countP
            ((fun value => decide (value < target.network.address + parsed.startOffset)) ∘
              IpAddress.value) := by
      apply List.countP_congr
      intro address _
      simp
    omega

end Truth

end Manus.FreeIp
