import Manus.Nautobot.Removal

/-! # Removal neither steals nor orphans addresses

An address is deleted only while all its assignments are on the device that is being removed,
and a device is removed only when none of its addresses would be left without a holder. So an
address that had a holder at the start still has one as long as it exists, and it is gone
once all its holders are.
-/

namespace Manus.RemoveFromNautobot

open Expression

variable {sets : SetOrder} {s s' s₀ : Nautobot} {d ip : String}

section Lists

theorem mem_addNew {ipIds : List String} {ip' : String} :
    ip' ∈ addNew ipIds ip ↔ ip' ∈ ipIds ∨ ip' = ip := by
  unfold addNew
  split
  · next hmem =>
    constructor
    · exact .inl
    · rintro (h | rfl)
      · exact h
      · exact hmem
  · rw [List.mem_append, List.mem_singleton]

theorem mem_foldl_addNew {found ipIds : List String} :
    ip ∈ found.foldl addNew ipIds ↔ ip ∈ ipIds ∨ ip ∈ found := by
  induction found generalizing ipIds with
  | nil => simp
  | cons ip' found ih => rw [List.foldl_cons, ih, mem_addNew, List.mem_cons, or_assoc]

def Exclusive (s : Nautobot) (d ip : String) : Prop :=
  ∀ a ∈ s.assignments, a.ipAddress = ip → s.On d a

theorem on_of_inside {a : Assignment} (hvm : a.isVm = false)
    (h : a.interfaceText ∈ s.interfacesOf d) : s.On d a := by
  unfold Assignment.isVm at hvm
  unfold Assignment.interfaceText at h
  cases hholder : a.holder with
  | interface id =>
    rw [hholder] at h
    exact ⟨id, h, hholder⟩
  | vmInterface id =>
    rw [hholder] at hvm
    cases hvm

theorem inside_of_on {a : Assignment} (h : s.On d a) :
    a.isVm = false ∧ a.interfaceText ∈ s.interfacesOf d := by
  obtain ⟨id, hid, hholder⟩ := h
  unfold Assignment.isVm Assignment.interfaceText
  rw [hholder]
  exact ⟨rfl, hid⟩

/-- The addresses to be deleted are those that the device holds and nobody else. -/
theorem mem_owned : ip ∈ (listDeviceIpIds sets s d).1 ↔
    (∃ a ∈ s.assignments, a.ipAddress = ip ∧ s.On d a) ∧ Exclusive s d ip := by
  have hfound : ip ∈ (sets.order (s.interfacesOf d)).flatMap (fun id =>
      (s.assignments.filter fun a => a.holder = .interface id).map Assignment.ipAddress) ↔
      ∃ a ∈ s.assignments, a.ipAddress = ip ∧ s.On d a := by
    simp only [List.mem_flatMap, sets.mem_order, List.mem_map, List.mem_filter, decide_eq_true_eq]
    constructor
    · rintro ⟨id, hid, a, ⟨ha, hholder⟩, rfl⟩
      exact ⟨a, ha, rfl, id, hid, hholder⟩
    · rintro ⟨a, ha, rfl, id, hid, hholder⟩
      exact ⟨id, hid, a, ⟨ha, hholder⟩, rfl⟩
  simp only [listDeviceIpIds, List.partition_eq_filter_filter, List.mem_filter, mem_foldl_addNew,
    List.not_mem_nil, false_or, hfound, sets.mem_order]
  constructor
  · rintro ⟨hheld, hexclusive⟩
    refine ⟨hheld, fun a ha hip => ?_⟩
    simp only [Bool.and_eq_true, Bool.not_eq_true', List.any_eq_false, List.mem_filter,
      decide_eq_true_eq] at hexclusive
    have hinside := hexclusive.2 a ⟨ha, hip⟩
    simp only [Bool.or_eq_true, decide_eq_true_eq, not_or, not_not, Bool.not_eq_true] at hinside
    exact on_of_inside hinside.1 hinside.2
  · rintro ⟨hheld, hexclusive⟩
    refine ⟨hheld, ?_⟩
    simp only [Bool.and_eq_true, Bool.not_eq_true', List.any_eq_false, List.any_eq_true,
      List.mem_filter, decide_eq_true_eq]
    constructor
    · obtain ⟨a, ha, hip, hon⟩ := hheld
      exact ⟨a, ⟨ha, hip⟩, (inside_of_on hon).2⟩
    · rintro a ⟨ha, hip⟩
      obtain ⟨hvm, hinside⟩ := inside_of_on (hexclusive a ha hip)
      simp [hvm, hinside]

end Lists

section Addresses

structure Fewer (s s' : Nautobot) : Prop where
  devices : s'.devices = s.devices
  interfaces : s'.interfaces = s.interfaces
  addresses : ∀ ip ∈ s'.addresses, ip ∈ s.addresses
  assignments : ∀ a ∈ s'.assignments, a ∈ s.assignments
  kept : ∀ a ∈ s.assignments, a.ipAddress ∈ s'.addresses → a ∈ s'.assignments

theorem Fewer.refl (s : Nautobot) : Fewer s s :=
  ⟨rfl, rfl, fun _ h => h, fun _ h => h, fun _ h _ => h⟩

theorem Fewer.trans {s'' : Nautobot} (h : Fewer s s') (h' : Fewer s' s'') : Fewer s s'' where
  devices := h'.devices.trans h.devices
  interfaces := h'.interfaces.trans h.interfaces
  addresses := fun ip hip => h.addresses ip (h'.addresses ip hip)
  assignments := fun a ha => h.assignments a (h'.assignments a ha)
  kept := fun a ha hip => h'.kept a (h.kept a ha (h'.addresses _ hip)) hip

theorem Fewer.on (h : Fewer s s') (a : Assignment) : s'.On d a ↔ s.On d a := by
  unfold Nautobot.On Nautobot.interfacesOf
  rw [h.interfaces]

theorem Fewer.exclusive (h : Fewer s s') (he : Exclusive s d ip) : Exclusive s' d ip :=
  fun a ha hip => (h.on a).mpr (he a (h.assignments a ha) hip)

theorem fewer_withoutAddress : Fewer s (s.withoutAddress ip) where
  devices := rfl
  interfaces := rfl
  addresses := fun _ h => (List.mem_filter.mp h).1
  assignments := fun _ h => (List.mem_filter.mp h).1
  kept := by
    intro a ha hip
    exact List.mem_filter.mpr ⟨ha, (List.mem_filter.mp hip).2⟩

variable {answers : ℕ → Answer} {w : World}

structure Deletes (d ip : String) (w w' : World) : Prop where
  fewer : Fewer w.nautobot w'.nautobot
  log : ∀ x ∈ w'.deletions, x ∈ w.deletions ∨ x = ⟨w.nautobot, d, ip⟩

theorem deletes_gone (calls : ℕ) : Deletes d ip w {
    nautobot := w.nautobot.withoutAddress ip
    calls
    deletions := w.deletions ++ [⟨w.nautobot, d, ip⟩] } :=
  ⟨fewer_withoutAddress, fun x hx => by simpa using hx⟩

theorem deletes_same (calls : ℕ) : Deletes d ip w { w with calls } :=
  ⟨.refl _, fun _ hx => .inl hx⟩

theorem deleteIpAddress_spec (answers : ℕ → Answer) (d ip : String) (w : World) :
    Deletes d ip w (deleteIpAddress answers d ip w).2 := by
  unfold deleteIpAddress
  split
  · exact deletes_same w.calls
  split
  · exact deletes_same _
  dsimp only
  split
  · exact deletes_gone _
  · split
    · exact deletes_gone _
    · exact deletes_same _

theorem deleteIpAddress_gone (answers : ℕ → Answer) (d ip : String) (w : World)
    (h : ∀ code message, (deleteIpAddress answers d ip w).1 ≠ .error (.other code message)) :
    ip ∉ (deleteIpAddress answers d ip w).2.nautobot.addresses := by
  unfold deleteIpAddress at h ⊢
  split
  · next hvalid =>
    rw [if_pos hvalid] at h
    exact absurd rfl (h _ _)
  · next hvalid =>
    rw [if_neg hvalid] at h
    split
    · next habsent => exact habsent
    · next hpresent =>
      rw [if_neg hpresent] at h
      dsimp only at h ⊢
      split
      · simp [Nautobot.withoutAddress]
      · next hanswer =>
        rw [hanswer] at h
        exact absurd rfl (h _ _)

structure RemovesIps (d : String) (owned : List String) (w : World)
    (result : (List String × Option String) × World) : Prop where
  fewer : Fewer w.nautobot result.2.nautobot
  log : ∀ x ∈ result.2.deletions, x ∈ w.deletions ∨ Exclusive x.before x.device x.ip
  gone : result.1.2 = none → ∀ ip ∈ owned, ip ∉ result.2.nautobot.addresses

theorem RemovesIps.cons {owned : List String} {w' : World} {removed : List String}
    {result : (List String × Option String) × World} (hip : Exclusive w.nautobot d ip)
    (hone : Deletes d ip w w') (hgone : ip ∉ w'.nautobot.addresses)
    (h : RemovesIps d owned w' result) :
    RemovesIps d (ip :: owned) w ((removed, result.1.2), result.2) where
  fewer := hone.fewer.trans h.fewer
  log := by
    rintro x hx
    rcases h.log x hx with hx | hx
    · rcases hone.log x hx with hx | rfl
      · exact .inl hx
      · exact .inr hip
    · exact .inr hx
  gone := by
    rintro hnone ip' hip'
    rcases List.mem_cons.mp hip' with rfl | hip'
    · exact fun hmem => hgone (h.fewer.addresses _ hmem)
    · exact h.gone hnone ip' hip'

theorem removeIps_spec (answers : ℕ → Answer) {owned : List String}
    (h : ∀ ip ∈ owned, Exclusive w.nautobot d ip) :
    RemovesIps d owned w (removeIps answers d owned w) := by
  induction owned generalizing w with
  | nil => exact ⟨.refl _, fun _ hx => .inl hx, by simp⟩
  | cons ip owned ih =>
    have hip := h ip List.mem_cons_self
    have hone := deleteIpAddress_spec answers d ip w
    have hgone := deleteIpAddress_gone answers d ip w
    have hrest := ih fun ip' hip' => hone.fewer.exclusive (h ip' (List.mem_cons_of_mem _ hip'))
    unfold removeIps
    split
    · next hcall =>
      rw [hcall] at hone hgone hrest
      exact hrest.cons hip hone (hgone (by simp))
    · next hcall =>
      rw [hcall] at hone hgone hrest
      exact hrest.cons hip hone (hgone (by simp))
    · next hcall =>
      rw [hcall] at hone
      refine ⟨hone.fewer, fun x hx => ?_, nofun⟩
      rcases hone.log x hx with hx | rfl
      · exact .inl hx
      · exact .inr hip

end Addresses

section Devices

/-- What a step keeps: the rest of what there was at the start, and no address has lost its last
holder. -/
structure Kept (s₀ s : Nautobot) : Prop where
  devices : ∀ d ∈ s.devices, d ∈ s₀.devices
  interfaces : ∀ i d, (i, d) ∈ s.interfaces ↔ (i, d) ∈ s₀.interfaces ∧ d ∈ s.devices
  assignments : ∀ a ∈ s.assignments, a ∈ s₀.assignments ∧ ∀ d, s₀.On d a → d ∈ s.devices
  held : ∀ ip ∈ s.addresses, (∃ a ∈ s₀.assignments, a.ipAddress = ip) →
    ∃ a ∈ s.assignments, a.ipAddress = ip

theorem mem_interfacesOf {i : String} : i ∈ s.interfacesOf d ↔ (i, d) ∈ s.interfaces := by
  simp [Nautobot.interfacesOf]

theorem kept_start (h : s₀.Consistent) : Kept s₀ s₀ where
  devices := fun _ h => h
  interfaces := fun i d => ⟨fun hi => ⟨hi, h.device i d hi⟩, fun hi => hi.1⟩
  assignments := by
    rintro a ha
    refine ⟨ha, fun d hon => ?_⟩
    obtain ⟨i, hi, -⟩ := hon
    exact h.device i d (mem_interfacesOf.mp hi)
  held := fun _ _ h => h

theorem Kept.fewer (h : Kept s₀ s) (hf : Fewer s s') : Kept s₀ s' where
  devices := by
    rw [hf.devices]
    exact h.devices
  interfaces := by
    rw [hf.interfaces, hf.devices]
    exact h.interfaces
  assignments := by
    rw [hf.devices]
    exact fun a ha => h.assignments a (hf.assignments a ha)
  held := by
    rintro ip hip hstart
    obtain ⟨a, ha, rfl⟩ := h.held ip (hf.addresses ip hip) hstart
    exact ⟨a, hf.kept a ha hip, rfl⟩

theorem Kept.withoutDevice (h : Kept s₀ s)
    (hshared : ∀ ip ∈ s.addresses, (∃ a ∈ s.assignments, a.ipAddress = ip) →
      ∃ a ∈ s.assignments, a.ipAddress = ip ∧ ¬ s.On d a) : Kept s₀ (s.withoutDevice d) where
  devices := fun d' hd' => h.devices d' (List.mem_filter.mp hd').1
  interfaces := by
    intro i d'
    simp only [Nautobot.withoutDevice, List.mem_filter, decide_eq_true_eq, h.interfaces, and_assoc]
  assignments := by
    intro a ha
    obtain ⟨ha, hoff⟩ := List.mem_filter.mp ha
    obtain ⟨hstart, hon⟩ := h.assignments a ha
    refine ⟨hstart, fun d' hd' => List.mem_filter.mpr ⟨hon d' hd', ?_⟩⟩
    -- an assignment that is left is not on the device
    rw [decide_eq_true_eq]
    rintro rfl
    obtain ⟨i, hi, hholder⟩ := hd'
    have hi := (h.interfaces i d').mpr ⟨mem_interfacesOf.mp hi, hon d' ⟨i, hi, hholder⟩⟩
    exact of_decide_eq_true hoff ⟨i, mem_interfacesOf.mpr hi, hholder⟩
  held := by
    rintro ip hip hstart
    obtain ⟨a, ha, hip', hoff⟩ := hshared ip hip (h.held ip hip hstart)
    exact ⟨a, List.mem_filter.mpr ⟨ha, decide_eq_true hoff⟩, hip'⟩

variable {answers : ℕ → Answer} {env : LookupEnv} {parsed : ParsedConfig} {nodeId : String}
  {device : DeviceContext} {w : World}

structure Safe (s₀ : Nautobot) (w : World) : Prop where
  kept : Kept s₀ w.nautobot
  exclusive : ∀ x ∈ w.deletions, Exclusive x.before x.device x.ip

theorem deleteDevice_safe (h : Safe s₀ w)
    (hshared : ∀ ip ∈ w.nautobot.addresses, (∃ a ∈ w.nautobot.assignments, a.ipAddress = ip) →
      ∃ a ∈ w.nautobot.assignments, a.ipAddress = ip ∧ ¬ w.nautobot.On d a) :
    Safe s₀ (deleteDevice answers d w).2 := by
  have hgone := h.kept.withoutDevice hshared
  unfold deleteDevice
  split
  · exact h
  split
  · exact ⟨h.kept, h.exclusive⟩
  dsimp only
  split
  · exact ⟨hgone, h.exclusive⟩
  · split
    · exact ⟨hgone, h.exclusive⟩
    · exact ⟨h.kept, h.exclusive⟩

theorem finishRemoval_snd {removed : List String} {skipped : ℕ} :
    (finishRemoval answers nodeId device d removed skipped w).2 = (deleteDevice answers d w).2 := by
  unfold finishRemoval
  split <;> simp_all

theorem removeResolved_safe (hflag : parsed.removeIpAddresses = true) (h : Safe s₀ w) :
    Safe s₀ (removeResolved sets answers parsed nodeId device d w).2 := by
  unfold removeResolved
  split
  · exact h
  have hexclusive : ∀ ip ∈ (listDeviceIpIds sets w.nautobot d).1, Exclusive w.nautobot d ip :=
    fun ip hip => (mem_owned.mp hip).2
  have hips := removeIps_spec answers hexclusive
  have hsafe : Safe s₀ (removeIps answers d (listDeviceIpIds sets w.nautobot d).1 w).2 :=
    ⟨h.kept.fewer hips.fewer, fun x hx => (hips.log x hx).elim (h.exclusive x) id⟩
  dsimp only
  split
  · next hloop =>
    rw [hloop] at hsafe
    exact hsafe
  · next removed w' hloop =>
    rw [hloop] at hsafe hips
    rw [finishRemoval_snd]
    apply deleteDevice_safe hsafe
    -- an address with all its assignments on the device was one to delete, and is gone
    rintro ip hip ⟨a, ha, rfl⟩
    by_contra hall
    have hon : ∀ b ∈ w'.nautobot.assignments, b.ipAddress = a.ipAddress →
        w.nautobot.On d b := fun b hb hsame =>
      (hips.fewer.on b).mp (not_not.mp fun hoff => hall ⟨b, hb, hsame, hoff⟩)
    have howned : a.ipAddress ∈ (listDeviceIpIds sets w.nautobot d).1 :=
      mem_owned.mpr ⟨⟨a, hips.fewer.assignments a ha, rfl, hon a ha rfl⟩,
        fun b hb hsame => hon b (hips.fewer.kept b hb (hsame ▸ hip)) hsame⟩
    exact hips.gone rfl _ howned hip

theorem remove_safe (hflag : parsed.removeIpAddresses = true) (h : Safe s₀ w) :
    Safe s₀ (remove sets answers env parsed nodeId device w).2 := by
  unfold remove
  split
  · exact h
  · exact h
  · exact removeResolved_safe hflag h

theorem removeAll_safe (hflag : parsed.removeIpAddresses = true) (h : Safe s₀ w)
    (devices : List DeviceContext) :
    Safe s₀ (removeAll sets answers env parsed nodeId devices w).2 := by
  induction devices generalizing w with
  | nil => exact h
  | cons device devices ih => exact ih (remove_safe hflag h)

theorem Safe.released (h : Safe s₀ w) (hheld : ∃ a ∈ s₀.assignments, a.ipAddress = ip)
    (hgone : ∀ a ∈ s₀.assignments, a.ipAddress = ip → ∃ d, s₀.On d a ∧ d ∉ w.nautobot.devices) :
    ip ∉ w.nautobot.addresses := by
  intro hip
  obtain ⟨a, ha, hsame⟩ := h.kept.held ip hip hheld
  obtain ⟨hstart, hstays⟩ := h.kept.assignments a ha
  obtain ⟨d, hon, hremoved⟩ := hgone a hstart hsame
  exact hremoved (hstays d hon)

end Devices

section Outcomes

variable {answers : ℕ → Answer} {env : LookupEnv} {parsed : ParsedConfig} {nodeId : String}
  {devices : List DeviceContext} {w : World}

/-- The expression for the id of a device is resolved without an exception. -/
def Resolves (env : LookupEnv) (parsed : ParsedConfig) (device : DeviceContext) : Prop :=
  ∃ value, resolveUpdateFieldExpression env device "device_id" parsed.deviceIdExpression none =
    .ok value

theorem remove_eq_ok_iff {device : DeviceContext} :
    (∃ removal, (remove sets answers env parsed nodeId device w).1 = .ok removal) ↔
      Resolves env parsed device := by
  have hresolve : (∃ found, resolveDeviceUuid env parsed device = .ok found) ↔
      Resolves env parsed device := by
    unfold Resolves resolveDeviceUuid
    cases resolveUpdateFieldExpression env device "device_id" parsed.deviceIdExpression none with
    | error e => simp [bind, Except.bind]
    | ok value =>
      refine iff_of_true ?_ ⟨value, rfl⟩
      simp only [bind, Except.bind]
      split
      · exact ⟨_, rfl⟩
      · split
        · exact ⟨_, rfl⟩
        · split
          · exact ⟨_, rfl⟩
          · split <;> exact ⟨_, rfl⟩
  rw [← hresolve, remove]
  split
  · next hraised => simp [hraised]
  · next hrefused => exact iff_of_true ⟨_, rfl⟩ ⟨_, hrefused⟩
  · next hfound => exact iff_of_true ⟨_, rfl⟩ ⟨_, hfound⟩

theorem removeAll_eq_ok_iff :
    (∃ removals, (removeAll sets answers env parsed nodeId devices w).1.mapM id = .ok removals) ↔
      ∀ device ∈ devices, Resolves env parsed device := by
  rw [exists_mapM_eq_ok]
  induction devices generalizing w with
  | nil => simp [removeAll]
  | cons device devices ih =>
    rw [removeAll, List.forall_mem_cons, List.forall_mem_cons, ← ih, ← remove_eq_ok_iff]
    rfl

theorem length_removeAll :
    (removeAll sets answers env parsed nodeId devices w).1.length = devices.length := by
  induction devices generalizing w with
  | nil => rfl
  | cons device devices ih =>
    unfold removeAll
    dsimp only
    rw [List.length_cons, List.length_cons, ih]

theorem mem_keys_bucket {success : Bool} {removals : List Removal} {id : String} :
    id ∈ (bucket success devices removals).keys ↔
      ∃ r ∈ devices.zip removals, r.2.success = success ∧ r.1.id = id := by
  simp only [bucket, Dict.mem_keys_ofPairs, List.mem_map, List.mem_filter, decide_eq_true_eq]
  constructor
  · rintro ⟨_, ⟨r, ⟨hr, hsuccess⟩, rfl⟩, rfl⟩
    exact ⟨r, hr, hsuccess, rfl⟩
  · rintro ⟨r, hr, hsuccess, rfl⟩
    exact ⟨_, ⟨r, ⟨hr, hsuccess⟩, rfl⟩, rfl⟩

/-- With different ids, each device is in exactly one bucket. -/
theorem bucket_exactly_one {removals : List Removal} (hlength : removals.length = devices.length)
    (hids : (devices.map DeviceContext.id).Nodup) {device : DeviceContext}
    (h : device ∈ devices) :
    Xor (device.id ∈ (bucket true devices removals).keys)
      (device.id ∈ (bucket false devices removals).keys) := by
  have hfirst : (devices.zip removals).map Prod.fst = devices :=
    List.map_fst_zip hlength.symm.le
  have hnodup : ((devices.zip removals).map fun r => r.1.id).Nodup := by
    rwa [show (fun r : DeviceContext × Removal => r.1.id) = DeviceContext.id ∘ Prod.fst from rfl,
      ← List.map_map, hfirst]
  have hunique := List.inj_on_of_nodup_map hnodup
  rw [← hfirst, List.mem_map] at h
  obtain ⟨r, hr, rfl⟩ := h
  have honly : ∀ success, r.1.id ∈ (bucket success devices removals).keys ↔
      r.2.success = success := by
    intro success
    rw [mem_keys_bucket]
    constructor
    · rintro ⟨r', hr', rfl, hid⟩
      rw [hunique hr' hr hid]
    · rintro rfl
      exact ⟨r, hr, rfl, rfl⟩
  rw [honly, honly]
  cases r.2.success
  · exact .inr ⟨rfl, nofun⟩
  · exact .inl ⟨rfl, nofun⟩

/-- A step that removes addresses with its devices: what is deleted is held by the device alone,
and what has lost all its holders is deleted. Each device leaves by one outcome exactly when the
expression is resolved for all of them without an exception. -/
theorem removal_safe (sets : SetOrder) (answers : ℕ → Answer) (env : LookupEnv)
    (parsed : ParsedConfig) (nodeId : String) (context : WorkflowContext) (s : Nautobot)
    (hs : s.Consistent) (hflag : parsed.removeIpAddresses = true)
    (hids : (context.devices.values.map DeviceContext.id).Nodup) :
    ∃ outcomes w, execute sets answers env parsed nodeId context s = (outcomes, w) ∧
      (∀ x ∈ w.deletions, Exclusive x.before x.device x.ip) ∧
      (∀ ip, (∃ a ∈ s.assignments, a.ipAddress = ip) →
        (∀ a ∈ s.assignments, a.ipAddress = ip → ∃ d, s.On d a ∧ d ∉ w.nautobot.devices) →
        ip ∉ w.nautobot.addresses) ∧
      ((∃ success failure, outcomes = .ok [⟨"success", success⟩, ⟨"failure", failure⟩] ∧
        ∀ device ∈ context.devices.values,
          Xor (device.id ∈ success.devices.keys) (device.id ∈ failure.devices.keys)) ↔
        ∀ device ∈ context.devices.values, Resolves env parsed device) := by
  have hstart : Safe s { nautobot := s } := ⟨kept_start hs, by simp⟩
  have hsafe : Safe s (execute sets answers env parsed nodeId context s).2 :=
    removeAll_safe hflag hstart context.devices.values
  refine ⟨_, _, rfl, hsafe.exclusive, fun ip => hsafe.released, ?_⟩
  have hok : (∃ removals, (removeAll sets answers env parsed nodeId context.devices.values
        { nautobot := s }).1.mapM id = .ok removals) ↔ _ := removeAll_eq_ok_iff
  rw [← hok]
  constructor
  · rintro ⟨success, failure, houtcomes, -⟩
    obtain ⟨removals, hremovals, -⟩ := map_eq_ok.mp houtcomes
    exact ⟨removals, hremovals⟩
  · rintro ⟨removals, hremovals⟩
    refine ⟨_, _, map_eq_ok.mpr ⟨removals, hremovals, rfl⟩, fun device hdevice => ?_⟩
    exact bucket_exactly_one ((length_of_mapM hremovals).trans length_removeAll) hids hdevice

def firstId : String := "00000000-0000-4000-8000-000000000001"

def secondId : String := "00000000-0000-4000-8000-000000000002"

def sharing : Nautobot where
  devices := [firstId, secondId]
  interfaces := [("eth1", firstId), ("eth2", secondId)]
  addresses := ["00000000-0000-4000-8000-00000000000a"]
  assignments := [⟨"00000000-0000-4000-8000-00000000000a", .interface "eth1"⟩,
    ⟨"00000000-0000-4000-8000-00000000000a", .interface "eth2"⟩]

def sharingContext : WorkflowContext where
  runId := "run"
  workflowId := "workflow"
  devices := Dict.ofPairs [(firstId, { id := firstId, name := "a", hostname := "a" }),
    (secondId, { id := secondId, name := "b", hostname := "b" })]

theorem consistent_sharing : sharing.Consistent where
  owner := by
    rintro i d d' h h'
    rcases List.mem_pair.mp h with h | h <;> rcases List.mem_pair.mp h' with h' | h' <;> simp_all
  device := by
    rintro i d h
    rcases List.mem_pair.mp h with h | h <;> simp_all [sharing]
  interface := by simp [sharing]
  address := by simp [sharing]

/-- The second of two holders takes the address with it. -/
theorem removal_safe_sharing :
    "00000000-0000-4000-8000-00000000000a" ∉ (execute ⟨id, fun _ _ => .rfl⟩ (fun _ => .done)
      ⟨"t", "d", none⟩ ⟨"{device.id}", true⟩ "n1" sharingContext sharing).2.nautobot.addresses := by
  obtain ⟨outcomes, w, hrun, -, hgone, -⟩ := removal_safe ⟨id, fun _ _ => .rfl⟩
    (fun _ => .done) ⟨"t", "d", none⟩ ⟨"{device.id}", true⟩ "n1" sharingContext sharing
    consistent_sharing rfl (by decide +kernel)
  have hdevices : w.nautobot.devices = [] := by
    rw [show w = _ from (congrArg Prod.snd hrun).symm]
    decide +kernel
  rw [hrun]
  apply hgone
  · exact ⟨_, List.mem_cons_self, rfl⟩
  · rintro a ha -
    rw [hdevices]
    rcases List.mem_pair.mp ha with rfl | rfl
    · exact ⟨firstId, by decide, List.not_mem_nil⟩
    · exact ⟨secondId, by decide, List.not_mem_nil⟩

end Outcomes

section LongPath

/-- A path with a list position of so many digits. -/
def longPath (digits : ℕ) : List Char :=
  'x' :: '.' :: 'l' :: '[' :: (List.replicate digits '0' ++ "].id".toList)

variable {digits : ℕ}

theorem takeWhile_zeros (digits : ℕ) {p : Char → Bool} (hp : p '0' = true) (rest : List Char) :
    (List.replicate digits '0' ++ rest).takeWhile p =
      List.replicate digits '0' ++ rest.takeWhile p ∧
    (List.replicate digits '0' ++ rest).dropWhile p = rest.dropWhile p := by
  have hall : ∀ c ∈ List.replicate digits '0', p c = true := by
    intro c hc
    rwa [List.eq_of_mem_replicate hc]
  exact ⟨List.takeWhile_append_of_pos hall, List.dropWhile_append_of_pos hall⟩

theorem pathSegments_longPath (hne : digits ≠ 0) :
    pathSegments ('l' :: '[' :: (List.replicate digits '0' ++ "].id".toList)) =
      [.index "l" (List.replicate digits '0'), .key "id"] := by
  have hplain : ∀ c ∈ List.replicate digits '0', isBracket c = false := by
    intro c hc
    rw [List.eq_of_mem_replicate hc]
    rfl
  have hdecimal : (List.replicate digits '0').all (fun c => (decimalDigit? c).isSome) = true := by
    rw [List.all_eq_true]
    intro c hc
    rw [List.eq_of_mem_replicate hc]
    decide
  have hsplit : splitPathSegments 0 []
        ('l' :: '[' :: (List.replicate digits '0' ++ "].id".toList)) =
      ['l' :: '[' :: (List.replicate digits '0' ++ [']']), "id".toList] := by
    have hword : splitPathSegments 1 ['l', '['] (List.replicate digits '0' ++ "].id".toList) =
        splitPathSegments 1 (['l', '['] ++ List.replicate digits '0') "].id".toList :=
      splitPathSegments_word hplain
        (fun hdot => absurd (List.eq_of_mem_replicate hdot) (by decide))
    simpa [splitPathSegments] using hword
  have hselector : selectorOf ('l' :: '[' :: (List.replicate digits '0' ++ [']'])) =
      some (['l'], List.replicate digits '0') := by
    have hkeys := takeWhile_zeros digits (p := fun c => !isBracket c) rfl [']']
    have hl : (!isBracket 'l') = true := rfl
    have hopen : (!isBracket '[') = false := rfl
    have hclose : (!isBracket ']') = false := rfl
    simp [selectorOf, hl, hopen, hkeys, hclose]
  have hequals := takeWhile_zeros digits (p := (· ≠ '=')) (by decide) []
  rw [List.append_nil] at hequals
  rw [pathSegments, hsplit, List.map_cons, pathSegment, hselector]
  dsimp only
  have hzeros : List.replicate digits '0' ≠ [] := by rwa [ne_eq, List.replicate_eq_nil_iff]
  rw [hequals.2]
  simp only [List.dropWhile_nil, hzeros, ne_eq, not_false_eq_true, hdecimal, and_self, if_true]
  rfl

theorem not_mem_longPath {c : Char} (h : c ∉ "x.l[0].id".toList) : c ∉ longPath digits := by
  intro hmem
  apply h
  simp only [longPath, List.mem_cons, List.mem_append] at hmem
  rcases hmem with rfl | rfl | rfl | rfl | hmem | hmem
  · decide
  · decide
  · decide
  · decide
  · rw [List.eq_of_mem_replicate hmem]
    decide
  · have htail : "].id".toList ⊆ "x.l[0].id".toList := by simp
    exact htail hmem

theorem pyStrip_longPath : pyStrip (longPath digits) = longPath digits := by
  simp [pyStrip, longPath, isPySpace]

theorem matchBraceExpression_longPath :
    matchBraceExpression ('{' :: (longPath digits ++ ['}'])) = some (longPath digits, none) := by
  have hinside : ∀ c ∈ longPath digits, (c ≠ '}' && c ≠ '|') = true := by
    intro c hc
    have hbrace : c ≠ '}' := by
      rintro rfl
      exact not_mem_longPath (by decide) hc
    have hbar : c ≠ '|' := by
      rintro rfl
      exact not_mem_longPath (by decide) hc
    simp [hbrace, hbar]
  have hpath : longPath digits ≠ [] := List.cons_ne_nil _ _
  simp only [matchBraceExpression, List.takeWhile_append_of_pos hinside,
    List.dropWhile_append_of_pos hinside, List.takeWhile_cons, List.dropWhile_cons]
  simp [hpath, pyStrip_longPath]

def longPathDevice : DeviceContext where
  id := firstId
  name := "a"
  hostname := "a"
  attributeBags := Dict.ofPairs [("x", Dict.ofPairs [("l", .arr [])])]

theorem resolveDeviceAttribute_longPath (hlong : maxStrDigits < digits) :
    resolveDeviceAttribute longPathDevice none (longPath digits) =
      .error (.valueError digitLimitMessage) := by
  have hplain : plainPath (longPath digits) = some (longPath digits) := by
    have hopen : '{' ∉ longPath digits := not_mem_longPath (by decide)
    have hne : longPath digits ≠ [] := List.cons_ne_nil _ _
    rw [plainPath, pyStrip_longPath, if_neg (not_or.mpr ⟨hopen, hne⟩)]
  have hindex : indexOf (List.replicate digits '0') = .error (.valueError digitLimitMessage) := by
    rw [indexOf, List.length_replicate, if_pos hlong]
  have hcut : cutAtDot (longPath digits) =
      some ("x", 'l' :: '[' :: (List.replicate digits '0' ++ "].id".toList)) := by
    simp [cutAtDot, longPath]
  have hbag : namespaceBag longPathDevice none "x" = some (.obj [("l", .arr [])]) := by decide
  rw [resolveDeviceAttribute_plain (not_mem_longPath (by decide)), hplain, Option.elim_some,
    resolveExpandedAttribute, resolveExpandedWith, hcut]
  simp only [hbag, pathSegments_longPath (Nat.ne_zero_of_lt hlong), traversePath,
    List.foldlM_cons, stepInto, hindex]
  rfl

def longPathConfig (digits : ℕ) : ParsedConfig :=
  ⟨String.ofList ('{' :: (longPath digits ++ ['}'])), true⟩

theorem longPath_raises (env : LookupEnv) (hlong : maxStrDigits < digits) :
    resolveUpdateFieldExpression env longPathDevice "device_id"
      (longPathConfig digits).deviceIdExpression none = .error (.valueError digitLimitMessage) := by
  have hstrip :
      pyStrip ('{' :: (longPath digits ++ ['}'])) = '{' :: (longPath digits ++ ['}']) := by
    simp [pyStrip, isPySpace]
  have horigin : longPath digits ≠ "nautobot.origin".toList := by
    intro heq
    exact absurd (List.cons.inj heq).1 (by decide)
  rw [resolveUpdateFieldExpression, longPathConfig, String.toList_ofList, hstrip]
  simp only [matchBraceExpression_longPath, if_neg horigin, resolveAttributePath,
    resolveDeviceAttribute_longPath hlong]
  rfl

def longPathContext : WorkflowContext :=
  { sharingContext with devices := Dict.ofPairs [(firstId, longPathDevice)] }

theorem execute_longPath (hlong : maxStrDigits < digits) :
    (execute ⟨id, fun _ _ => .rfl⟩ (fun _ => .done) ⟨"t", "d", none⟩ (longPathConfig digits) "n1"
      longPathContext sharing).1 = .error (.valueError digitLimitMessage) := by
  have hdevices : longPathContext.devices.values = [longPathDevice] := rfl
  have hresolve : resolveDeviceUuid ⟨"t", "d", none⟩ (longPathConfig digits) longPathDevice =
      .error (.valueError digitLimitMessage) := by
    rw [resolveDeviceUuid, longPath_raises _ hlong]
    rfl
  simp only [execute, hdevices, removeAll, remove, hresolve]
  rfl

/-- An expression that cannot be resolved leaves the step without outcomes. -/
theorem longPath_stops : sharing.Consistent ∧ longPathDevice ∈ longPathContext.devices.values ∧
    (execute ⟨id, fun _ _ => .rfl⟩ (fun _ => .done) ⟨"t", "d", none⟩ (longPathConfig 4301) "n1"
      longPathContext sharing).1 = .error (.valueError digitLimitMessage) :=
  ⟨consistent_sharing, List.mem_cons_self, execute_longPath (by decide)⟩

end LongPath

end Manus.RemoveFromNautobot
