import Manus.Nautobot.HandedOut

/-! # Distinct addresses

What is handed out is read off the free addresses that Nautobot holds: the devices of a
prefix get the first of them, from the offset on, in the order of the devices. No address is
given twice exactly if no two prefixes reach a common free address.
-/

namespace Manus.FreeIp

open Expression

section Offers

variable (attributes : Attributes) (parsed : ParsedConfig) (nautobot : Nautobot) (nodeId : String)
  (ipam : Ipam) (devices : Devices)

def targetOf (device : DeviceContext) : Option Target :=
  match route attributes parsed nautobot nodeId device with
  | .ok (.waits target) => some target
  | _ => none

def membersOf (prefixId : String) : List DeviceContext :=
  devices.all.values.filter fun device =>
    (targetOf attributes parsed nautobot nodeId device).any fun target =>
      target.prefixId = prefixId

def answerOf (prefixId : String) : Except Problem (List Json) :=
  fetchAvailableIps nautobot prefixId
    (limitOf parsed (membersOf attributes parsed nautobot nodeId devices prefixId).length)

def offered (prefixId : String) : List IpAddress :=
  match answerOf attributes parsed nautobot nodeId devices prefixId with
  | .error _ => []
  | .ok _ => ((ipam.free prefixId).take (limitOf parsed
      (membersOf attributes parsed nautobot nodeId devices prefixId).length)).filter fun address =>
        decide ((ipam.network prefixId).address + parsed.startOffset ≤ address.value)

/-- The free addresses of a prefix that its devices use up: as many devices as can be served get
`count` of them each. -/
def reached (prefixId : String) : List IpAddress :=
  let free := offered attributes parsed nautobot nodeId ipam devices prefixId
  free.take (min (membersOf attributes parsed nautobot nodeId devices prefixId).length
    (free.length / parsed.count) * parsed.count)

def textsFor (prefixId : String) (i : ℕ) : List String :=
  chunk ((offered attributes parsed nautobot nodeId ipam devices prefixId).map IpAddress.text)
    parsed.count i

/-- What the step is for: every device leaves by one exit, with its own addresses or as a failure,
and with addresses if there are enough. -/
structure HandedOut (placed : Dict Placed) : Prop where
  leaves : ∀ device ∈ devices.all.values, ∃ outcome, placed.get? device.id = some outcome
  success : ∀ device ∈ devices.all.values, ∀ addresses updated,
    placed.get? device.id = some (.given addresses updated) →
      (bucket placed devices true).get? device.id = some updated ∧
      (bucket placed devices false).get? device.id = none ∧
      attributes.set device (assignedValue parsed addresses) = .ok updated ∧
      addresses.length = parsed.count ∧ addresses.Nodup
  failure : ∀ device ∈ devices.all.values, ∀ updated,
    placed.get? device.id = some (.failed updated) →
      (bucket placed devices true).get? device.id = none ∧
      (bucket placed devices false).get? device.id = some updated
  inside : ∀ device ∈ devices.all.values, ∀ addresses updated,
    placed.get? device.id = some (.given addresses updated) →
      ∃ target, targetOf attributes parsed nautobot nodeId device = some target ∧
        ∀ text ∈ addresses, ∃ address : IpAddress, text = address.text ∧
          target.network.contains address = true ∧
          target.network.address + parsed.startOffset ≤ address.value
  once : ∀ device ∈ devices.all.values, ∀ other ∈ devices.all.values, device.id ≠ other.id →
    ∀ addresses updated addresses' updated',
      placed.get? device.id = some (.given addresses updated) →
      placed.get? other.id = some (.given addresses' updated') → addresses.Disjoint addresses'
  enough : ∀ device ∈ devices.all.values, ∀ target,
    targetOf attributes parsed nautobot nodeId device = some target →
    (answerOf attributes parsed nautobot nodeId devices target.prefixId).isOk = true →
    parsed.startOffset + parsed.count *
      (membersOf attributes parsed nautobot nodeId devices target.prefixId).length ≤
        availableIpsCap →
    parsed.count * (membersOf attributes parsed nautobot nodeId devices target.prefixId).length ≤
      (freeFrom ipam target.prefixId parsed.startOffset).length →
      ∃ addresses updated, placed.get? device.id = some (.given addresses updated)

/-- No expression of a device raises, what a device is given can be stored on it, and two prefixes
reach no common free address. -/
structure Undisturbed : Prop where
  resolves : ∀ device ∈ devices.all.values, (resolveGroupKey attributes parsed device).isOk = true
  stores : ∀ prefixId i device,
    (membersOf attributes parsed nautobot nodeId devices prefixId)[i]? = some device →
    (i + 1) * parsed.count ≤
      (offered attributes parsed nautobot nodeId ipam devices prefixId).length →
    (attributes.set device (assignedValue parsed
      (textsFor attributes parsed nautobot nodeId ipam devices prefixId i))).isOk = true
  apart : ∀ prefixId other, prefixId ≠ other →
    (reached attributes parsed nautobot nodeId ipam devices prefixId).Disjoint
      (reached attributes parsed nautobot nodeId ipam devices other)

end Offers

section Routes

variable {attributes : Attributes} {parsed : ParsedConfig} {nautobot : Nautobot} {nodeId : String}
  {devices : Devices} {routed : List (DeviceContext × Routed)}

theorem route_isOk (nautobot : Nautobot) (nodeId : String) (device : DeviceContext) :
    (∃ step, route attributes parsed nautobot nodeId device = .ok step) ↔
      (resolveGroupKey attributes parsed device).isOk = true := by
  constructor
  · rintro ⟨step, h⟩
    obtain ⟨found, hfound, -⟩ := bind_eq_ok.mp h
    rw [hfound]
    rfl
  · intro h
    obtain ⟨found, hfound⟩ := isOk_iff.mp h
    simp only [route, hfound, bind, Except.bind]
    cases found with
    | error why => exact ⟨_, rfl⟩
    | ok key =>
      dsimp only
      cases resolveTarget nautobot parsed.prefixExpression key with
      | error problem => exact ⟨_, rfl⟩
      | ok target => exact ⟨_, rfl⟩

theorem routeAll_isOk :
    (∃ routed, routeAll attributes parsed nautobot nodeId devices = .ok routed) ↔
      ∀ device ∈ devices.all.values, (resolveGroupKey attributes parsed device).isOk = true := by
  rw [routeAll, exists_mapM_eq_ok]
  apply forall₂_congr
  intro device _
  rw [← route_isOk nautobot nodeId device]
  simp [map_eq_ok]

theorem targetOf_eq_some {device : DeviceContext} {target : Target} :
    targetOf attributes parsed nautobot nodeId device = some target ↔
      route attributes parsed nautobot nodeId device = .ok (.waits target) := by
  unfold targetOf
  split
  · next found h =>
    rw [h]
    simp
  · next hnot =>
    constructor
    · intro h
      cases h
    · intro h
      exact absurd h (hnot target)

theorem mem_membersOf {prefixId : String} {device : DeviceContext} :
    device ∈ membersOf attributes parsed nautobot nodeId devices prefixId ↔
      device ∈ devices.all.values ∧ ∃ target,
        targetOf attributes parsed nautobot nodeId device = some target ∧
          target.prefixId = prefixId := by
  simp [membersOf, Option.any_eq_true]

theorem waiting_eq_membersOf
    (h : routeAll attributes parsed nautobot nodeId devices = .ok routed) (prefixId : String) :
    (waiting routed prefixId).map Prod.snd =
      membersOf attributes parsed nautobot nodeId devices prefixId := by
  obtain ⟨hfirst, hroute⟩ := routeAll_eq_ok h
  rw [membersOf, ← hfirst]
  clear h hfirst
  induction routed with
  | nil => rfl
  | cons entry routed ih =>
    obtain ⟨device, step⟩ := entry
    obtain ⟨hdevice, hrest⟩ := List.forall_mem_cons.mp hroute
    have hmembers := ih hrest
    cases step with
    | failed updated =>
      have htarget : targetOf attributes parsed nautobot nodeId device = none := by
        rw [targetOf, hdevice]
      simpa [waiting, htarget] using hmembers
    | waits target =>
      have htarget := targetOf_eq_some.mpr hdevice
      by_cases hid : target.prefixId = prefixId
      · simpa [waiting, htarget, hid] using hmembers
      · simpa [waiting, htarget, hid] using hmembers

theorem mem_routed (h : routeAll attributes parsed nautobot nodeId devices = .ok routed)
    {device : DeviceContext} (hdevice : device ∈ devices.all.values) :
    ∃ step, (device, step) ∈ routed ∧
      route attributes parsed nautobot nodeId device = .ok step := by
  obtain ⟨hfirst, hroute⟩ := routeAll_eq_ok h
  rw [← hfirst] at hdevice
  obtain ⟨⟨other, step⟩, hmem, rfl⟩ := List.mem_map.mp hdevice
  exact ⟨step, hmem, hroute _ hmem⟩

end Routes

section Service

variable {attributes : Attributes} {parsed : ParsedConfig} {nautobot : Nautobot} {nodeId : String}
  {ipam : Ipam} {devices : Devices} {placed : Dict Placed} {prefixId : String}

def poolOf (parsed : ParsedConfig) (nautobot : Nautobot)
    (group : Target × List DeviceContext) : List String :=
  match loadPool nautobot parsed group.1 group.2.length with
  | .ok (pool, _) => pool
  | .error _ => []

theorem serveGroup_placed {group : Target × List DeviceContext} {entries : List (String × Placed)}
    (h : serveGroup attributes parsed nodeId nautobot group = .ok entries) {i : ℕ}
    {device : DeviceContext} (hdevice : group.2[i]? = some device) :
    ∃ outcome, entries[i]? = some (device.id, outcome) ∧
      PlacedAt attributes parsed (poolOf parsed nautobot group) i device outcome := by
  unfold serveGroup at h
  unfold poolOf
  cases hload : loadPool nautobot parsed group.1 group.2.length with
  | error problem =>
    rw [hload] at h
    cases h
    refine ⟨.failed (failed nodeId device problem), by simp [hdevice], Or.inr ⟨?_, _, rfl⟩⟩
    exact Nat.mul_pos i.succ_pos parsed.count_pos
  | ok answer =>
    obtain ⟨pool, windowCut⟩ := answer
    rw [hload] at h
    have hzero := h
    rw [← Nat.zero_mul parsed.count] at hzero
    have hplaced := (serveMembers_placed hzero).2 i device hdevice
    rwa [Nat.zero_add] at hplaced

theorem serveGroup_isOk {group : Target × List DeviceContext} :
    (∃ entries, serveGroup attributes parsed nodeId nautobot group = .ok entries) ↔
      ∀ i device, group.2[i]? = some device →
        (i + 1) * parsed.count ≤ (poolOf parsed nautobot group).length →
        (attributes.set device (assignedValue parsed
          (chunk (poolOf parsed nautobot group) parsed.count i))).isOk = true := by
  unfold serveGroup poolOf
  cases loadPool nautobot parsed group.1 group.2.length with
  | error problem =>
    constructor
    · intro _ i device _ hi
      exact absurd (Nat.mul_pos i.succ_pos parsed.count_pos) (Nat.not_lt.mpr hi)
    · intro _
      exact ⟨_, rfl⟩
  | ok answer =>
    obtain ⟨pool, windowCut⟩ := answer
    have hserve := @serveMembers_ok_iff attributes parsed nodeId group.1 pool windowCut group.2 0
    simp only [Nat.zero_mul, Nat.zero_add] at hserve
    simp only [isOk_iff]
    exact hserve

theorem network_of_target (htruth : Truthful nautobot ipam) {device : DeviceContext}
    {target : Target} (h : targetOf attributes parsed nautobot nodeId device = some target) :
    ipam.network target.prefixId = target.network := by
  obtain ⟨found, hfound, hroute⟩ := bind_eq_ok.mp (targetOf_eq_some.mp h)
  cases found with
  | error why => cases hroute
  | ok key =>
    dsimp only at hroute
    cases htarget : resolveTarget nautobot parsed.prefixExpression key with
    | error problem =>
      rw [htarget] at hroute
      cases hroute
    | ok found =>
      rw [htarget] at hroute
      cases hroute
      exact htruth.network _ _ _ htarget

/-- The pool of a prefix has the texts of what is offered. -/
theorem texts_offered (htruth : Truthful nautobot ipam) (group : Target × List DeviceContext)
    (hnetwork : ipam.network group.1.prefixId = group.1.network)
    (hmembers : group.2 = membersOf attributes parsed nautobot nodeId devices group.1.prefixId) :
    poolOf parsed nautobot group =
      (offered attributes parsed nautobot nodeId ipam devices group.1.prefixId).map
        IpAddress.text := by
  unfold poolOf offered
  rw [← hmembers]
  have hanswer : answerOf attributes parsed nautobot nodeId devices group.1.prefixId =
      fetchAvailableIps nautobot group.1.prefixId (limitOf parsed group.2.length) := by
    rw [answerOf, hmembers]
  rw [hanswer]
  cases hload : loadPool nautobot parsed group.1 group.2.length with
  | error problem =>
    cases hfetch : fetchAvailableIps nautobot group.1.prefixId (limitOf parsed group.2.length) with
    | error problem => rfl
    | ok items =>
      rw [limitOf] at hfetch
      simp only [loadPool, hfetch, bind, Except.bind] at hload
      cases hload
  | ok answer =>
    obtain ⟨pool, windowCut⟩ := answer
    obtain ⟨items, hitems, -⟩ := bind_eq_ok.mp hload
    have hfetch : fetchAvailableIps nautobot group.1.prefixId (limitOf parsed group.2.length) =
      .ok items := hitems
    rw [hfetch, hnetwork]
    exact loadPool_eq_ok htruth hnetwork hload

theorem outcomeByDevice_eq_ok :
    outcomeByDevice attributes parsed nautobot nodeId devices = .ok placed ↔
      ∃ routed served, routeAll attributes parsed nautobot nodeId devices = .ok routed ∧
        (groupsOf routed).values.mapM (serveGroup attributes parsed nodeId nautobot) = .ok served ∧
        placed = Dict.ofPairs (failedAtOnce routed ++ served.flatten) := by
  simp only [outcomeByDevice, bind_eq_ok]
  constructor
  · rintro ⟨routed, hrouted, served, hserved, h⟩
    cases h
    exact ⟨routed, served, hrouted, hserved, rfl⟩
  · rintro ⟨routed, served, hrouted, hserved, rfl⟩
    exact ⟨routed, hrouted, served, hserved, rfl⟩

theorem group_of_prefix (htruth : Truthful nautobot ipam)
    {routed : List (DeviceContext × Routed)}
    (hrouted : routeAll attributes parsed nautobot nodeId devices = .ok routed)
    {group : Target × List DeviceContext} (hgroup : (groupsOf routed).get? prefixId = some group) :
    group.2 = membersOf attributes parsed nautobot nodeId devices prefixId ∧
      poolOf parsed nautobot group =
        (offered attributes parsed nautobot nodeId ipam devices prefixId).map IpAddress.text := by
  obtain ⟨hmembers, rfl, first, hfirst⟩ := get?_groupsOf_eq_some hgroup
  rw [waiting_eq_membersOf hrouted] at hmembers
  have htarget : targetOf attributes parsed nautobot nodeId first = some group.1 :=
    targetOf_eq_some.mpr ((routeAll_eq_ok hrouted).2 _ hfirst)
  exact ⟨hmembers, texts_offered htruth _ (network_of_target htruth htarget) hmembers⟩

/-- The group of a device that waits is served. -/
theorem served_of_member (htruth : Truthful nautobot ipam)
    {routed : List (DeviceContext × Routed)}
    {served : List (List (String × Placed))}
    (hrouted : routeAll attributes parsed nautobot nodeId devices = .ok routed)
    (hserved : (groupsOf routed).values.mapM (serveGroup attributes parsed nodeId nautobot) =
      .ok served) {device : DeviceContext}
    (h : device ∈ membersOf attributes parsed nautobot nodeId devices prefixId) :
    ∃ group entries, (groupsOf routed).get? prefixId = some group ∧
      serveGroup attributes parsed nodeId nautobot group = .ok entries ∧
      group.2 = membersOf attributes parsed nautobot nodeId devices prefixId ∧
      poolOf parsed nautobot group =
        (offered attributes parsed nautobot nodeId ipam devices prefixId).map IpAddress.text := by
  obtain ⟨hdevice, target, htarget, rfl⟩ := mem_membersOf.mp h
  obtain ⟨step, hmem, hroute⟩ := mem_routed hrouted hdevice
  obtain rfl := Except.ok.inj (hroute.symm.trans (targetOf_eq_some.mp htarget))
  obtain ⟨group, hgroup, -⟩ := exists_group hmem
  have hvalues : group ∈ (groupsOf routed).values :=
    List.mem_map.mpr ⟨_, Dict.get?_eq_some_iff.mp hgroup, rfl⟩
  obtain ⟨entries, -, hserve⟩ := (mapM_eq_ok hserved).2 group hvalues
  exact ⟨group, entries, hgroup, hserve, group_of_prefix htruth hrouted hgroup⟩

theorem placed_member (htruth : Truthful nautobot ipam)
    (hplaced : outcomeByDevice attributes parsed nautobot nodeId devices = .ok placed) {i : ℕ}
    {device : DeviceContext}
    (hdevice : (membersOf attributes parsed nautobot nodeId devices prefixId)[i]? = some device) :
    ∃ outcome, placed.get? device.id = some outcome ∧
      PlacedAt attributes parsed ((offered attributes parsed nautobot nodeId ipam devices
        prefixId).map IpAddress.text) i device outcome := by
  obtain ⟨routed, served, hrouted, hserved, rfl⟩ := outcomeByDevice_eq_ok.mp hplaced
  obtain ⟨group, entries, hgroup, hserve, hmembers, hpool⟩ :=
    served_of_member htruth hrouted hserved (List.mem_of_getElem? hdevice)
  rw [← hmembers] at hdevice
  obtain ⟨outcome, hentry, hat⟩ := serveGroup_placed hserve hdevice
  rw [hpool] at hat
  exact ⟨outcome, placed_waits (routeAll_eq_ok hrouted).1 hserved hgroup hserve hdevice hentry, hat⟩

/-- The step raises only where an expression or the storing of a value does. -/
theorem outcomeByDevice_isOk (htruth : Truthful nautobot ipam) :
    (∃ placed, outcomeByDevice attributes parsed nautobot nodeId devices = .ok placed) ↔
      (∀ device ∈ devices.all.values, (resolveGroupKey attributes parsed device).isOk = true) ∧
      ∀ prefixId i device,
        (membersOf attributes parsed nautobot nodeId devices prefixId)[i]? = some device →
        (i + 1) * parsed.count ≤
          (offered attributes parsed nautobot nodeId ipam devices prefixId).length →
        (attributes.set device (assignedValue parsed
          (textsFor attributes parsed nautobot nodeId ipam devices prefixId i))).isOk = true := by
  constructor
  · rintro ⟨placed, hplaced⟩
    obtain ⟨routed, served, hrouted, hserved, -⟩ := outcomeByDevice_eq_ok.mp hplaced
    refine ⟨routeAll_isOk.mp ⟨routed, hrouted⟩, fun prefixId i device hdevice hi => ?_⟩
    obtain ⟨group, entries, -, hserve, hmembers, hpool⟩ :=
      served_of_member htruth hrouted hserved (List.mem_of_getElem? hdevice)
    rw [← hmembers] at hdevice
    have hset := serveGroup_isOk.mp ⟨entries, hserve⟩ i device hdevice
    rw [hpool, List.length_map] at hset
    exact hset hi
  · rintro ⟨hresolves, hstores⟩
    obtain ⟨routed, hrouted⟩ := routeAll_isOk.mpr hresolves
    obtain ⟨served, hserved⟩ : ∃ served, (groupsOf routed).values.mapM
        (serveGroup attributes parsed nodeId nautobot) = .ok served := by
      apply exists_mapM_eq_ok.mpr
      intro group hvalues
      obtain ⟨⟨prefixId, group'⟩, hentry, rfl⟩ := List.mem_map.mp hvalues
      obtain ⟨hmembers, hpool⟩ :=
        group_of_prefix htruth hrouted (Dict.get?_eq_some_iff.mpr hentry)
      apply serveGroup_isOk.mpr
      intro i device hdevice hi
      rw [hmembers] at hdevice
      rw [hpool, List.length_map] at hi
      rw [hpool]
      exact hstores prefixId i device hdevice hi
    exact ⟨_, outcomeByDevice_eq_ok.mpr ⟨routed, served, hrouted, hserved, rfl⟩⟩

theorem placed_device (htruth : Truthful nautobot ipam)
    (hplaced : outcomeByDevice attributes parsed nautobot nodeId devices = .ok placed)
    {device : DeviceContext} (hdevice : device ∈ devices.all.values) :
    (targetOf attributes parsed nautobot nodeId device = none ∧
      ∃ updated, placed.get? device.id = some (.failed updated)) ∨
    ∃ target i outcome, targetOf attributes parsed nautobot nodeId device = some target ∧
      (membersOf attributes parsed nautobot nodeId devices target.prefixId)[i]? = some device ∧
      placed.get? device.id = some outcome ∧
      PlacedAt attributes parsed ((offered attributes parsed nautobot nodeId ipam devices
        target.prefixId).map IpAddress.text) i device outcome := by
  cases htarget : targetOf attributes parsed nautobot nodeId device with
  | none =>
    left
    obtain ⟨routed, served, hrouted, hserved, rfl⟩ := outcomeByDevice_eq_ok.mp hplaced
    obtain ⟨step, hmem, hroute⟩ := mem_routed hrouted hdevice
    cases step with
    | failed updated =>
      exact ⟨rfl, updated, placed_failed (routeAll_eq_ok hrouted).1 hserved hmem⟩
    | waits target =>
      rw [targetOf_eq_some.mpr hroute] at htarget
      cases htarget
  | some target =>
    right
    have hmember : device ∈ membersOf attributes parsed nautobot nodeId devices target.prefixId :=
      mem_membersOf.mpr ⟨hdevice, target, htarget, rfl⟩
    obtain ⟨i, hi⟩ := List.mem_iff_getElem?.mp hmember
    obtain ⟨outcome, houtcome, hat⟩ := placed_member htruth hplaced hi
    exact ⟨target, i, outcome, rfl, hi, houtcome, hat⟩

end Service

section Exits

variable {devices : Devices} {placed : Dict Placed} {device : DeviceContext}

def atExit (success : Bool) : Option Placed → Option DeviceContext
  | some (.given _ device) => if success then some device else none
  | some (.failed device) => if success then none else some device
  | none => none

theorem bucket_eq (success : Bool) :
    bucket placed devices success = Dict.ofPairs (devices.all.keys.filterMap fun id =>
      (atExit success (placed.get? id)).map fun device => (id, device)) := by
  unfold bucket
  congr 2
  funext id
  rcases placed.get? id with _ | ⟨addresses, updated⟩ | updated <;> cases success <;> rfl

/-- A device is at the exit that its outcome names. -/
theorem get?_bucket (hdevice : device ∈ devices.all.values) (success : Bool) :
    (bucket placed devices success).get? device.id = atExit success (placed.get? device.id) := by
  have hkey : device.id ∈ devices.all.keys := by
    rw [← values_map_id]
    exact List.mem_map.mpr ⟨device, hdevice, rfl⟩
  rw [bucket_eq]
  cases hat : atExit success (placed.get? device.id) with
  | some updated =>
    apply Dict.get?_ofPairs_unique
    · exact List.mem_filterMap.mpr ⟨device.id, hkey, by rw [hat]; rfl⟩
    · intro other hother
      obtain ⟨id, -, hid⟩ := List.mem_filterMap.mp hother
      obtain ⟨found, hfound, hpair⟩ := Option.map_eq_some_iff.mp hid
      cases hpair
      exact Option.some.inj (hfound.symm.trans hat)
  | none =>
    rw [← Option.not_isSome_iff_eq_none, ← Dict.mem_keys_iff, Dict.mem_keys_ofPairs]
    intro hmem
    obtain ⟨⟨id, updated⟩, hpair, rfl⟩ := List.mem_map.mp hmem
    obtain ⟨other, -, hother⟩ := List.mem_filterMap.mp hpair
    obtain ⟨found, hfound, hpair⟩ := Option.map_eq_some_iff.mp hother
    cases hpair
    rw [hat] at hfound
    cases hfound

end Exits

section Distinct

variable {attributes : Attributes} {parsed : ParsedConfig} {nautobot : Nautobot} {nodeId : String}
  {ipam : Ipam} {devices : Devices} {placed : Dict Placed} {prefixId : String}

theorem given_of_placedAt {pool : List String} {i : ℕ} {device updated : DeviceContext}
    {addresses : List String}
    (h : PlacedAt attributes parsed pool i device (.given addresses updated)) :
    (i + 1) * parsed.count ≤ pool.length ∧ addresses = chunk pool parsed.count i ∧
      attributes.set device (assignedValue parsed addresses) = .ok updated := by
  obtain ⟨hfull, updated', hset, hgiven⟩ | ⟨-, updated', hfailed⟩ := h
  · cases hgiven
    exact ⟨hfull, rfl, hset⟩
  · cases hfailed

theorem placed_given (htruth : Truthful nautobot ipam)
    (hplaced : outcomeByDevice attributes parsed nautobot nodeId devices = .ok placed)
    {device updated : DeviceContext} {addresses : List String}
    (hdevice : device ∈ devices.all.values)
    (hgiven : placed.get? device.id = some (.given addresses updated)) :
    ∃ target i, targetOf attributes parsed nautobot nodeId device = some target ∧
      (membersOf attributes parsed nautobot nodeId devices target.prefixId)[i]? = some device ∧
      (i + 1) * parsed.count ≤
        (offered attributes parsed nautobot nodeId ipam devices target.prefixId).length ∧
      addresses = textsFor attributes parsed nautobot nodeId ipam devices target.prefixId i ∧
      attributes.set device (assignedValue parsed addresses) = .ok updated := by
  rcases placed_device htruth hplaced hdevice with ⟨-, updated', hfailed⟩ |
    ⟨target, i, outcome, htarget, hi, houtcome, hat⟩
  · rw [hfailed] at hgiven
    cases hgiven
  · rw [houtcome] at hgiven
    cases hgiven
    obtain ⟨hfull, haddresses, hset⟩ := given_of_placedAt hat
    rw [List.length_map] at hfull
    exact ⟨target, i, htarget, hi, hfull, haddresses, hset⟩

theorem given_member (htruth : Truthful nautobot ipam)
    (hplaced : outcomeByDevice attributes parsed nautobot nodeId devices = .ok placed) {i : ℕ}
    {device : DeviceContext}
    (hdevice : (membersOf attributes parsed nautobot nodeId devices prefixId)[i]? = some device)
    (hfull : (i + 1) * parsed.count ≤
      (offered attributes parsed nautobot nodeId ipam devices prefixId).length) :
    ∃ updated, placed.get? device.id = some (.given
      (textsFor attributes parsed nautobot nodeId ipam devices prefixId i) updated) := by
  obtain ⟨outcome, houtcome, hat⟩ := placed_member htruth hplaced hdevice
  rcases hat with ⟨-, updated, -, rfl⟩ | ⟨hshort, -⟩
  · exact ⟨updated, houtcome⟩
  · rw [List.length_map] at hshort
    exact absurd hfull (Nat.not_le.mpr hshort)

theorem device_unique {device other : DeviceContext} (hdevice : device ∈ devices.all.values)
    (hother : other ∈ devices.all.values) (hid : device.id = other.id) : device = other := by
  have hnodup : (devices.all.values.map (·.id)).Nodup := by
    rw [values_map_id]
    exact devices.all.keys_nodup
  exact List.inj_on_of_nodup_map hnodup hdevice hother hid

theorem mem_offered {address : IpAddress}
    (h : address ∈ offered attributes parsed nautobot nodeId ipam devices prefixId) :
    address ∈ ipam.free prefixId ∧
      (ipam.network prefixId).address + parsed.startOffset ≤ address.value := by
  unfold offered at h
  split at h
  · cases h
  · obtain ⟨hmem, hfirst⟩ := List.mem_filter.mp h
    exact ⟨List.take_subset _ _ hmem, of_decide_eq_true hfirst⟩

theorem texts_nodup :
    ((offered attributes parsed nautobot nodeId ipam devices prefixId).map
      IpAddress.text).Nodup := by
  apply List.Nodup.map_on
  · intro address haddress other hother hsame
    exact text_injective (ipam.inside _ _ (mem_offered haddress).1).2
      (ipam.inside _ _ (mem_offered hother).1).2 hsame
  · unfold offered
    split
    · exact List.nodup_nil
    · apply List.Nodup.filter
      apply List.Nodup.sublist (List.take_sublist _ _)
      exact (ipam.ascending _).imp fun hlt heq => absurd hlt (by rw [heq]; exact lt_irrefl _)

/-- What is reached is what the members are meant to get. -/
theorem mem_reached {address : IpAddress}
    (h : address ∈ offered attributes parsed nautobot nodeId ipam devices prefixId) :
    address ∈ reached attributes parsed nautobot nodeId ipam devices prefixId ↔
      ∃ i device,
        (membersOf attributes parsed nautobot nodeId devices prefixId)[i]? = some device ∧
        (i + 1) * parsed.count ≤
          (offered attributes parsed nautobot nodeId ipam devices prefixId).length ∧
        address.text ∈ textsFor attributes parsed nautobot nodeId ipam devices prefixId i := by
  have htexts : address ∈ reached attributes parsed nautobot nodeId ipam devices prefixId ↔
      address.text ∈ handedOutOf
        ((offered attributes parsed nautobot nodeId ipam devices prefixId).map IpAddress.text)
        parsed.count
        (membersOf attributes parsed nautobot nodeId devices prefixId).length := by
    rw [reached, handedOutOf, List.length_map, ← List.map_take]
    constructor
    · exact List.mem_map_of_mem
    · intro hmem
      obtain ⟨other, hother, hsame⟩ := List.mem_map.mp hmem
      have hoffered := List.take_subset _ _ hother
      have hequal : other = address :=
        text_injective (ipam.inside _ _ (mem_offered hoffered).1).2
          (ipam.inside _ _ (mem_offered h).1).2 hsame
      rwa [← hequal]
  rw [htexts, mem_handedOutOf parsed.count_pos, List.length_map]
  constructor
  · rintro ⟨i, hi, hfull, htext⟩
    exact ⟨i, _, List.getElem?_eq_getElem hi, hfull, htext⟩
  · rintro ⟨i, device, hdevice, hfull, htext⟩
    exact ⟨i, (List.getElem?_eq_some_iff.mp hdevice).1, hfull, htext⟩

theorem exists_offered_of_mem {i : ℕ} {text : String}
    (h : text ∈ textsFor attributes parsed nautobot nodeId ipam devices prefixId i) :
    ∃ address ∈ offered attributes parsed nautobot nodeId ipam devices prefixId,
      text = address.text := by
  have hmem := List.drop_subset _ _ (List.take_subset _ _ h)
  obtain ⟨address, haddress, rfl⟩ := List.mem_map.mp hmem
  exact ⟨address, haddress, rfl⟩

theorem length_offered (htruth : Truthful nautobot ipam) {target : Target}
    (hnetwork : ipam.network target.prefixId = target.network)
    (hanswer : (answerOf attributes parsed nautobot nodeId devices target.prefixId).isOk = true)
    (hwindow : parsed.startOffset + parsed.count *
      (membersOf attributes parsed nautobot nodeId devices target.prefixId).length ≤
        availableIpsCap)
    (hfree : parsed.count *
      (membersOf attributes parsed nautobot nodeId devices target.prefixId).length ≤
        (freeFrom ipam target.prefixId parsed.startOffset).length) :
    parsed.count * (membersOf attributes parsed nautobot nodeId devices target.prefixId).length ≤
      (offered attributes parsed nautobot nodeId ipam devices target.prefixId).length := by
  obtain ⟨items, hitems⟩ := isOk_iff.mp hanswer
  obtain ⟨answer, hload⟩ : ∃ answer, loadPool nautobot parsed target
      (membersOf attributes parsed nautobot nodeId devices target.prefixId).length =
        .ok answer := by
    rw [answerOf, limitOf] at hitems
    simp only [loadPool, hitems, bind, Except.bind]
    exact ⟨_, rfl⟩
  obtain ⟨pool, windowCut⟩ := answer
  have htexts := texts_offered htruth
    (target, membersOf attributes parsed nautobot nodeId devices target.prefixId) hnetwork rfl
  have henough := enough_in_pool htruth hnetwork hload hwindow hfree
  rw [poolOf, hload] at htexts
  rwa [show pool = _ from htexts, List.length_map] at henough

theorem apart_of_once (htruth : Truthful nautobot ipam)
    (hplaced : outcomeByDevice attributes parsed nautobot nodeId devices = .ok placed)
    (honce : ∀ device ∈ devices.all.values, ∀ other ∈ devices.all.values, device.id ≠ other.id →
      ∀ addresses updated addresses' updated',
        placed.get? device.id = some (.given addresses updated) →
        placed.get? other.id = some (.given addresses' updated') →
          addresses.Disjoint addresses') (prefixId other : String) (hne : prefixId ≠ other) :
    (reached attributes parsed nautobot nodeId ipam devices prefixId).Disjoint
      (reached attributes parsed nautobot nodeId ipam devices other) := by
  intro address hmem hother
  obtain ⟨i, device, hdevice, hfull, htext⟩ :=
    (mem_reached (List.take_subset _ _ hmem)).mp hmem
  obtain ⟨j, device', hdevice', hfull', htext'⟩ :=
    (mem_reached (List.take_subset _ _ hother)).mp hother
  obtain ⟨updated, hgiven⟩ := given_member htruth hplaced hdevice hfull
  obtain ⟨updated', hgiven'⟩ := given_member htruth hplaced hdevice' hfull'
  obtain ⟨hmember, target, htarget, hid⟩ := mem_membersOf.mp (List.mem_of_getElem? hdevice)
  obtain ⟨hmember', target', htarget', hid'⟩ := mem_membersOf.mp (List.mem_of_getElem? hdevice')
  have hids : device.id ≠ device'.id := by
    intro hsame
    rw [device_unique hmember hmember' hsame, htarget'] at htarget
    obtain rfl := Option.some.inj htarget
    exact hne (hid.symm.trans hid')
  exact honce device hmember device' hmember' hids _ _ _ _ hgiven hgiven' htext htext'

theorem handedOut_of_apart (htruth : Truthful nautobot ipam)
    (hplaced : outcomeByDevice attributes parsed nautobot nodeId devices = .ok placed)
    (hapart : ∀ prefixId other, prefixId ≠ other →
      (reached attributes parsed nautobot nodeId ipam devices prefixId).Disjoint
        (reached attributes parsed nautobot nodeId ipam devices other)) :
    HandedOut attributes parsed nautobot nodeId ipam devices placed where
  leaves device hdevice := by
    rcases placed_device htruth hplaced hdevice with ⟨-, updated, hfailed⟩ |
      ⟨-, -, outcome, -, -, houtcome, -⟩
    · exact ⟨_, hfailed⟩
    · exact ⟨_, houtcome⟩
  success device hdevice addresses updated hgiven := by
    obtain ⟨target, i, -, -, hfull, rfl, hset⟩ := placed_given htruth hplaced hdevice hgiven
    refine ⟨by rw [get?_bucket hdevice, hgiven]; rfl, by rw [get?_bucket hdevice, hgiven]; rfl,
      hset, ?_, ?_⟩
    · apply length_chunk
      rwa [List.length_map]
    · have hsublist := (List.take_sublist parsed.count _).trans (List.drop_sublist
        (i * parsed.count) ((offered attributes parsed nautobot nodeId ipam devices
          target.prefixId).map IpAddress.text))
      exact texts_nodup.sublist hsublist
  failure device hdevice updated hfailed := by
    rw [get?_bucket hdevice, get?_bucket hdevice, hfailed]
    exact ⟨rfl, rfl⟩
  inside device hdevice addresses updated hgiven := by
    obtain ⟨target, i, htarget, -, -, rfl, -⟩ := placed_given htruth hplaced hdevice hgiven
    refine ⟨target, htarget, fun text htext => ?_⟩
    obtain ⟨address, haddress, rfl⟩ := exists_offered_of_mem htext
    obtain ⟨hfree, hfirst⟩ := mem_offered haddress
    have hcontains := (ipam.inside _ _ hfree).1
    rw [network_of_target htruth htarget] at hcontains hfirst
    exact ⟨address, rfl, hcontains, hfirst⟩
  once device hdevice other hother hids addresses updated addresses' updated' hgiven hgiven' := by
    obtain ⟨target, i, -, hi, hfull, rfl, -⟩ := placed_given htruth hplaced hdevice hgiven
    obtain ⟨target', j, -, hj, hfull', rfl, -⟩ := placed_given htruth hplaced hother hgiven'
    by_cases hsame : target.prefixId = target'.prefixId
    · rw [← hsame] at hj ⊢
      apply chunk_disjoint texts_nodup
      rintro rfl
      rw [hi] at hj
      exact hids (congrArg DeviceContext.id (Option.some.inj hj))
    · intro text htext htext'
      obtain ⟨address, haddress, rfl⟩ := exists_offered_of_mem htext
      obtain ⟨address', haddress', htexts⟩ := exists_offered_of_mem htext'
      obtain rfl : address = address' :=
        text_injective (ipam.inside _ _ (mem_offered haddress).1).2
          (ipam.inside _ _ (mem_offered haddress').1).2 htexts
      exact hapart _ _ hsame ((mem_reached haddress).mpr ⟨i, device, hi, hfull, htext⟩)
        ((mem_reached haddress').mpr ⟨j, other, hj, hfull', htext'⟩)
  enough device hdevice target htarget hanswer hwindow hfree := by
    have hmember : device ∈ membersOf attributes parsed nautobot nodeId devices target.prefixId :=
      mem_membersOf.mpr ⟨hdevice, target, htarget, rfl⟩
    obtain ⟨i, hi⟩ := List.mem_iff_getElem?.mp hmember
    have hoffered := length_offered htruth (network_of_target htruth htarget) hanswer hwindow hfree
    have hposition := Nat.mul_le_mul_right parsed.count
      (Nat.succ_le_of_lt (List.getElem?_eq_some_iff.mp hi).1)
    rw [Nat.mul_comm] at hoffered
    obtain ⟨updated, hgiven⟩ := given_member htruth hplaced hi (hposition.trans hoffered)
    exact ⟨_, updated, hgiven⟩

/-- Every address is handed out once, and everyone leaves by one exit, exactly if the step is not
disturbed. -/
theorem execute_handedOut_iff (htruth : Truthful nautobot ipam) :
    (∃ placed, outcomeByDevice attributes parsed nautobot nodeId devices = .ok placed ∧
      HandedOut attributes parsed nautobot nodeId ipam devices placed) ↔
    Undisturbed attributes parsed nautobot nodeId ipam devices := by
  constructor
  · rintro ⟨placed, hplaced, hhanded⟩
    obtain ⟨hresolves, hstores⟩ := (outcomeByDevice_isOk htruth).mp ⟨placed, hplaced⟩
    exact ⟨hresolves, hstores, apart_of_once htruth hplaced hhanded.once⟩
  · intro hundisturbed
    obtain ⟨placed, hplaced⟩ := (outcomeByDevice_isOk htruth).mpr
      ⟨hundisturbed.resolves, hundisturbed.stores⟩
    exact ⟨placed, hplaced, handedOut_of_apart htruth hplaced hundisturbed.apart⟩

end Distinct

section Overlap

def lanId : String := "0a000000-0000-4000-8000-000000000029"

def linkId : String := "0a000000-0000-4000-8000-000000000030"

def host (last : Fin 256) : IpAddress :=
  ⟨.v4, 167772160 + last, none, by have := last.isLt; simp only [IpVersion.bits]; omega⟩

/-- `10.0.0.0/29`, and `10.0.0.0/30` within it. -/
def lanAndLink : Ipam where
  network id := if id = linkId then ⟨.v4, 167772160, 30, none, by decide, by decide, by decide⟩
    else ⟨.v4, 167772160, 29, none, by decide, by decide, by decide⟩
  free id := if id = linkId then [host 1] else if id = lanId then [host 1, host 3, host 4] else []
  ascending id := by split <;> [skip; split] <;> decide
  inside id := by split <;> [skip; split] <;> decide

def prefixRow (id text : String) : Json := .obj [("id", .str id), ("prefix", .str text)]

def lanNautobot : Nautobot where
  namespaces _ := .ok (.obj [("results", .arr [prefixRow lanId ""])])
  prefixes _ _ := .ok (.obj [("results", .arr [])])
  containing address _ := .ok (.obj [("results", .arr (
    if address = "10.0.0.2" then [prefixRow lanId "10.0.0.0/29", prefixRow linkId "10.0.0.0/30"]
    else if address = "10.0.0.5" ∨ address = "10.0.0.6" then [prefixRow lanId "10.0.0.0/29"]
    else []))])
  availableIps id limit := .ok (.arr (((lanAndLink.free id).take limit).map fun address =>
    .obj [("address", .str (address.text ++ "/29"))]))

def byPrimaryAddress : Attributes where
  resolve device field expression :=
    .ok (if field = "prefix" then device.primaryIp4 else some expression)
  set device value := setBagValue device "network" "free_ip".toList value

def oneAddress : ParsedConfig where
  prefixExpression := "{device.primary_ip4}"
  namespaceExpression := "Global"
  count := 1
  startOffset := 1
  count_pos := by decide
  count_le := by decide

def switchAt (id address : String) : DeviceContext where
  id := id
  name := id
  hostname := id
  primaryIp4 := some address

def twoDevices (first second : String) : Devices where
  all := Dict.ofPairs [("d1", switchAt "d1" first), ("d2", switchAt "d2" second)]
  keyed := by
    intro entry hentry
    have hentries : entry = ("d1", switchAt "d1" first) ∨ entry = ("d2", switchAt "d2" second) := by
      simpa using List.mem_pair.mp hentry
    rcases hentries with rfl | rfl <;> rfl

theorem findContainingPrefix_lan {address namespaceId label id text : String}
    (h : findContainingPrefix lanNautobot address namespaceId label = .ok (id, text)) :
    parsePrefix text = .ok (lanAndLink.network id) := by
  have hlink : [[("id", Json.str lanId), ("prefix", .str "10.0.0.0/29")],
      [("id", .str linkId), ("prefix", .str "10.0.0.0/30")]].foldlM longerPrefix none =
      .ok (some (30, linkId, "10.0.0.0/30")) := toOption_eq_some.mp (by decide +kernel)
  have hlan : [[("id", Json.str lanId), ("prefix", .str "10.0.0.0/29")]].foldlM longerPrefix none =
      .ok (some (29, lanId, "10.0.0.0/29")) := toOption_eq_some.mp (by decide +kernel)
  obtain ⟨body, hbody, h⟩ := bind_eq_ok.mp h
  obtain ⟨results, hresults, h⟩ := bind_eq_ok.mp h
  obtain ⟨best, hbest, h⟩ := bind_eq_ok.mp h
  cases hbody
  split at hresults
  · have hrows := Except.ok.inj hresults
    rw [← hrows] at hbest
    cases hlink.symm.trans hbest
    cases h
    exact toOption_eq_some.mp (by decide +kernel)
  · split at hresults
    · have hrows := Except.ok.inj hresults
      rw [← hrows] at hbest
      cases hlan.symm.trans hbest
      cases h
      exact toOption_eq_some.mp (by decide +kernel)
    · cases hresults
      cases hbest
      cases h

theorem lanNautobot_truthful : Truthful lanNautobot lanAndLink where
  network expression key target h := by
    unfold resolveTarget at h
    cases hbare : bareAddress key.2 with
    | none =>
      rw [hbare] at h
      obtain ⟨network, -, h⟩ := bind_eq_ok.mp h
      obtain ⟨namespaceId, -, h⟩ := bind_eq_ok.mp h
      obtain ⟨prefixId, hnone, -⟩ := bind_eq_ok.mp h
      cases hnone
    | some address =>
      rw [hbare] at h
      obtain ⟨namespaceId, -, h⟩ := bind_eq_ok.mp h
      obtain ⟨⟨prefixId, found⟩, hfound, h⟩ := bind_eq_ok.mp h
      obtain ⟨network, hnetwork, h⟩ := bind_eq_ok.mp h
      rw [findContainingPrefix_lan hfound] at hnetwork
      cases hnetwork
      cases h
      rfl
  available prefixId limit items h := by
    have hread : ∀ address ∈ lanAndLink.free prefixId,
        itemAddress (.obj [("address", .str (address.text ++ "/29"))]) = some address := by
      have hknown : ∀ last ∈ ([1, 3, 4] : List (Fin 256)),
          itemAddress (.obj [("address", .str ((host last).text ++ "/29"))]) =
            some (host last) := by decide +kernel
      intro address haddress
      simp only [lanAndLink] at haddress
      split at haddress
      · obtain rfl := List.mem_singleton.mp haddress
        exact hknown 1 (by decide)
      · split at haddress
        · simp only [List.mem_cons, List.not_mem_nil, or_false] at haddress
          rcases haddress with rfl | rfl | rfl
          · exact hknown 1 (by decide)
          · exact hknown 3 (by decide)
          · exact hknown 4 (by decide)
        · cases haddress
    cases h
    rw [List.map_map]
    apply List.map_congr_left
    intro address haddress
    rw [Function.comp_apply, hread address (List.take_subset _ _ haddress)]

def Placed.addresses : Placed → Option (List String)
  | .given addresses _ => some addresses
  | .failed _ => none

theorem given_of_addresses {placed : Dict Placed} {id : String} {addresses : List String}
    (h : (placed.get? id).bind Placed.addresses = some addresses) :
    ∃ updated, placed.get? id = some (.given addresses updated) := by
  obtain ⟨outcome, houtcome, hgiven⟩ := Option.bind_eq_some_iff.mp h
  cases outcome with
  | given _ updated =>
    cases hgiven
    exact ⟨updated, houtcome⟩
  | failed updated => cases hgiven

/-- Two devices get the same address, one by each prefix. -/
theorem addresses_given_twice :
    Truthful lanNautobot lanAndLink ∧
    ∃ placed, outcomeByDevice byPrimaryAddress oneAddress lanNautobot "n1"
        (twoDevices "10.0.0.2" "10.0.0.6") = .ok placed ∧
      (∃ updated, placed.get? "d1" = some (.given ["10.0.0.1"] updated)) ∧
      (∃ updated, placed.get? "d2" = some (.given ["10.0.0.1"] updated)) ∧
      ¬ HandedOut byPrimaryAddress oneAddress lanNautobot "n1" lanAndLink
        (twoDevices "10.0.0.2" "10.0.0.6") placed := by
  have hrun : (outcomeByDevice byPrimaryAddress oneAddress lanNautobot "n1"
      (twoDevices "10.0.0.2" "10.0.0.6")).toOption.map (fun placed =>
        ((placed.get? "d1").bind Placed.addresses, (placed.get? "d2").bind Placed.addresses)) =
      some (some ["10.0.0.1"], some ["10.0.0.1"]) := by decide +kernel
  obtain ⟨placed, hplaced, hgiven⟩ := Option.map_eq_some_iff.mp hrun
  obtain ⟨hfirst, hsecond⟩ := Prod.mk.inj hgiven
  obtain ⟨updated, hfirst⟩ := given_of_addresses hfirst
  obtain ⟨updated', hsecond⟩ := given_of_addresses hsecond
  refine ⟨lanNautobot_truthful, placed, toOption_eq_some.mp hplaced, ⟨updated, hfirst⟩,
    ⟨updated', hsecond⟩, fun h => ?_⟩
  have hdisjoint := h.once (switchAt "d1" "10.0.0.2") List.mem_cons_self
    (switchAt "d2" "10.0.0.6") (List.mem_cons_of_mem _ List.mem_cons_self) (by decide)
    _ _ _ _ hfirst hsecond
  exact hdisjoint List.mem_cons_self List.mem_cons_self

theorem execute_handedOut_iff_lan :
    ∃ placed, outcomeByDevice byPrimaryAddress oneAddress lanNautobot "n1"
        (twoDevices "10.0.0.5" "10.0.0.6") = .ok placed ∧
      HandedOut byPrimaryAddress oneAddress lanNautobot "n1" lanAndLink
        (twoDevices "10.0.0.5" "10.0.0.6") placed := by
  have hvalues : ∀ device ∈ (twoDevices "10.0.0.5" "10.0.0.6").all.values,
      device = switchAt "d1" "10.0.0.5" ∨ device = switchAt "d2" "10.0.0.6" := by
    intro device hdevice
    exact List.mem_pair.mp hdevice
  have hlan : ∀ prefixId device, device ∈ membersOf byPrimaryAddress oneAddress lanNautobot "n1"
      (twoDevices "10.0.0.5" "10.0.0.6") prefixId → prefixId = lanId := by
    intro prefixId device hdevice
    obtain ⟨hmem, target, htarget, rfl⟩ := mem_membersOf.mp hdevice
    have hid : (targetOf byPrimaryAddress oneAddress lanNautobot "n1" device).map
        Target.prefixId = some lanId := by
      rcases hvalues device hmem with rfl | rfl
      · decide +kernel
      · decide +kernel
    rw [htarget] at hid
    exact Option.some.inj hid
  have hset : ∀ (device : DeviceContext) value, device.attributeBags = ∅ →
      (byPrimaryAddress.set device value).isOk = true := by
    intro device value hbags
    simp only [byPrimaryAddress, setBagValue, hbags]
    rfl
  apply (execute_handedOut_iff lanNautobot_truthful).mpr
  constructor
  · intro device hdevice
    rcases hvalues device hdevice with rfl | rfl
    · rfl
    · rfl
  · intro prefixId i device hdevice _
    apply hset
    rcases hvalues device (mem_membersOf.mp (List.mem_of_getElem? hdevice)).1 with rfl | rfl
    · rfl
    · rfl
  · intro prefixId other hne address hmem hother
    obtain ⟨i, device, hdevice, -⟩ := (mem_reached (List.take_subset _ _ hmem)).mp hmem
    obtain ⟨j, device', hdevice', -⟩ := (mem_reached (List.take_subset _ _ hother)).mp hother
    exact hne ((hlan _ _ (List.mem_of_getElem? hdevice)).trans
      (hlan _ _ (List.mem_of_getElem? hdevice')).symm)

end Overlap

end Manus.FreeIp
