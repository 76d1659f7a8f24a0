import Manus.Runs.Gates

/-! # Batches and their approvals

Which batches may run, and which children they are made of. The event of a batch
cannot be there before the worker waits for it, so the first one finds the row
paused for that batch, unless an approval of all batches has written an earlier
gate back.
-/

namespace Manus.Gates

section Approved

/-- Batch `k` may run: it is the first one and needs no approval, or it was approved while the row
was paused for exactly it, or an earlier gate has read that all further ones are open. -/
def Authorised (d : Dispatch) (s : State) (k : ℕ) : Prop :=
  (k = 0 ∧ d.firstBatchAuto = true) ∨ (k, some k) ∈ s.approvals ∨ ∃ j ∈ s.autoReads, j < k

/-- An approval of all batches that writes its flag while the worker waits has read the gate the
worker waits at. -/
def current (s : State) : Move → Bool
  | .flag i => match s.position, s.calls i with
    | .waiting k, .approveAll state => state.nextBatchIndex == k
    | _, _ => true
  | _ => true

def Position.bound : Position → Option ℕ
  | .gate k => some k
  | .waiting k | .woken k _ | .ready k | .running k => some (k + 1)
  | .returned | .raised => none

def Call.state? : Call → Option ApprovalState
  | .idle => none
  | .approveBatch state | .approveAll state | .flagged state => some state

/-- What holds while approvals of all batches write the gate they have read. -/
structure GateInv (d : Dispatch) (s : State) : Prop where
  live : Live s.row
  asked : ∀ i state, (s.calls i).state? = some state →
    state.awaiting = true ∧ state.nextBatchIndex ∈ s.pauses
  shown : ∀ state, s.row.approvalState = some state → state.nextBatchIndex ∈ s.pauses
  past : ∀ b, s.position.bound = some b → ∀ j ∈ s.pauses, j < b
  known : ∀ key ∈ s.events, ∃ j ∈ s.pauses, key = batchApprovalEventKey d.runUuid j
  waits : ∀ k, s.position = .waiting k → awaits s.row = some k
  released : ∀ k, s.position = .waiting k → batchApprovalEventKey d.runUuid k ∈ s.events →
    (k, some k) ∈ s.approvals
  woken : ∀ k row, s.position = .woken k row → (k, some k) ∈ s.approvals ∧
    ∀ state, row.approvalState = some state → state.nextBatchIndex ∈ s.pauses
  auto : s.loop.autoApproveRemaining = true → ∀ b, s.position.bound = some b →
    ∃ j ∈ s.autoReads, j < b
  ready : ∀ k, s.position = .ready k → Authorised d s k

variable {d : Dispatch} {s s' : State} {move : Move}

theorem requireAwaitingBatch_eq_some {row : RunRow} {state : ApprovalState} :
    requireAwaitingBatch row = some state ↔
      row.approvalState = some state ∧ row.status = .paused ∧ state.awaiting = true := by
  simp [requireAwaitingBatch, Option.filter_eq_some_iff]

theorem awaits_of_gate {row : RunRow} {state : ApprovalState} (hs : row.status = .paused)
    (hstate : row.approvalState = some state) (ha : state.awaiting = true) :
    awaits row = some state.nextBatchIndex := by
  rw [awaits, requireAwaitingBatch_eq_some.mpr ⟨hstate, hs, ha⟩]
  rfl

theorem GateInv.setCall (h : GateInv d s) (i : ℕ) {call : Call}
    (hcall : ∀ state, call.state? = some state →
      state.awaiting = true ∧ state.nextBatchIndex ∈ s.pauses) : GateInv d (s.setCall i call) where
  __ := h
  asked j state hj := by
    by_cases hij : j = i
    · subst hij
      simp only [State.setCall, Function.update_self] at hj
      exact hcall state hj
    · simp only [State.setCall, Function.update_of_ne hij] at hj
      exact h.asked j state hj

theorem GateInv.read (h : GateInv d s) {state : ApprovalState}
    (hr : requireAwaitingBatch s.row = some state) :
    state.awaiting = true ∧ state.nextBatchIndex ∈ s.pauses := by
  obtain ⟨hstate, -, hawaiting⟩ := requireAwaitingBatch_eq_some.mp hr
  exact ⟨hawaiting, h.shown state hstate⟩

theorem Authorised.mono {k : ℕ} {approvals : List (ℕ × Option ℕ)}
    (hsub : ∀ x ∈ s.approvals, x ∈ approvals) (h : Authorised d s k) :
    Authorised d { s with approvals } k := by
  rcases h with h | h | h
  · exact .inl h
  · exact .inr (.inl (hsub _ h))
  · exact .inr (.inr h)

theorem GateInv.push (h : GateInv d s) {i j : ℕ} {delivered : Bool} (hj : j ∈ s.pauses) :
    GateInv d (d.pushBatchEvent s i j delivered) := by
  have hidle : GateInv d (s.setCall i .idle) := h.setCall i fun state hs => by cases hs
  unfold Dispatch.pushBatchEvent
  split
  · exact {
      hidle with
      known := by
        intro key hkey
        rcases List.mem_cons.mp hkey with rfl | hkey
        · exact ⟨j, hj, rfl⟩
        · exact h.known key hkey
      released := by
        intro k hpos hkey
        rcases List.mem_cons.mp hkey with he | hkey
        -- the event that releases the gate: the row is still paused for it
        · obtain rfl := batchApprovalEventKey_injective _ he
          have hawaits : awaits s.row = some k := h.waits k hpos
          rw [hawaits]
          exact List.mem_cons_self
        · exact List.mem_cons_of_mem _ (h.released k hpos hkey)
      woken := fun k row hpos => ⟨List.mem_cons_of_mem _ (h.woken k row hpos).1,
        (h.woken k row hpos).2⟩
      ready := fun k hpos => (h.ready k hpos).mono fun x hx => List.mem_cons_of_mem _ hx }
  · exact hidle

theorem GateInv.pause (h : GateInv d s) {k : ℕ} {batch : List (List String)}
    (hpos : s.position = .gate k) : GateInv d (d.pause s k batch) := by
  have hpast : ∀ j ∈ s.pauses, j < k := h.past k (by rw [hpos]; rfl)
  obtain ⟨hstatus, hstate⟩ := h.live.update .paused (by decide) (d.pauseFields k batch s.loop)
  have hstate : (d.pause s k batch).row.approvalState =
      some (d.buildApprovalState k batch s.loop) := hstate
  have hnew : batchApprovalEventKey d.runUuid k ∉ s.events := by
    intro hmem
    obtain ⟨j, hj, he⟩ := h.known _ hmem
    obtain rfl := batchApprovalEventKey_injective _ he
    exact lt_irrefl _ (hpast k hj)
  constructor
  case live => exact .inr hstatus
  case asked =>
    intro i state hs
    obtain ⟨hawaiting, hmem⟩ := h.asked i state hs
    exact ⟨hawaiting, List.mem_cons_of_mem _ hmem⟩
  case shown =>
    intro state hs
    obtain rfl := Option.some.inj (hstate.symm.trans hs)
    exact List.mem_cons_self
  case past =>
    intro b hb j hj
    obtain rfl : k + 1 = b := Option.some.inj hb
    rcases List.mem_cons.mp hj with rfl | hj
    · omega
    · have := hpast j hj
      omega
  case known =>
    intro key hkey
    obtain ⟨j, hj, he⟩ := h.known key hkey
    exact ⟨j, List.mem_cons_of_mem _ hj, he⟩
  case waits =>
    intro k' hk'
    obtain rfl : k = k' := Position.waiting.inj hk'
    exact awaits_of_gate hstatus hstate rfl
  case released =>
    intro k' hk' hmem
    obtain rfl : k = k' := Position.waiting.inj hk'
    exact absurd hmem hnew
  case woken => exact fun _ _ hk' => nomatch hk'
  case auto =>
    intro ha b hb
    obtain rfl : k + 1 = b := Option.some.inj hb
    obtain ⟨j, hj, hlt⟩ := h.auto ha k (by rw [hpos]; rfl)
    exact ⟨j, hj, by omega⟩
  case ready => exact fun _ hk' => nomatch hk'

theorem GateInv.resume (h : GateInv d s) {k : ℕ} {row : RunRow} (hpos : s.position = .woken k row) :
    GateInv d (Dispatch.resume s k row) := by
  obtain ⟨happroved, hread⟩ := h.woken k row hpos
  have hupdate := fun fields => h.live.update .running (by decide) fields
  constructor
  case live => exact .inl (hupdate _).1
  case asked => exact h.asked
  case shown =>
    intro state hs
    have hs := (hupdate _).2.symm.trans hs
    rcases Option.or_eq_some_iff.mp hs with hs | ⟨-, hs⟩
    · obtain ⟨gate, hgate, rfl⟩ := Option.map_eq_some_iff.mp hs
      exact hread gate hgate
    · exact h.shown state hs
  case past => exact fun b hb => h.past b (by rw [hpos]; exact hb)
  case known => exact h.known
  case waits => exact fun _ hk' => nomatch hk'
  case released => exact fun _ hk' => nomatch hk'
  case woken => exact fun _ _ hk' => nomatch hk'
  case auto =>
    intro ha b hb
    obtain rfl : k + 1 = b := Option.some.inj hb
    have ha : autoApproveRemaining row = true := ha
    refine ⟨k, ?_, by omega⟩
    simp only [Dispatch.resume, ha, if_true, List.mem_cons_self]
  case ready =>
    intro k' hk'
    obtain rfl : k = k' := Position.ready.inj hk'
    exact .inr (.inl happroved)

theorem GateInv.advance (h : GateInv d s) {position : Position} {loop : BatchState}
    {dispatched : List DeviceGroupInput}
    (hloop : loop.autoApproveRemaining = s.loop.autoApproveRemaining)
    (hbound : ∀ b, position.bound = some b → ∃ b' ≤ b, s.position.bound = some b')
    (hwaits : ∀ k, position ≠ .waiting k) (hwoken : ∀ k row, position ≠ .woken k row)
    (hready : ∀ k, position = .ready k → Authorised d s k) :
    GateInv d { s with position, loop, dispatched } where
  live := h.live
  asked := h.asked
  shown := h.shown
  past b hb j hj := by
    obtain ⟨b', hle, hb'⟩ := hbound b hb
    exact (h.past b' hb' j hj).trans_le hle
  known := h.known
  waits k hk := absurd hk (hwaits k)
  released k hk := absurd hk (hwaits k)
  woken k row hk := absurd hk (hwoken k row)
  auto ha b hb := by
    obtain ⟨b', hle, hb'⟩ := hbound b hb
    obtain ⟨j, hj, hlt⟩ := h.auto (hloop ▸ ha) b' hb'
    exact ⟨j, hj, hlt.trans_le hle⟩
  ready k hk := hready k hk

theorem GateInv.flag (h : GateInv d s) {i : ℕ} {state : ApprovalState}
    (hcall : s.calls i = .approveAll state) (hcur : current s (.flag i) = true) :
    GateInv d (Dispatch.flag s i state) := by
  have hasked := h.asked i state (by rw [hcall]; rfl)
  have hset : GateInv d (s.setCall i (.flagged state)) := by
    refine h.setCall i fun state' hs => ?_
    cases hs
    exact hasked
  obtain ⟨hstatus, hstate⟩ := h.live.update .paused (by decide)
    { approvalState := some { state with autoApproveRemaining := true } }
  exact {
    hset with
    live := .inr hstatus
    shown := by
      intro state' hs
      obtain rfl := Option.some.inj (hstate.symm.trans hs)
      exact hasked.2
    waits := by
      intro k hpos
      have hk : s.position = .waiting k := hpos
      simp only [current, hk, hcall, beq_iff_eq] at hcur
      have hawaits := awaits_of_gate hstatus hstate hasked.1
      rwa [← hcur] }

theorem GateInv.step (hstep : Step d s move s') (hcur : current s move = true) (h : GateInv d s) :
    GateInv d s' := by
  cases hstep with
  | finish hpos _ =>
    exact h.advance rfl (fun _ hb => nomatch hb) (by simp) (by simp) (by simp)
  | pause hpos _ _ => exact h.pause hpos
  | @pass k hpos hgate =>
    refine h.advance rfl (fun b hb => ⟨k, ?_, by rw [hpos]; rfl⟩) (by simp) (by simp) ?_
    · obtain rfl : k + 1 = b := Option.some.inj hb
      omega
    · intro k' hk'
      obtain rfl : k = k' := Position.ready.inj hk'
      cases ha : s.loop.autoApproveRemaining with
      | true => exact .inr (.inr (h.auto ha k (by rw [hpos]; rfl)))
      | false => exact .inl (by simpa [batchNeedsApprovalGate, ha] using hgate)
  | @wake k hpos hmem =>
    exact {
      h with
      past := fun b hb => h.past b (by rw [hpos]; exact hb)
      waits := fun _ hk' => nomatch hk'
      released := fun _ hk' => nomatch hk'
      woken := by
        intro k' row hk'
        obtain ⟨rfl, rfl⟩ := Position.woken.inj hk'
        exact ⟨h.released k hpos hmem, h.shown⟩
      auto := fun ha b hb => h.auto ha b (by rw [hpos]; exact hb)
      ready := fun _ hk' => nomatch hk' }
  | resume hpos => exact h.resume hpos
  | runGroups hpos _ =>
    exact h.advance rfl (fun b hb => ⟨b, le_rfl, by rw [hpos]; exact hb⟩) (by simp) (by simp)
      (by simp)
  | collect hpos _ =>
    exact h.advance rfl (fun b hb => ⟨b, le_rfl, by rw [hpos]; exact hb⟩) (by simp) (by simp)
      (by simp)
  | raise => exact h.advance rfl (fun _ hb => nomatch hb) (by simp) (by simp) (by simp)
  | refuse => exact h
  | approveBatch hr =>
    refine h.setCall _ fun state hs => ?_
    cases hs
    exact h.read hr
  | approveAll hr =>
    refine h.setCall _ fun state hs => ?_
    cases hs
    exact h.read hr
  | flag hcall => exact h.flag hcall hcur
  | pushBatch hcall => exact h.push (h.asked _ _ (by rw [hcall]; rfl)).2
  | @pushAll i state delivered hcall =>
    have hpush : GateInv d (d.pushBatchEvent s i state.nextBatchIndex delivered) :=
      h.push (h.asked i state (by rw [hcall]; rfl)).2
    exact { hpush with }

theorem gateInv_init (row : RunRow) : GateInv d (init row) where
  live := .inl rfl
  asked _ _ hs := nomatch hs
  shown _ hs := nomatch hs
  past _ _ _ hj := nomatch hj
  known _ hkey := nomatch hkey
  waits _ hk := nomatch hk
  released _ hk := nomatch hk
  woken _ _ hk := nomatch hk
  auto ha := nomatch ha
  ready _ hk := nomatch hk

end Approved

section Children

def Position.dispatched : Position → Option ℕ
  | .gate k | .waiting k | .woken k _ | .ready k => some k
  | .running k => some (k + 1)
  | .returned | .raised => none

def Position.batch : Position → Option ℕ
  | .gate k | .waiting k | .woken k _ | .ready k | .running k => some k
  | .returned | .raised => none

structure ChildInv (d : Dispatch) (s : State) (n : ℕ) : Prop where
  inputs : s.dispatched = buildChildInputs d.runId d.signal (d.batches.take n).flatten 0
  count : ∀ k, s.position.dispatched = some k → n = k
  offset : ∀ k, s.position.batch = some k →
    s.loop.groupOffset = (d.batches.take k).flatten.length
  complete : s.position = .returned → d.batches.length ≤ n

variable {d : Dispatch} {s s' : State} {move : Move} {n : ℕ}

theorem buildChildInputs_append (runId : ℕ) (signal : FanOutSignal)
    (groups groups' : List (List String)) (offset : ℕ) :
    buildChildInputs runId signal (groups ++ groups') offset =
      buildChildInputs runId signal groups offset ++
        buildChildInputs runId signal groups' (offset + groups.length) := by
  simp only [buildChildInputs, List.mapIdx_append, Nat.add_comm, Nat.add_left_comm]

theorem batches_take_succ {k : ℕ} {batch : List (List String)} (h : d.batches[k]? = some batch) :
    (d.batches.take (k + 1)).flatten = (d.batches.take k).flatten ++ batch := by
  rw [List.take_add_one, h, List.flatten_append]
  simp

theorem ChildInv.keep (h : ChildInv d s n) (hd : s'.dispatched = s.dispatched)
    (hcount : s'.position.dispatched = s.position.dispatched)
    (hbatch : s'.position.batch = s.position.batch)
    (hloop : s'.loop.groupOffset = s.loop.groupOffset)
    (hret : s'.position = .returned → s.position = .returned) : ChildInv d s' n where
  inputs := hd.trans h.inputs
  count k hk := h.count k (hcount ▸ hk)
  offset k hk := hloop.trans (h.offset k (hbatch ▸ hk))
  complete hp := h.complete (hret hp)

theorem ChildInv.push (h : ChildInv d s n) {i j : ℕ} {delivered : Bool} :
    ChildInv d (d.pushBatchEvent s i j delivered) n := by
  unfold Dispatch.pushBatchEvent
  split
  · exact { h with }
  · exact { h with }

theorem ChildInv.step (hstep : Step d s move s') (h : ChildInv d s n) : ∃ n', ChildInv d s' n' := by
  cases hstep with
  | @finish k hpos hlen =>
    refine ⟨n, h.inputs, nofun, nofun, fun _ => ?_⟩
    rwa [h.count k (by rw [hpos]; rfl)]
  | pause hpos _ _ => exact ⟨n, h.keep rfl (by rw [hpos]; rfl) (by rw [hpos]; rfl) rfl nofun⟩
  | pass hpos _ => exact ⟨n, h.keep rfl (by rw [hpos]; rfl) (by rw [hpos]; rfl) rfl nofun⟩
  | wake hpos _ => exact ⟨n, h.keep rfl (by rw [hpos]; rfl) (by rw [hpos]; rfl) rfl nofun⟩
  | resume hpos => exact ⟨n, h.keep rfl (by rw [hpos]; rfl) (by rw [hpos]; rfl) rfl nofun⟩
  | @runGroups k batch hpos hbatch =>
    have hn : n = k := h.count k (by rw [hpos]; rfl)
    have hoffset := h.offset k (by rw [hpos]; rfl)
    refine ⟨k + 1, ?_, fun _ hk => Option.some.inj hk, ?_, nofun⟩
    · have hinputs : (d.runGroups s k batch).dispatched = s.dispatched ++
          buildChildInputs d.runId d.signal batch s.loop.groupOffset := rfl
      rw [hinputs, h.inputs, hn, hoffset, batches_take_succ hbatch, buildChildInputs_append,
        Nat.zero_add]
    · intro k' hk'
      obtain rfl : k = k' := Option.some.inj hk'
      exact hoffset
  | @collect k batch results hpos hbatch =>
    have hn : n = k + 1 := h.count (k + 1) (by rw [hpos]; rfl)
    have hoffset := h.offset k (by rw [hpos]; rfl)
    refine ⟨n, h.inputs, fun _ hk => hn.trans (Option.some.inj hk), ?_, nofun⟩
    intro k' hk'
    obtain rfl : k + 1 = k' := Option.some.inj hk'
    simp only [afterBatch, hoffset, batches_take_succ hbatch, List.length_append]
  | raise => exact ⟨n, h.inputs, nofun, nofun, nofun⟩
  | refuse => exact ⟨n, h⟩
  | approveBatch _ => exact ⟨n, { h with }⟩
  | approveAll _ => exact ⟨n, { h with }⟩
  | flag _ => exact ⟨n, { h with }⟩
  | pushBatch _ => exact ⟨n, h.push⟩
  | @pushAll i state delivered _ =>
    have hpush : ChildInv d (d.pushBatchEvent s i state.nextBatchIndex delivered) n := h.push
    exact ⟨n, { hpush with }⟩

theorem childInv_init (row : RunRow) : ChildInv d (init row) 0 :=
  ⟨rfl, fun _ hk => Option.some.inj hk, fun _ hk => by cases hk; rfl, nofun⟩

theorem batches_flatten : d.batches.flatten = d.plan.groups :=
  chunks_flatten (by omega) le_rfl

theorem childIndex_buildChildInputs (runId : ℕ) (signal : FanOutSignal)
    (groups : List (List String)) :
    (buildChildInputs runId signal groups 0).map DeviceGroupInput.childIndex =
      List.range groups.length := by
  refine List.ext_getElem (by simp [buildChildInputs]) fun i hi hi' => ?_
  simp [buildChildInputs]

theorem keys_buildChildInputs {runId : ℕ} {signal : FanOutSignal} {groups : List (List String)}
    {offset : ℕ} (h : ∀ group ∈ groups, group.Sublist signal.inventoryOutcome.devices.keys) :
    ((buildChildInputs runId signal groups offset).flatMap fun input =>
      input.context.devices.keys) = groups.flatten := by
  have hmap : (buildChildInputs runId signal groups offset).map
      (fun input => input.context.devices.keys) = groups := by
    refine List.ext_getElem (by simp [buildChildInputs]) fun i hi hi' => ?_
    simp only [buildChildInputs, List.getElem_map, List.getElem_mapIdx]
    exact Dict.keys_restrict (h _ (List.getElem_mem hi'))
  rw [List.flatMap_def, hmap]

def handedOut (s : State) : List String :=
  s.dispatched.flatMap fun input => input.context.devices.keys

theorem ChildInv.handedOut (h : ChildInv d s n) :
    handedOut s = (d.batches.take n).flatten.flatten := by
  unfold Gates.handedOut
  rw [h.inputs]
  refine keys_buildChildInputs fun group hgroup => ?_
  obtain ⟨batch, hbatch, hgroup⟩ := List.mem_flatten.mp hgroup
  rw [← groups_flatten d.parsed, ← batches_flatten]
  refine List.sublist_flatten_of_mem (List.mem_flatten.mpr ⟨batch, ?_, hgroup⟩)
  exact List.mem_of_mem_take hbatch

/-- In every run in which an approval of all batches that writes its flag while the worker waits
has read the gate the worker waits at: no batch runs unless it may, the children are numbered from
zero on, and the devices they get are those of the inventory step, in order and each once, up to the
batch the worker has got to and all of them when it has returned. -/
theorem batches_approved_devices_once {row : RunRow} {moves : List Move}
    (hcur : along d.step current (init row) moves = true)
    (hrun : runSteps d.step (init row) moves = some s) :
    (∀ k, s.position = .ready k → Authorised d s k) ∧
      s.dispatched.map DeviceGroupInput.childIndex = List.range s.dispatched.length ∧
      (handedOut s).Nodup ∧ handedOut s <+: d.signal.inventoryOutcome.devices.keys ∧
      (s.position = .returned → handedOut s = d.signal.inventoryOutcome.devices.keys) := by
  have hgate := runSteps_induction (fun _ _ _ ht hs => GateInv.step (step_cases hs) ht) hrun hcur
    (gateInv_init row)
  obtain ⟨n, hchild⟩ := runSteps_induction (P := fun t => ∃ n, ChildInv d t n)
    (fun _ _ _ _ hs ⟨_, h⟩ => h.step (step_cases hs)) hrun hcur ⟨0, childInv_init row⟩
  have hkeys : d.batches.flatten.flatten = d.signal.inventoryOutcome.devices.keys := by
    rw [batches_flatten, groups_flatten d.parsed]
  have hprefix : handedOut s <+: d.signal.inventoryOutcome.devices.keys := by
    rw [hchild.handedOut, ← hkeys]
    exact (List.take_prefix n d.batches).flatten.flatten
  refine ⟨hgate.ready, ?_, ?_, hprefix, fun hret => ?_⟩
  · rw [hchild.inputs, childIndex_buildChildInputs]
    simp [buildChildInputs]
  · exact d.signal.inventoryOutcome.devices.keys_nodup.sublist hprefix.sublist
  · rw [hchild.handedOut, List.take_of_length_le (hchild.complete hret), hkeys]

/-- Approved at once, the three devices are handed out in order. -/
theorem approvedAtOnce_devices : ∃ s,
    runSteps demo.step (init demoRow) (approvedAtOnce ++ toTheEnd) = some s ∧
      s.position = .returned ∧ handedOut s = ["a", "b", "c"] := by
  refine ⟨_, rfl, rfl, ?_⟩
  exact (@batches_approved_devices_once demo _ demoRow (approvedAtOnce ++ toTheEnd)
    (by decide +kernel) rfl).2.2.2.2 rfl

/-- An approval of all batches that has read the second gate writes its flag at the third: the
approval of the third batch that another user sends finds the row paused for the second one. -/
theorem staleFlag_unauthorised : ∃ s, runSteps demo.step (init demoRow) staleFlag = some s ∧
    s.position = .ready 2 ∧ ¬ Authorised demo s 2 := by
  refine ⟨_, rfl, rfl, ?_⟩
  unfold Authorised
  decide +kernel

end Children

end Manus.Gates
