import Manus.Runs.Gates

/-! # Approving all batches

The flag of an approval of all batches is where the worker will find it as long
as it was written in time. From then on the worker pauses at no further gate, and
no batch runs with the row paused.
-/

namespace Manus.Gates

/-- An approval of all batches writes its flag while the worker waits, or has read the flag, or has
left the loop. -/
def inTime (s : State) : Move → Bool
  | .flag _ => match s.position with
    | .waiting _ | .returned | .raised => true
    | .woken _ row => autoApproveRemaining row
    | _ => false
  | _ => true

def Flagged (s : State) : Prop :=
  match s.position with
  | .waiting _ => autoApproveRemaining s.row = true
  | .woken _ row => autoApproveRemaining row = true
  | .returned | .raised => True
  | _ => s.loop.autoApproveRemaining = true

def State.approvedAll (s : State) : Prop :=
  s.returnedAll = true ∨ ∃ i state, s.calls i = .flagged state

structure FlagInv (s : State) : Prop where
  live : Live s.row
  paused : s.row.status = .paused → (∃ k, s.position = .waiting k) ∨
    (∃ k row, s.position = .woken k row) ∨ s.position = .returned ∨ s.position = .raised
  approved : s.approvedAll → Flagged s

variable {d : Dispatch} {s s' : State} {move : Move}

theorem approvedAll_setCall {i : ℕ} {call : Call} (hcall : ∀ state, call ≠ .flagged state)
    (h : (s.setCall i call).approvedAll) : s.approvedAll := by
  rcases h with h | ⟨j, state, hj⟩
  · exact .inl h
  · by_cases hij : j = i
    · subst hij
      exact absurd ((Function.update_self ..).symm.trans hj) (hcall state)
    · exact .inr ⟨j, state, (Function.update_of_ne hij ..).symm.trans hj⟩

theorem FlagInv.setCall (h : FlagInv s) (i : ℕ) {call : Call}
    (hcall : ∀ state, call ≠ .flagged state) : FlagInv (s.setCall i call) :=
  ⟨h.live, h.paused, fun ha => h.approved (approvedAll_setCall hcall ha)⟩

theorem FlagInv.push (h : FlagInv s) {i k : ℕ} {delivered : Bool} :
    FlagInv (d.pushBatchEvent s i k delivered) := by
  have hidle : FlagInv (s.setCall i .idle) := h.setCall i (by simp)
  unfold Dispatch.pushBatchEvent
  split
  · exact ⟨hidle.live, hidle.paused, hidle.approved⟩
  · exact hidle

theorem FlagInv.advance (h : FlagInv s) {position : Position} {loop : BatchState}
    (hpaused : s.row.status ≠ .paused)
    (hflag : Flagged s → Flagged { s with position, loop }) :
    FlagInv { s with position, loop } :=
  ⟨h.live, fun hp => absurd hp hpaused, fun ha => hflag (h.approved ha)⟩

theorem FlagInv.not_paused (h : FlagInv s) {k : ℕ}
    (hpos : s.position = .gate k ∨ s.position = .ready k ∨ s.position = .running k) :
    s.row.status ≠ .paused := by
  intro hp
  have := h.paused hp
  rcases hpos with hpos | hpos | hpos <;> simp [hpos] at this

theorem FlagInv.step (hstep : Step d s move s') (ht : inTime s move = true) (h : FlagInv s) :
    FlagInv s' := by
  cases hstep with
  | finish hpos _ =>
    exact h.advance (h.not_paused (.inl hpos)) fun _ => trivial
  | @pause k batch hpos hbatch hgate =>
    obtain ⟨hstatus, -⟩ := h.live.update .paused (by decide) (d.pauseFields k batch s.loop)
    refine ⟨.inr hstatus, fun _ => .inl ⟨k, rfl⟩, fun ha => ?_⟩
    -- the worker knows the flag already, so the gate is open
    have hflag := h.approved ha
    simp only [Flagged, hpos] at hflag
    simp [batchNeedsApprovalGate, hflag] at hgate
  | pass hpos _ =>
    refine h.advance (h.not_paused (.inl hpos)) fun hflag => ?_
    simpa only [Flagged, hpos] using hflag
  | @wake k hpos _ =>
    refine ⟨h.live, fun _ => .inr (.inl ⟨k, s.row, rfl⟩), fun ha => ?_⟩
    have hflag := h.approved ha
    simpa only [Flagged, hpos] using hflag
  | @resume k row hpos =>
    have hresumed := fun fields => (h.live.update .running (by decide) fields).1
    refine ⟨.inl (hresumed _), fun hp => ?_, fun ha => ?_⟩
    · exact absurd (hp.symm.trans (hresumed _)) (by decide)
    · have hflag := h.approved ha
      simpa only [Flagged, hpos, Dispatch.resume] using hflag
  | runGroups hpos _ =>
    have hpaused := h.not_paused (.inr (.inl hpos))
    refine ⟨h.live, fun hp => absurd hp hpaused, fun ha => ?_⟩
    have hflag := h.approved ha
    simpa only [Flagged, hpos, Dispatch.runGroups] using hflag
  | collect hpos _ =>
    refine h.advance (h.not_paused (.inr (.inr hpos))) fun hflag => ?_
    simpa only [Flagged, hpos, afterBatch] using hflag
  | raise => exact ⟨h.live, fun _ => .inr (.inr (.inr rfl)), fun _ => trivial⟩
  | refuse => exact h
  | approveBatch _ => exact h.setCall _ (by simp)
  | approveAll _ => exact h.setCall _ (by simp)
  | @flag i state hcall =>
    obtain ⟨hstatus, hstate⟩ := h.live.update .paused (by decide)
      { approvalState := some { state with autoApproveRemaining := true } }
    refine ⟨.inr hstatus, fun _ => ?_, fun _ => ?_⟩
    · simp only [inTime] at ht
      split at ht
      · exact .inl ⟨_, ‹_›⟩
      · exact .inr (.inr (.inl ‹_›))
      · exact .inr (.inr (.inr ‹_›))
      · exact .inr (.inl ⟨_, _, ‹_›⟩)
      · cases ht
    · simp only [inTime] at ht
      simp only [Flagged, Dispatch.flag, State.setCall]
      split at ht
      · rename_i hpos
        simp [hpos, autoApproveRemaining, hstate]
      · simp [*]
      · simp [*]
      · rename_i hpos
        simpa [hpos] using ht
      · cases ht
  | pushBatch _ => exact h.push
  | @pushAll i state delivered hcall =>
    have hpush : FlagInv (d.pushBatchEvent s i state.nextBatchIndex delivered) := h.push
    have hflag := h.approved (.inr ⟨i, state, hcall⟩)
    refine ⟨hpush.live, hpush.paused, fun _ => ?_⟩
    unfold Dispatch.pushBatchEvent
    split
    · exact hflag
    · exact hflag

theorem flagInv_init (row : RunRow) : FlagInv (init row) := by
  refine ⟨.inl rfl, (fun hp => nomatch hp), ?_⟩
  rintro (h | ⟨i, state, h⟩)
  · cases h
  · cases h

theorem pauses_step (hstep : Step d s move s') (h : FlagInv s) (ha : s.approvedAll) :
    s'.pauses = s.pauses := by
  cases hstep with
  | pause hpos _ hgate =>
    have hflag := h.approved ha
    simp only [Flagged, hpos] at hflag
    simp [batchNeedsApprovalGate, hflag] at hgate
  | pushBatch _ =>
    unfold Dispatch.pushBatchEvent
    split <;> rfl
  | pushAll _ =>
    unfold Dispatch.pushBatchEvent
    split <;> rfl
  | _ => rfl

theorem returnedAll_step (hstep : Step d s move s') (h : s.returnedAll = true) :
    s'.returnedAll = true := by
  cases hstep with
  | pushBatch _ =>
    unfold Dispatch.pushBatchEvent
    split
    · exact h
    · exact h
  | pushAll _ => simp [h]
  | _ => exact h

/-- In every run in which an approval of all batches writes its flag only while the worker waits,
has read the flag, or has left the loop: when such an approval has returned, the worker never again
pauses at a gate; and a batch never runs with the row paused. -/
theorem approveAll_never_lost {row : RunRow} {moves moves' : List Move} {s s' : State}
    (htime : along d.step inTime (init row) (moves ++ moves') = true)
    (hrun : runSteps d.step (init row) moves = some s)
    (hrun' : runSteps d.step s moves' = some s') :
    (s.returnedAll = true → s'.pauses = s.pauses) ∧
      ∀ k, s'.position = .running k → s'.row.status ≠ .paused := by
  obtain ⟨ht, ht'⟩ := along_append hrun htime
  have hstep : ∀ t move t', inTime t move = true → d.step t move = some t' → FlagInv t →
      FlagInv t' := fun _ _ _ ht hs => FlagInv.step (step_cases hs) ht
  have hinv := runSteps_induction hstep hrun ht (flagInv_init row)
  have hinv' := runSteps_induction hstep hrun' ht' hinv
  refine ⟨fun hret => ?_, fun k hpos => hinv'.not_paused (.inr (.inr hpos))⟩
  refine (runSteps_induction (P := fun t => FlagInv t ∧ t.returnedAll = true ∧ t.pauses = s.pauses)
    ?_ hrun' ht' ⟨hinv, hret, rfl⟩).2.2
  rintro t move t' htest hstep ⟨hI, hr, hp⟩
  have hstep := step_cases hstep
  exact ⟨hI.step hstep htest, returnedAll_step hstep hr,
    (pauses_step hstep hI (.inl hr)).trans hp⟩

/-- Approved in time at the first gate, the rest of the batches run without a further pause. -/
theorem approvedAtOnce_kept : ∃ s s', runSteps demo.step (init demoRow) approvedAtOnce = some s ∧
    runSteps demo.step s toTheEnd = some s' ∧ s.returnedAll = true ∧ s'.position = .returned ∧
    s'.pauses = s.pauses := by
  refine ⟨_, _, rfl, rfl, rfl, rfl, ?_⟩
  exact (@approveAll_never_lost demo demoRow approvedAtOnce toTheEnd _ _ (by decide +kernel) rfl
    rfl).1 rfl

/-- One user's approval of all batches reads the gate of the second batch, another user releases
that batch, and the first one's write comes when it runs already: the row is paused during the
batch, and the worker pauses again in front of the third. -/
theorem lateFlag_lost : ∃ s s', runSteps demo.step (init demoRow) lateFlag = some s ∧
    runSteps demo.step s [.collect [demoResult], .enter] = some s' ∧ s.returnedAll = true ∧
    s.position = .running 1 ∧ s.row.status = .paused ∧ s.pauses = [1] ∧ s'.pauses = [2, 1] := by
  refine ⟨_, _, rfl, rfl, rfl, rfl, rfl, rfl, rfl⟩

end Manus.Gates
