import Manus.Lib.Steps
import Manus.Runs.Repository

/-! # Deploying a change request

One change request, the runs that carry its id, the calls that approve and deploy
it, and the workers. A call wins the request by a conditional update, creates the
run, hands it to the engine and records what the engine answered. When any of
this raises, the request is put back for another approval, also when the engine
has taken the run by then, and also when the run could not be marked failed. So at most one run
executes if a request is put back only when no worker has begun a run of it or still can.
-/

namespace Manus.ChangeRequests

section Model

inductive Status where
  | staged
  | approved
  | deploying
  | deployed
  | failed
  | rejected
  | expired
  deriving DecidableEq, Repr

/-- How far a call that approves or deploys has got: it has won the request, has created its run,
has handed it to the engine, has recorded the engine's id; or something has raised, and it is to
fail the run, or to put the request back. -/
inductive Call where
  | idle
  | won (revertTo : Status)
  | created (revertTo : Status) (runId : ℕ)
  | handed (revertTo : Status) (runId : ℕ)
  | recorded (runId : ℕ)
  | raised (revertTo : Status) (runId : ℕ)
  | reverting (revertTo : Status)

/-- How the call to the engine ends: the run is taken, it is not, or it is taken and the answer is
lost. -/
inductive Answer where
  | done
  | failed
  | lost
  deriving DecidableEq, Repr

/-- The request, the runs that carry its id, what the engine has of them, the calls, what a
reconciliation is about to write, and the runs a worker has begun and has executed a step of. -/
structure World where
  status : Status := .staged
  deployRunId : Option ℕ := none
  runs : ℕ → Option RunStatus := fun _ => none
  nextRunId : ℕ := 0
  accepted : List ℕ := []
  calls : ℕ → Call := fun _ => .idle
  verdicts : ℕ → Option Status := fun _ => none
  begun : List ℕ := []
  executed : List ℕ := []

inductive Move where
  | approve (call : ℕ)
  | deploy (call : ℕ)
  | createRun (call : ℕ) (valid : Bool)
  | runNoWait (call : ℕ) (answer : Answer)
  | recordHatchetRunId (call : ℕ) (stored : Bool)
  | finish (call : ℕ)
  | failRun (call : ℕ)
  | revert (call : ℕ)
  | markReviewed
  | reject
  | expire
  | reconcile (call : ℕ) (graceOver : Bool)
  | settle (call : ℕ)
  | prepare (runId : ℕ)
  | phase1 (runId : ℕ)
  | executeStep (runId : ℕ)
  | endRun (runId : ℕ) (status : RunStatus)
  | deleteRun (runId : ℕ)

namespace World

def setCall (w : World) (call : ℕ) (value : Call) : World :=
  { w with calls := Function.update w.calls call value }

def setRun (w : World) (runId : ℕ) (status : Option RunStatus) : World :=
  { w with runs := Function.update w.runs runId status }

@[simp] theorem setRun_self (w : World) (runId : ℕ) (status : Option RunStatus) :
    (w.setRun runId status).runs runId = status := Function.update_self ..

theorem setRun_of_ne (w : World) {runId r : ℕ} (h : r ≠ runId) (status : Option RunStatus) :
    (w.setRun runId status).runs r = w.runs r := Function.update_of_ne h ..

@[simp] theorem setCall_self (w : World) (call : ℕ) (value : Call) :
    (w.setCall call value).calls call = value := Function.update_self ..

theorem setCall_of_ne (w : World) {call i : ℕ} (h : i ≠ call) (value : Call) :
    (w.setCall call value).calls i = w.calls i := Function.update_of_ne h ..

def transition (w : World) (expected : List Status) (status : Status) : World :=
  if w.status ∈ expected then { w with status } else w

/-- `update_run_status`: only a run that is not over is written. -/
def updateRunStatus (w : World) (runId : ℕ) (status : RunStatus) : World :=
  match w.runs runId with
  | some old => if old ∈ terminalRunStatuses then w else w.setRun runId (some status)
  | none => w

/-- What a reconciliation writes: a request is over when its run is, when that run is gone, and when
none was recorded in time. -/
def verdict (w : World) (graceOver : Bool) : Option Status :=
  if w.status ≠ .deploying then none
  else match w.deployRunId with
    | none => if graceOver then some .failed else none
    | some runId => match w.runs runId with
      | none => some .failed
      | some .success => some .deployed
      | some .failed | some .cancelled => some .failed
      | some _ => none

/-- A call wins the request from one status, which a failure of the dispatch brings back. -/
def win (w : World) (call : ℕ) (expected : Status) : World :=
  if w.status = expected then { w.setCall call (.won expected) with status := .deploying } else w

end World

/-- One step; `none` when it cannot be taken, the unchanged world when a guard refuses it. -/
def step (w : World) : Move → Option World
  | .approve i => match w.calls i with
    | .idle => some (w.win i .staged)
    | _ => none
  | .deploy i => match w.calls i with
    | .idle => some (w.win i .approved)
    | _ => none
  | .createRun i valid => match w.calls i with
    | .won revertTo =>
      if valid then
        some { (w.setRun w.nextRunId (some .pending)).setCall i (.created revertTo w.nextRunId) with
          nextRunId := w.nextRunId + 1 }
      else some (w.setCall i (.reverting revertTo))
    | _ => none
  | .runNoWait i answer => match w.calls i with
    | .created revertTo runId =>
      some { w.setCall i (if answer = .done then .handed revertTo runId
        else .raised revertTo runId) with
          accepted := if answer = .failed then w.accepted else runId :: w.accepted }
    | _ => none
  | .recordHatchetRunId i stored => match w.calls i with
    | .handed revertTo runId =>
      some (w.setCall i (if stored then .recorded runId else .raised revertTo runId))
    | _ => none
  | .finish i => match w.calls i with
    | .recorded runId => some { w.setCall i .idle with deployRunId := some runId }
    | _ => none
  | .failRun i => match w.calls i with
    | .raised revertTo runId =>
      some ((w.updateRunStatus runId .failed).setCall i (.reverting revertTo))
    | _ => none
  | .revert i => match w.calls i with
    | .reverting revertTo => some ((w.transition [.deploying] revertTo).setCall i .idle)
    | _ => none
  | .markReviewed => some (w.transition [.staged] .approved)
  | .reject => some (w.transition [.staged, .approved] .rejected)
  | .expire => some (w.transition [.staged] .expired)
  | .reconcile i graceOver =>
    some { w with verdicts := Function.update w.verdicts i (w.verdict graceOver) }
  | .settle i => match w.verdicts i with
    | some status => some { w.transition [.deploying] status with
        verdicts := Function.update w.verdicts i none }
    | none => none
  | .prepare runId =>
    if runId ∈ w.accepted ∧ w.runs runId = some .pending then some (w.setRun runId (some .running))
    else none
  | .phase1 runId =>
    if runId ∈ w.accepted ∧ w.runs runId = some .running then
      some { w with begun := runId :: w.begun }
    else none
  | .executeStep runId =>
    if runId ∈ w.begun then some { w with executed := runId :: w.executed } else none
  | .endRun runId status =>
    if status ∈ terminalRunStatuses then some (w.updateRunStatus runId status) else none
  | .deleteRun runId => match w.runs runId with
    | some status => if status ∈ terminalRunStatuses then some (w.setRun runId none) else none
    | none => none

/-- A move of the calls and the workers; an exception that leaves the run of a call as it is; the
death of a call; a worker or an approver that pauses or resumes a run. -/
inductive Event where
  | base (move : Move)
  | leaveRun (call : ℕ)
  | crash (call : ℕ)
  | writeRun (runId : ℕ) (status : RunStatus)

/-- One event; `none` when it cannot happen. -/
def react (w : World) : Event → Option World
  | .base move => step w move
  | .leaveRun i => match w.calls i with
    -- between the commit of the request's id and the guarded handover, or in the except branch
    | .created revertTo _ | .raised revertTo _ => some (w.setCall i (.reverting revertTo))
    | _ => none
  | .crash i => some (w.setCall i .idle)
  | .writeRun runId status =>
    if status ∈ [.running, .paused] then some (w.updateRunStatus runId status) else none

end Model

section Cases

/-- What an event does when it happens. -/
inductive React (w : World) : Event → World → Prop
  | approve {i : ℕ} : React w (.base (.approve i)) (w.win i .staged)
  | deploy {i : ℕ} : React w (.base (.deploy i)) (w.win i .approved)
  | createRun {i : ℕ} {revertTo : Status} : w.calls i = .won revertTo →
      React w (.base (.createRun i true))
        { (w.setRun w.nextRunId (some .pending)).setCall i (.created revertTo w.nextRunId) with
          nextRunId := w.nextRunId + 1 }
  | refuseRun {i : ℕ} {revertTo : Status} : w.calls i = .won revertTo →
      React w (.base (.createRun i false)) (w.setCall i (.reverting revertTo))
  | runNoWait {i runId : ℕ} {revertTo : Status} {answer : Answer} :
      w.calls i = .created revertTo runId → React w (.base (.runNoWait i answer))
        { w.setCall i (if answer = .done then .handed revertTo runId
          else .raised revertTo runId) with
          accepted := if answer = .failed then w.accepted else runId :: w.accepted }
  | record {i runId : ℕ} {revertTo : Status} {stored : Bool} :
      w.calls i = .handed revertTo runId → React w (.base (.recordHatchetRunId i stored))
        (w.setCall i (if stored then .recorded runId else .raised revertTo runId))
  | finish {i runId : ℕ} : w.calls i = .recorded runId →
      React w (.base (.finish i)) { w.setCall i .idle with deployRunId := some runId }
  | failRun {i runId : ℕ} {revertTo : Status} : w.calls i = .raised revertTo runId →
      React w (.base (.failRun i))
        ((w.updateRunStatus runId .failed).setCall i (.reverting revertTo))
  | revert {i : ℕ} {revertTo : Status} : w.calls i = .reverting revertTo →
      React w (.base (.revert i)) ((w.transition [.deploying] revertTo).setCall i .idle)
  | markReviewed : React w (.base .markReviewed) (w.transition [.staged] .approved)
  | reject : React w (.base .reject) (w.transition [.staged, .approved] .rejected)
  | expire : React w (.base .expire) (w.transition [.staged] .expired)
  | reconcile {i : ℕ} {graceOver : Bool} : React w (.base (.reconcile i graceOver))
      { w with verdicts := Function.update w.verdicts i (w.verdict graceOver) }
  | settle {i : ℕ} {status : Status} : w.verdicts i = some status → React w (.base (.settle i))
      { w.transition [.deploying] status with verdicts := Function.update w.verdicts i none }
  | prepare {runId : ℕ} : w.runs runId = some .pending →
      React w (.base (.prepare runId)) (w.setRun runId (some .running))
  | phase1 {runId : ℕ} : runId ∈ w.accepted → w.runs runId = some .running →
      React w (.base (.phase1 runId)) { w with begun := runId :: w.begun }
  | executeStep {runId : ℕ} : runId ∈ w.begun →
      React w (.base (.executeStep runId)) { w with executed := runId :: w.executed }
  | endRun {runId : ℕ} {status : RunStatus} :
      React w (.base (.endRun runId status)) (w.updateRunStatus runId status)
  | deleteRun {runId : ℕ} : React w (.base (.deleteRun runId)) (w.setRun runId none)
  | leaveRun {i runId : ℕ} {revertTo : Status} :
      w.calls i = .created revertTo runId ∨ w.calls i = .raised revertTo runId →
      React w (.leaveRun i) (w.setCall i (.reverting revertTo))
  | crash {i : ℕ} : React w (.crash i) (w.setCall i .idle)
  | writeRun {runId : ℕ} {status : RunStatus} :
      React w (.writeRun runId status) (w.updateRunStatus runId status)

theorem react_cases {w w' : World} {event : Event} (h : react w event = some w') :
    React w event w' := by
  cases event with
  | base move =>
    simp only [react] at h
    cases move with
    | approve i =>
      simp only [step] at h
      split at h <;> cases h
      exact .approve
    | deploy i =>
      simp only [step] at h
      split at h <;> cases h
      exact .deploy
    | createRun i valid =>
      simp only [step] at h
      split at h
      · rename_i revertTo hi
        cases valid with
        | true =>
          cases h
          exact .createRun hi
        | false =>
          cases h
          exact .refuseRun hi
      · cases h
    | runNoWait i answer =>
      simp only [step] at h
      split at h <;> cases h
      rename_i revertTo runId hi
      exact .runNoWait hi
    | recordHatchetRunId i stored =>
      simp only [step] at h
      split at h <;> cases h
      rename_i revertTo runId hi
      exact .record hi
    | finish i =>
      simp only [step] at h
      split at h <;> cases h
      rename_i runId hi
      exact .finish hi
    | failRun i =>
      simp only [step] at h
      split at h <;> cases h
      rename_i revertTo runId hi
      exact .failRun hi
    | revert i =>
      simp only [step] at h
      split at h <;> cases h
      rename_i revertTo hi
      exact .revert hi
    | markReviewed =>
      cases h
      exact .markReviewed
    | reject =>
      cases h
      exact .reject
    | expire =>
      cases h
      exact .expire
    | reconcile i graceOver =>
      cases h
      exact .reconcile
    | settle i =>
      simp only [step] at h
      split at h <;> cases h
      rename_i status hv
      exact .settle hv
    | prepare runId =>
      simp only [step] at h
      split at h <;> cases h
      rename_i hpending
      exact .prepare hpending.2
    | phase1 runId =>
      simp only [step] at h
      split at h <;> cases h
      rename_i hrunning
      exact .phase1 hrunning.1 hrunning.2
    | executeStep runId =>
      simp only [step] at h
      split at h <;> cases h
      rename_i hbegun
      exact .executeStep hbegun
    | endRun runId status =>
      simp only [step] at h
      split at h <;> cases h
      exact .endRun
    | deleteRun runId =>
      simp only [step] at h
      split at h
      · split at h <;> cases h
        exact .deleteRun
      · cases h
  | leaveRun i =>
    simp only [react] at h
    split at h <;> cases h
    · rename_i revertTo runId hi
      exact .leaveRun (.inl hi)
    · rename_i revertTo runId hi
      exact .leaveRun (.inr hi)
  | crash i =>
    cases h
    exact .crash
  | writeRun runId status =>
    simp only [react] at h
    split at h <;> cases h
    exact .writeRun

end Cases

section AtMostOne

/-- No worker has begun the run or can begin it. -/
def Dead (w : World) (r : ℕ) : Prop :=
  r ∉ w.begun ∧ (r ∈ w.accepted → ∀ status, w.runs r = some status → status ∈ terminalRunStatuses)

/-- The request is put back only when all its runs are dead. -/
def PutBackDead (w : World) : Event → Prop
  | .base (.revert _) => w.status = .deploying → ∀ r, Dead w r
  | _ => True

def Call.runId : Call → Option ℕ
  | .idle | .won _ | .reverting _ => none
  | .created _ runId | .handed _ runId | .recorded runId | .raised _ runId => some runId

def takenStatuses : List Status := [.deploying, .deployed, .failed]

/-- What holds while only dead runs are put back: one call at a time holds the request, all runs
are dead when the request can be won or a call has won it, and always all but one are. -/
structure Inv (w : World) : Prop where
  ran : ∀ r ∈ w.executed, r ∈ w.begun
  one : ∀ i j, w.calls i ≠ .idle → w.calls j ≠ .idle → i = j
  held : ∀ i, w.calls i ≠ .idle → w.status ∈ takenStatuses
  won : ∀ i revertTo, w.calls i = .won revertTo → ∀ r, Dead w r
  free : w.status ∉ takenStatuses → ∀ r, Dead w r
  lone : ∃ r₀, (∀ r, r ≠ r₀ → Dead w r) ∧ ∀ i r, (w.calls i).runId = some r → r = r₀
  verdicts : ∀ i status, w.verdicts i = some status → status ∈ takenStatuses

variable {w w' : World}

section Runs

theorem not_dead {r : ℕ} {status : RunStatus} (haccepted : r ∈ w.accepted)
    (hr : w.runs r = some status) (hs : status ∉ terminalRunStatuses) : ¬ Dead w r :=
  fun h => hs (h.2 haccepted status hr)

theorem Dead.setRun {r runId : ℕ} (h : Dead w r) {status : Option RunStatus}
    (hs : r = runId → r ∈ w.accepted → ∀ st ∈ status, st ∈ terminalRunStatuses) :
    Dead (w.setRun runId status) r := by
  refine ⟨h.1, fun haccepted st hst => ?_⟩
  by_cases hr : r = runId
  · subst hr
    rw [World.setRun_self] at hst
    exact hs rfl haccepted st hst
  · rw [World.setRun_of_ne w hr] at hst
    exact h.2 haccepted st hst

theorem Dead.updateRunStatus {r runId : ℕ} (h : Dead w r) (status : RunStatus) :
    Dead (w.updateRunStatus runId status) r := by
  unfold World.updateRunStatus
  split
  · rename_i old hold
    split
    · exact h
    · rename_i hlive
      refine h.setRun fun hr haccepted => ?_
      subst hr
      exact absurd h (not_dead haccepted hold hlive)
  · exact h

theorem updateRunStatus_frame (w : World) (runId : ℕ) (status : RunStatus) :
    ∃ runs, w.updateRunStatus runId status = { w with runs } := by
  unfold World.updateRunStatus
  split
  · split
    · exact ⟨_, rfl⟩
    · exact ⟨_, rfl⟩
  · exact ⟨_, rfl⟩

end Runs

theorem Inv.idle (h : Inv w) (hs : w.status ∉ takenStatuses) (i : ℕ) : w.calls i = .idle := by
  by_contra hi
  exact hs (h.held i hi)

/-- A step of the workers or of a reconciliation. -/
theorem Inv.runs (h : Inv w) (hstatus : w'.status = w.status) (hcalls : w'.calls = w.calls)
    (hverdicts : ∀ i status, w'.verdicts i = some status → status ∈ takenStatuses)
    (hran : ∀ r ∈ w'.executed, r ∈ w'.begun) (hdead : ∀ r, Dead w r → Dead w' r) : Inv w' where
  ran := hran
  one i j hi hj := h.one i j (hcalls ▸ hi) (hcalls ▸ hj)
  held i hi := by
    rw [hstatus]
    exact h.held i (hcalls ▸ hi)
  won i revertTo hi r := hdead r (h.won i revertTo (hcalls ▸ hi) r)
  free hs r := hdead r (h.free (hstatus ▸ hs) r)
  lone := by
    obtain ⟨r₀, hdead₀, hrun⟩ := h.lone
    rw [hcalls]
    exact ⟨r₀, fun r hr => hdead r (hdead₀ r hr), hrun⟩
  verdicts := hverdicts

/-- A call goes on; it may hand over its run, and no other comes to life. -/
theorem Inv.goOn (h : Inv w) {i : ℕ} {call : Call} (hidle : call ≠ .idle → w.calls i ≠ .idle)
    (hstatus : w'.status = w.status) (hcalls : w'.calls = Function.update w.calls i call)
    (hverdicts : w'.verdicts = w.verdicts) (hexecuted : w'.executed = w.executed)
    (hbegun : w'.begun = w.begun) (hwon : ∀ revertTo, call ≠ .won revertTo)
    (hrun : ∀ r, call.runId = some r → (w.calls i).runId = some r)
    (hdead : ∀ r, (w.calls i).runId ≠ some r → Dead w r → Dead w' r) : Inv w' := by
  have hself : w'.calls i = call := by rw [hcalls, Function.update_self]
  have hother : ∀ j, j ≠ i → w'.calls j = w.calls j := by
    intro j hj
    rw [hcalls, Function.update_of_ne hj]
  have hbusy : ∀ j, w'.calls j ≠ .idle → w.calls j ≠ .idle := by
    intro j hj
    by_cases hji : j = i
    · subst hji
      rw [hself] at hj
      exact hidle hj
    · rwa [hother j hji] at hj
  constructor
  case ran =>
    rw [hexecuted, hbegun]
    exact h.ran
  case one => exact fun j k hj hk => h.one j k (hbusy j hj) (hbusy k hk)
  case held =>
    rw [hstatus]
    exact fun j hj => h.held j (hbusy j hj)
  case won =>
    intro j revertTo hj
    by_cases hji : j = i
    · subst hji
      exact absurd (hself.symm.trans hj) (hwon revertTo)
    · rw [hother j hji] at hj
      by_cases hi : w.calls i = .idle
      · exact fun r => hdead r (by simp [hi, Call.runId]) (h.won j revertTo hj r)
      · exact absurd (h.one j i (by simp [hj]) hi) hji
  case free =>
    intro hs r
    rw [hstatus] at hs
    exact hdead r (by simp [h.idle hs i, Call.runId]) (h.free hs r)
  case lone =>
    obtain ⟨r₀, hdead₀, hrun₀⟩ := h.lone
    refine ⟨r₀, fun r hr => hdead r (fun hi => hr (hrun₀ i r hi)) (hdead₀ r hr), fun j r hj => ?_⟩
    by_cases hji : j = i
    · subst hji
      rw [hself] at hj
      exact hrun₀ j r (hrun r hj)
    · rw [hother j hji] at hj
      exact hrun₀ j r hj
  case verdicts =>
    rw [hverdicts]
    exact h.verdicts

/-- All runs are dead, and at most the given call, about a run yet to be handed over, is not
idle. -/
theorem Inv.fresh (h : Inv w) {i : ℕ} (hcalls : ∀ j, j ≠ i → w'.calls j = .idle)
    (hheld : w'.calls i ≠ .idle → w'.status ∈ takenStatuses)
    (hdead : ∀ r, (w'.calls i).runId ≠ some r → Dead w' r)
    (hverdicts : w'.verdicts = w.verdicts) (hexecuted : w'.executed = w.executed)
    (hbegun : w'.begun = w.begun) : Inv w' := by
  have heq : ∀ j, w'.calls j ≠ .idle → j = i := by
    intro j hj
    by_contra hji
    exact hj (hcalls j hji)
  constructor
  case ran =>
    rw [hexecuted, hbegun]
    exact h.ran
  case one => exact fun j k hj hk => (heq j hj).trans (heq k hk).symm
  case held =>
    intro j hj
    exact hheld (heq j hj ▸ hj)
  case won =>
    intro j revertTo hj r
    obtain rfl := heq j (by simp [hj])
    exact hdead r (by simp [hj, Call.runId])
  case free =>
    intro hs r
    by_cases hi : w'.calls i = .idle
    · exact hdead r (by simp [hi, Call.runId])
    · exact absurd (hheld hi) hs
  case lone =>
    cases hrun : (w'.calls i).runId with
    | none =>
      refine ⟨0, fun r _ => hdead r (by simp [hrun]), fun j r hj => ?_⟩
      by_cases hji : j = i
      · rw [hji, hrun] at hj
        cases hj
      · rw [hcalls j hji] at hj
        cases hj
    | some r₀ =>
      refine ⟨r₀, fun r hr => hdead r (by simpa [hrun] using hr.symm), fun j r hj => ?_⟩
      by_cases hji : j = i
      · rw [hji, hrun] at hj
        exact (Option.some.inj hj).symm
      · rw [hcalls j hji] at hj
        cases hj
  case verdicts =>
    rw [hverdicts]
    exact h.verdicts

theorem Inv.win (h : Inv w) {i : ℕ} {expected : Status} (he : expected ∉ takenStatuses) :
    Inv (w.win i expected) := by
  unfold World.win
  split
  · rename_i hs
    have hfree : w.status ∉ takenStatuses := hs ▸ he
    have htaken : Status.deploying ∈ takenStatuses := by decide
    refine h.fresh (i := i) (fun j hj => ?_) (fun _ => htaken) (fun r _ => h.free hfree r) rfl rfl
      rfl
    exact (World.setCall_of_ne w hj _).trans (h.idle hfree j)
  · exact h

theorem Inv.transition (h : Inv w) {expected : List Status} (he : ∀ s ∈ expected, s ∉ takenStatuses)
    (status : Status) : Inv (w.transition expected status) := by
  unfold World.transition
  split
  · rename_i hs
    have hfree := he _ hs
    exact h.fresh (i := 0) (fun j _ => h.idle hfree j) (fun h0 => absurd (h.idle hfree 0) h0)
      (fun r _ => h.free hfree r) rfl rfl rfl
  · exact h

theorem Inv.settle (h : Inv w) {i : ℕ} {status : Status} (hv : w.verdicts i = some status) :
    Inv { w.transition [.deploying] status with
      verdicts := Function.update w.verdicts i none } := by
  have hverdicts : ∀ j s, Function.update w.verdicts i none j = some s → s ∈ takenStatuses := by
    intro j s hs
    by_cases hj : j = i
    · subst hj
      rw [Function.update_self] at hs
      cases hs
    · rw [Function.update_of_ne hj] at hs
      exact h.verdicts j s hs
  unfold World.transition
  split
  · have htaken := h.verdicts i status hv
    exact { h with
      held := fun _ _ => htaken
      free := fun hs => absurd htaken hs
      verdicts := hverdicts }
  · exact { h with verdicts := hverdicts }

theorem Inv.others (h : Inv w) {i : ℕ} (hi : w.calls i ≠ .idle) {j : ℕ} (hj : j ≠ i) :
    w.calls j = .idle := by
  by_contra hcall
  exact hj (h.one j i hcall hi)

theorem Inv.revert (h : Inv w) {i : ℕ} {revertTo : Status} (hi : w.calls i = .reverting revertTo)
    (hdead : w.status = .deploying → ∀ r, Dead w r) :
    Inv ((w.transition [.deploying] revertTo).setCall i .idle) := by
  have hne : w.calls i ≠ .idle := by simp [hi]
  unfold World.transition
  split
  · rename_i hs
    have hself := World.setCall_self { w with status := revertTo } i .idle
    refine h.fresh (i := i) (fun j hj => ?_) (fun hbusy => absurd hself hbusy)
      (fun r _ => hdead (List.mem_singleton.mp hs) r) rfl rfl rfl
    exact (World.setCall_of_ne _ hj _).trans (h.others hne hj)
  · exact h.goOn (i := i) (by simp) rfl rfl rfl rfl rfl nofun nofun fun _ _ hd => hd

theorem Inv.createRun (h : Inv w) {i : ℕ} {revertTo : Status} (hi : w.calls i = .won revertTo) :
    Inv { (w.setRun w.nextRunId (some .pending)).setCall i (.created revertTo w.nextRunId) with
      nextRunId := w.nextRunId + 1 } := by
  have hne : w.calls i ≠ .idle := by simp [hi]
  have hself := World.setCall_self (w.setRun w.nextRunId (some .pending)) i
    (.created revertTo w.nextRunId)
  refine h.fresh (i := i) (fun j hj => ?_) (fun _ => h.held i hne) (fun r hr => ?_) rfl rfl rfl
  · exact (World.setCall_of_ne _ hj _).trans (h.others hne hj)
  · have hrne : r ≠ w.nextRunId := by
      rintro rfl
      exact hr (congrArg Call.runId hself)
    exact (h.won i revertTo hi r).setRun fun he => absurd he hrne

theorem Inv.runNoWait (h : Inv w) {i runId : ℕ} {revertTo : Status} {answer : Answer}
    (hi : w.calls i = .created revertTo runId) :
    Inv { w.setCall i (if answer = .done then .handed revertTo runId
        else .raised revertTo runId) with
      accepted := if answer = .failed then w.accepted else runId :: w.accepted } := by
  refine h.goOn (i := i) (by simp [hi]) rfl rfl rfl rfl rfl ?_ ?_ fun r hr hd => ⟨hd.1, ?_⟩
  · intro rv
    split <;> exact nofun
  · intro r hr
    rw [hi]
    revert hr
    split <;> exact id
  · intro haccepted
    apply hd.2
    revert haccepted
    dsimp only
    split
    · exact id
    · intro hmem
      rcases List.mem_cons.mp hmem with rfl | hmem
      · exact absurd (congrArg Call.runId hi) hr
      · exact hmem

theorem Inv.updateRunStatus (h : Inv w) (runId : ℕ) (status : RunStatus) :
    Inv (w.updateRunStatus runId status) := by
  have hdead : ∀ r, Dead w r → Dead (w.updateRunStatus runId status) r :=
    fun r hd => hd.updateRunStatus status
  obtain ⟨runs, heq⟩ := updateRunStatus_frame w runId status
  rw [heq] at hdead ⊢
  exact h.runs rfl rfl h.verdicts h.ran hdead

theorem Inv.leave (h : Inv w) {i : ℕ} (hi : w.calls i ≠ .idle) (revertTo : Status) :
    Inv (w.setCall i (.reverting revertTo)) :=
  h.goOn (i := i) (fun _ => hi) rfl rfl rfl rfl rfl nofun nofun fun _ _ hd => hd

theorem Inv.stop (h : Inv w) (i : ℕ) : Inv (w.setCall i .idle) :=
  h.goOn (i := i) (by simp) rfl rfl rfl rfl rfl nofun nofun fun _ _ hd => hd

theorem verdict_taken {graceOver : Bool} {status : Status}
    (h : w.verdict graceOver = some status) : status ∈ takenStatuses := by
  unfold World.verdict at h
  repeat' split at h
  all_goals first
    | cases h; decide
    | cases h

theorem Inv.react {event : Event} (hevent : react w event = some w') (hmeets : PutBackDead w event)
    (h : Inv w) : Inv w' := by
  cases react_cases hevent with
  | approve => exact h.win (by decide)
  | deploy => exact h.win (by decide)
  | createRun hi => exact h.createRun hi
  | refuseRun hi => exact h.leave (by simp [hi]) _
  | runNoWait hi => exact h.runNoWait hi
  | record hi =>
    refine h.goOn (by simp [hi]) rfl rfl rfl rfl rfl ?_ ?_ fun _ _ hd => hd
    · intro rv
      split <;> exact nofun
    · intro r hr
      rw [hi]
      revert hr
      split <;> exact id
  | finish _ => exact h.goOn (by simp) rfl rfl rfl rfl rfl nofun nofun fun _ _ hd => hd
  | @failRun i runId revertTo hi =>
    apply (h.updateRunStatus runId .failed).leave
    obtain ⟨runs, heq⟩ := updateRunStatus_frame w runId .failed
    rw [heq]
    simp [hi]
  | revert hi => exact h.revert hi hmeets
  | markReviewed => exact h.transition (by decide) _
  | reject => exact h.transition (by decide) _
  | expire => exact h.transition (by decide) _
  | @reconcile i graceOver =>
    refine h.runs rfl rfl (fun j status hs => ?_) h.ran fun _ hd => hd
    dsimp only at hs
    by_cases hj : j = i
    · subst hj
      rw [Function.update_self] at hs
      exact verdict_taken hs
    · rw [Function.update_of_ne hj] at hs
      exact h.verdicts j status hs
  | settle hv => exact h.settle hv
  | prepare hpending =>
    refine h.runs rfl rfl h.verdicts h.ran fun r hd => hd.setRun fun he haccepted => ?_
    exact absurd hd (not_dead haccepted (he ▸ hpending) (by decide))
  | @phase1 runId haccepted hrunning =>
    have hran : ∀ r ∈ w.executed, r ∈ runId :: w.begun :=
      fun r hr => List.mem_cons_of_mem _ (h.ran r hr)
    refine h.runs rfl rfl h.verdicts hran fun r hd => ⟨fun hmem => ?_, hd.2⟩
    rcases List.mem_cons.mp hmem with rfl | hmem
    · exact not_dead haccepted hrunning (by decide) hd
    · exact hd.1 hmem
  | executeStep hbegun =>
    refine h.runs rfl rfl h.verdicts (fun r hr => ?_) fun _ hd => hd
    rcases List.mem_cons.mp hr with rfl | hr
    · exact hbegun
    · exact h.ran r hr
  | endRun => exact h.updateRunStatus _ _
  | deleteRun => exact h.runs rfl rfl h.verdicts h.ran fun r hd => hd.setRun fun _ _ => nofun
  | leaveRun hi => exact h.leave (by rcases hi with hi | hi <;> simp [hi]) _
  | crash => exact h.stop _
  | writeRun => exact h.updateRunStatus _ _

theorem inv_init : Inv {} where
  ran := nofun
  one _ _ hi := absurd rfl hi
  held _ hi := absurd rfl hi
  won := nofun
  free _ _ := ⟨nofun, nofun⟩
  lone := ⟨0, fun _ _ => ⟨nofun, nofun⟩, nofun⟩
  verdicts := nofun

/-- In every run in which a request is put back only when no worker has begun a run of it or can
begin one: at most one run of the change request ever executes a step. -/
theorem one_deploy_run {events : List Event} (hmeets : Along react PutBackDead {} events)
    (hrun : runSteps react {} events = some w) {a b : ℕ} (ha : a ∈ w.executed)
    (hb : b ∈ w.executed) : a = b := by
  have hinv : Inv w :=
    hmeets.invariant (fun _ _ _ hm hr h => Inv.react hr hm h) hrun inv_init
  obtain ⟨r₀, hlone, -⟩ := hinv.lone
  have honly : ∀ r ∈ w.executed, r = r₀ := by
    intro r hr
    by_contra hne
    exact (hlone r hne).1 (hinv.ran r hr)
  exact (honly a ha).trans (honly b hb).symm

def executes (runId : ℕ) : List Event :=
  [.base (.prepare runId), .base (.phase1 runId), .base (.executeStep runId)]

/-- The second approval of a request whose first dispatch was refused. -/
def approvedAgain : List Event :=
  [.base (.approve 0), .base (.createRun 0 true), .base (.runNoWait 0 .failed),
    .base (.failRun 0), .base (.revert 0), .base (.approve 1), .base (.createRun 1 true),
    .base (.runNoWait 1 .done)] ++ executes 1

theorem approvedAgain_once : ∃ w, runSteps react {} approvedAgain = some w ∧ w.executed = [1] ∧
    ∀ r ∈ w.executed, r = 1 := by
  have hmeets : Along react PutBackDead {} approvedAgain :=
    .cons rfl trivial <| .cons rfl trivial <| .cons rfl trivial <| .cons rfl trivial <|
      .cons rfl (fun _ _ => ⟨nofun, nofun⟩) <| .cons rfl trivial <| .cons rfl trivial <|
      .cons rfl trivial <| .cons rfl trivial <| .cons rfl trivial <| .cons rfl trivial trivial
  exact ⟨_, rfl, rfl, fun _ hr => one_deploy_run hmeets rfl hr List.mem_cons_self⟩

/-- The engine's id cannot be stored when a worker runs the first step already: the request goes
back, is approved again, and a second run executes. -/
def raisedTooLate : List Event :=
  [.base (.approve 0), .base (.createRun 0 true), .base (.runNoWait 0 .done)] ++ executes 0 ++
  [.base (.recordHatchetRunId 0 false), .base (.failRun 0), .base (.revert 0),
    .base (.approve 1), .base (.createRun 1 true), .base (.runNoWait 1 .done)] ++ executes 1

/-- The run cannot even be marked failed, and a worker takes it when the request is put back. -/
def neverFailed : List Event :=
  [.base (.approve 0), .base (.createRun 0 true), .base (.runNoWait 0 .lost), .leaveRun 0,
    .base (.revert 0)] ++ executes 0 ++
  [.base (.approve 1), .base (.createRun 1 true), .base (.runNoWait 1 .done)] ++ executes 1

theorem raisedTooLate_two :
    (∃ w, runSteps react {} raisedTooLate = some w ∧ w.executed = [1, 0]) ∧
      ∃ w, runSteps react {} neverFailed = some w ∧ w.executed = [1, 0] :=
  ⟨⟨_, rfl, rfl⟩, ⟨_, rfl, rfl⟩⟩

end AtMostOne

end Manus.ChangeRequests
