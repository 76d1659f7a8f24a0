import Manus.Runs.Repository

/-! # Starting, cancelling and finalising runs

The services around a run: creating and dispatching it, cancelling it with the
runs it started, finalising a run that nothing else can finish, and the approval
of Wait & Run batches.
-/

namespace Manus

variable {ω : Type}

/-- Whether a call that has no effect here succeeds. -/
def callSucceeds : Run ω Bool := .lift fun t w => some (t.oracle.ok, w)

section Cancel

/-- What follows once a row was asked to become cancelled: close its steps and, best effort, cancel
the run in the engine. -/
def settleCancel (runId : ℕ) (won : Bool) : Run ω Bool := do
  let row ← getRun runId
  if !won then return false
  finaliseOpenStepResults runId
  if (row.bind RunRow.hatchetRunId).any (· ≠ "") then
    if ← callSucceeds then return true
    else
      let _ ← transitionRun runId .cancelled (some [.cancelled]) {
        debugMessage := some ("The engine could not be reached; the run is cancelled here and " ++
          "the worker stops at the next step boundary.") }
      return true
  else return true

/-- Cancel one active run in the database and, best effort, in the engine. False when the run had
already finished. -/
def cancelActiveRun (runId : ℕ) : Run ω Bool := do
  settleCancel runId (← transitionRun runId .cancelled)

/-- Cancel the runs of a list that are still active, each with the runs below it; `seen` holds the
runs already visited. -/
def cancelEach (cancelBelow : ℕ → List ℕ → Run ω (List ℕ)) :
    List (ℕ × RunRow) → List ℕ → Run ω (List ℕ)
  | [], seen => return seen
  | (childId, row) :: rest, seen =>
    if childId ∈ seen then cancelEach cancelBelow rest seen
    else do
      if row.status ∈ activeRunStatuses then
        let _ ← cancelActiveRun childId
      let seen ← cancelBelow childId (childId :: seen)
      cancelEach cancelBelow rest seen

/-- Cancel the still active runs below a run. The chain of runs that start runs is at most
`maxChildRunDepth` long, which bounds the depth. -/
def cancelChildRuns : ℕ → ℕ → List ℕ → Run ω (List ℕ)
  | 0, _, seen => return seen
  | depth + 1, parentRunId, seen => do
    let children ← listChildren parentRunId
    cancelEach (cancelChildRuns depth) children seen

/-- A run started by a step of another run may itself start runs, to this depth. -/
def maxChildRunDepth : ℕ := 3

def cancelAllChildRuns (runId : ℕ) : Run ω Unit := do
  let _ ← cancelChildRuns (maxChildRunDepth + 1) runId [runId]

/-- Cancel a run with the runs below it; false when the call raises, because the run does not exist
or has finished. -/
def cancelRun (runId : ℕ) : Run ω Bool := do
  match ← getRun runId with
  | none => return false
  | some row =>
    if row.status ∉ activeRunStatuses then return false
    else if ← cancelActiveRun runId then do
      cancelAllChildRuns runId
      return true
    else return false

end Cancel

section Finalise

def interruptedMessage : String :=
  "The workflow task ended before the run finished (worker stopped, timeout or engine " ++
  "cancel). Devices may have been changed by the steps that had started."

def deliveredTwiceMessage : String :=
  "The run was delivered to a worker twice; it was not executed again so that no device " ++
  "is configured twice."

def internalMessage : String :=
  "The workflow engine hit an internal error; see the worker log for this error id."

/-- Finalise a run the orchestration could not finish. Nothing changes when it is terminal. -/
def failInterrupted (runId : ℕ) (message : String) : Run ω Bool := do
  if ← transitionRun runId .failed none { errorMessage := some message } then do
    finaliseOpenStepResults runId
    cancelAllChildRuns runId
    return true
  else return false

/-- What the reaper writes for an engine status; nothing while the engine still runs the task. -/
def reapMessage (status : String) : Option String :=
  if containsText "COMPLETED" status then
    some "The engine finished the task but no result was recorded."
  else if containsText "FAILED" status || containsText "CANCELLED" status then
    some "The engine ended the task before the run finished."
  else none
where
  /-- `text in status.upper()` for an upper-case ASCII text. -/
  containsText (text status : String) : Bool :=
    (status.toList.map Char.toUpper).tails.any fun l => text.toList.isPrefixOf l

/-- Ask the engine about a task; silence when it cannot be reached. -/
def askEngine : Run ω (Option String) := .lift fun t w => some (t.oracle.engineStatus, w)

/-- A listed row is read again once an earlier one was finalised. -/
def listedRow (runId : ℕ) (listed : RunRow) (expired : Bool) : Run ω RunRow :=
  if expired then (fun row => row.getD listed) <$> getRun runId else return listed

/-- Finalise the runs of a list that the engine no longer runs. -/
def reapEach : List (ℕ × RunRow) → Bool → Run ω Unit
  | [], _ => return
  | (runId, listed) :: rest, expired => do
    let row ← listedRow runId listed expired
    match row.hatchetRunId.filter (· ≠ "") with
    | none =>
      if row.status = .pending then do
        let _ ← failInterrupted runId "The run was never handed to the engine."
        reapEach rest true
      else reapEach rest expired
    | some _ =>
      match (← askEngine).bind reapMessage with
      | none => reapEach rest expired
      | some message => do
        let _ ← failInterrupted runId message
        reapEach rest true

/-- The reaper; `older` are the runs created before its cutoff. -/
def reapStuckRuns (older : List ℕ) : Run ω Unit := do
  let listed ← .get fun w => older.filterMap fun id =>
    (w.runs id).bind fun row => if row.status ∈ activeRunStatuses then some (id, row) else none
  reapEach listed false

end Finalise

section Start

structure NewRun where
  workflowId : ℕ
  uuid : String
  hatchetRunId : String
  runInputs : Dict Json := ∅
  parentRunId : Option ℕ := none
  ancestorWorkflowIds : List ℕ := []

/-- Hand a run to the engine, which may take it. -/
def submit (runId : ℕ) : Run ω Bool :=
  .lift fun t w => some (t.oracle.ok,
    if t.oracle.ok then { w with accepted := runId :: w.accepted } else w)

def engineUnavailable : RunFields :=
  { errorMessage := some "Workflow execution engine unavailable" }

/-- Hand a run to the engine and store its id there. The call may fail before the engine took the
run, its reply may be lost, and storing the id may fail. -/
def handOver (runId : ℕ) (hatchetRunId : String) : Run ω Bool := do
  if ← submit runId then
    if ← callSucceeds then
      recordHatchetRunId runId hatchetRunId
      callSucceeds
    else return false
  else return false

/-- Create a run, once its workflow passed validation, and dispatch it; a run that could not be
handed over is marked failed. The flag says whether the run was dispatched. -/
def createAndDispatchRun (new : NewRun) : Run ω (Option (ℕ × Bool)) := do
  if ← callSucceeds then
    match ← createRun new.workflowId new.uuid new.runInputs new.parentRunId
      new.ancestorWorkflowIds with
    | none => return none
    | some runId =>
      if ← handOver runId new.hatchetRunId then return some (runId, true)
      else
        let _ ← updateRunStatus runId .failed engineUnavailable
        return some (runId, false)
  else return none

/-- Start a run of a schedule. A run that does not pass its checks is stored as failed with what
they say; only the hand-over itself is covered by the error path. -/
def startScheduledRun (new : NewRun) (refusal : String) : Run ω Unit := do
  match ← createRun new.workflowId new.uuid new.runInputs none [] with
  | none => return
  | some runId =>
    if ← callSucceeds then
      if ← submit runId then
        if ← callSucceeds then recordHatchetRunId runId new.hatchetRunId
        else markFailed runId engineUnavailable
      else markFailed runId engineUnavailable
    else markFailed runId { errorMessage := some refusal }
where
  markFailed (runId : ℕ) (fields : RunFields) : Run ω Unit := do
    let _ ← updateRunStatus runId .failed fields

/-- The start of a run on behalf of another one is over. -/
def World.endStart (w : World) (runId : ℕ) : World :=
  { w with starting := w.starting.filter (· ≠ runId) }

def endStart (runId : ℕ) : Run ω Unit := .update fun w => ((), w.endStart runId)

/-- Look again whether the parent is active, now that the new run exists. With an active parent the
call returns; it raises when the parent was deleted. -/
def World.recheck (w : World) (parentRunId runId : ℕ) : Option Bool × World :=
  match w.runs parentRunId with
  | none => (none, w.endStart runId)
  | some row =>
    if row.status ∈ activeRunStatuses then (some true, w.endStart runId) else (some false, w)

def recheckParent (parentRunId runId : ℕ) : Run ω (Option Bool) :=
  .update fun w => w.recheck parentRunId runId

theorem World.recheck_cases (w : World) (parentRunId runId : ℕ) :
    (w.recheck parentRunId runId).2 = w.endStart runId ∨ (w.recheck parentRunId runId).2 = w := by
  unfold World.recheck
  split
  · exact .inl rfl
  · split
    · exact .inl rfl
    · exact .inr rfl

/-- Start a run on behalf of another one, which must still be active when the new run exists. -/
def startChildRun (parentRunId workflowId : ℕ) (new : NewRun) : Run ω Unit := do
  match ← getRun parentRunId with
  | none => return
  | some parent =>
    if parent.status ∉ activeRunStatuses then return
    else
      let chain := parent.ancestorWorkflowIds ++ [parent.workflowId]
      if workflowId ∈ chain ∨ maxChildRunDepth < chain.length then return
      else
        match ← createAndDispatchRun { new with
          workflowId, parentRunId := some parentRunId, ancestorWorkflowIds := chain } with
        | none => return
        | some (childId, false) => endStart childId
        | some (childId, true) =>
          match ← recheckParent parentRunId childId with
          | some false => do
            let _ ← cancelActiveRun childId
            endStart childId
          | _ => return

end Start

section Approval

/-- The run when it is waiting for the approval of a batch. -/
def requireAwaitingBatch (runId : ℕ) : Run ω (Option (RunRow × ApprovalState)) :=
  .get fun w => do
    let row ← w.runs runId
    let state ← row.approvalState
    if row.status = .paused ∧ state.awaiting = true then some (row, state) else none

/-- Push the event a paused run waits for; the engine may be unreachable. -/
def pushBatchEvent (uuid : String) (batchIndex : ℕ) : Run ω Unit :=
  .lift fun t w => some ((),
    if t.oracle.ok then { w with approvals := (uuid, batchIndex) :: w.approvals } else w)

def approveBatch (runId : ℕ) : Run ω Unit := do
  match ← requireAwaitingBatch runId with
  | none => return
  | some (row, state) => pushBatchEvent row.uuid state.nextBatchIndex

/-- Release the next batch and skip all further gates. -/
def approveAll (runId : ℕ) : Run ω Unit := do
  match ← requireAwaitingBatch runId with
  | none => return
  | some (row, state) =>
    let _ ← updateRunStatus runId .paused
      { approvalState := some { state with autoApproveRemaining := true } }
    pushBatchEvent row.uuid state.nextBatchIndex

end Approval

end Manus
