import Manus.Lib.System
import Manus.Runner.Phases

/-! # The run store

The rows of runs and of their steps, the part of the engine that the runs see,
and the repository operations on them. Every operation that commits once is one
action on the shared store.
-/

namespace Manus

inductive RunStatus where
  | pending
  | running
  | paused
  | success
  | failed
  | cancelled
  deriving DecidableEq, Repr

def terminalRunStatuses : List RunStatus := [.success, .failed, .cancelled]

def activeRunStatuses : List RunStatus := [.pending, .running, .paused]

/-- The state of a Wait & Run approval gate. -/
structure ApprovalState where
  awaiting : Bool
  nextBatchIndex : ℕ
  totalBatches : ℕ
  batchesCompleted : ℕ
  devicesTotal : ℕ
  devicesCompleted : ℕ
  devicesFailed : ℕ
  nextBatchDeviceNames : List String
  autoApproveRemaining : Bool := false
  deriving DecidableEq

structure RunRow where
  uuid : String
  workflowId : ℕ
  runInputs : Dict Json := ∅
  parentRunId : Option ℕ := none
  ancestorWorkflowIds : List ℕ := []
  status : RunStatus := .pending
  hatchetRunId : Option String := none
  errorMessage : Option String := none
  debugMessage : Option String := none
  currentNodeId : Option String := none
  approvalState : Option ApprovalState := none

/-- The row of a step. The revision counts the updates of the row: each of them may rewrite its
output, its messages and its timestamps. -/
structure StepRow where
  nodeId : String
  status : StepStatus
  revision : ℕ := 0
  deriving DecidableEq

/-- What a fan-out child is started with. -/
structure DeviceGroupInput where
  parentRunId : ℕ
  context : WorkflowContext
  startNodeId : String
  childIndex : ℕ
  joinNodeId : Option String

/-- What a fan-out child returns: the outcomes of its nodes and the nodes that raised. -/
structure ChildResult where
  outcomes : StepOutcomes
  stepErrors : List (String × StepError)

/-- A child the parent has asked the engine for. -/
structure GroupTask where
  input : DeviceGroupInput
  deliveries : ℕ := 0
  result : Option (Except String ChildResult) := none

/-- The moments at which a run reads its workflow. -/
inductive Phase where
  | walk
  | capture (inventoryNodeId : String)
  | child
  | resume
  deriving DecidableEq

/-- What a task did, for the statements about whole runs. -/
inductive Note where
  | claimed (runId : ℕ)
  | loaded (runId : ℕ) (phase : Phase) (canvas : Canvas)
  | boundary (runId : ℕ) (status : Option RunStatus)
  | invoked (runId : ℕ) (nodeId : String) (deviceIds : List String)

/-- The database, the engine as far as runs see it, and what is kept of the past for the statements
about whole runs: the notes of the tasks, the step rows they asked to write, the rows of runs as
they were created, the runs whose start by a step of another run is still under way, and the runs
whose cancel has returned. -/
structure World where
  runs : ℕ → Option RunRow := fun _ => none
  nextRunId : ℕ := 0
  steps : ℕ → List StepRow := fun _ => []
  canvases : ℕ → Option Canvas := fun _ => none
  accepted : List ℕ := []
  groupTasks : List GroupTask := []
  approvals : List (String × ℕ) := []
  log : List (ℕ × Note) := []
  stepWrites : List (ℕ × String) := []
  created : ℕ → Option RunRow := fun _ => none
  starting : List ℕ := []
  cancelReturned : List ℕ := []

/-- What the surroundings answer: `seed` decides what an executor does, `ok` whether a call to the
engine succeeds, `engineStatus` what the engine says about a task. -/
structure Answer (ω : Type) where
  seed : ω
  ok : Bool := true
  engineStatus : Option String := none

namespace World

def setRun (w : World) (runId : ℕ) (row : RunRow) : World :=
  { w with runs := Function.update w.runs runId (some row) }

def setSteps (w : World) (runId : ℕ) (rows : List StepRow) : World :=
  { w with steps := Function.update w.steps runId rows }

def note (w : World) (thread : ℕ) (n : Note) : World := { w with log := w.log ++ [(thread, n)] }

end World

/-- The columns an update may write besides the status. -/
structure RunFields where
  errorMessage : Option String := none
  debugMessage : Option String := none
  currentNodeId : Option String := none
  approvalState : Option ApprovalState := none

namespace RunRow

/-- The row after an update: given columns are written, and a terminal status clears the position
and the gate. -/
def move (row : RunRow) (toStatus : RunStatus) (fields : RunFields) : RunRow :=
  let row := { row with
    errorMessage := fields.errorMessage.or row.errorMessage
    debugMessage := fields.debugMessage.or row.debugMessage
    currentNodeId := fields.currentNodeId.or row.currentNodeId
    approvalState := fields.approvalState.or row.approvalState
    status := toStatus }
  if toStatus ∈ terminalRunStatuses then { row with currentNodeId := none, approvalState := none }
  else row

/-- Whether an update may move the row: without given statuses, unless the row is terminal. -/
def mayMove (row : RunRow) : Option (List RunStatus) → Bool
  | some fromStatuses => row.status ∈ fromStatuses
  | none => row.status ∉ terminalRunStatuses

def info (row : RunRow) (runId : ℕ) : RunInfo where
  id := runId
  uuid := row.uuid
  workflowId := toString row.workflowId
  runInputs := row.runInputs

end RunRow

def StepRow.write (row : StepRow) (status : StepStatus) : StepRow :=
  { row with status, revision := row.revision + 1 }

/-- The row of a step that was left open when its run ended. -/
def StepRow.close (row : StepRow) : StepRow :=
  match row.status with
  | .running => row.write .failed
  | .pending => row.write .skipped
  | _ => row

def terminalStepStatuses : List StepStatus := [.success, .failed, .skipped]

section Repository

variable {ω : Type}

/-- The programs of this development. -/
abbrev Run (ω : Type) := Prog (Answer ω) World

def getRun (runId : ℕ) : Run ω (Option RunRow) := .get fun w => w.runs runId

/-- The conditional update behind `transition_run`; the flag says whether it changed the row. -/
def World.transition (w : World) (runId : ℕ) (toStatus : RunStatus)
    (fromStatuses : Option (List RunStatus)) (fields : RunFields) : Bool × World :=
  match w.runs runId with
  | none => (false, w)
  | some row =>
    if row.mayMove fromStatuses then (true, w.setRun runId (row.move toStatus fields))
    else (false, w)

theorem World.transition_cases (w : World) (runId : ℕ) (toStatus : RunStatus)
    (fromStatuses : Option (List RunStatus)) (fields : RunFields) :
    w.transition runId toStatus fromStatuses fields = (false, w) ∨
      ∃ row, w.runs runId = some row ∧ row.mayMove fromStatuses = true ∧
        w.transition runId toStatus fromStatuses fields =
          (true, w.setRun runId (row.move toStatus fields)) := by
  unfold World.transition
  split
  · exact .inl rfl
  · rename_i row hrow
    split
    · rename_i hmay
      exact .inr ⟨row, hrow, hmay, rfl⟩
    · exact .inl rfl

def transitionRun (runId : ℕ) (toStatus : RunStatus)
    (fromStatuses : Option (List RunStatus) := none) (fields : RunFields := {}) : Run ω Bool :=
  .update fun w => w.transition runId toStatus fromStatuses fields

def updateRunStatus (runId : ℕ) (status : RunStatus) (fields : RunFields := {}) :
    Run ω (Option RunRow) := do
  let _ ← transitionRun runId status none fields
  getRun runId

/-- Add the row of a new run; ids are never used twice. -/
def World.create (w : World) (row : RunRow) : World :=
  { w.setRun w.nextRunId row with
    nextRunId := w.nextRunId + 1
    created := Function.update w.created w.nextRunId (some row)
    starting := if row.parentRunId.isSome then w.nextRunId :: w.starting else w.starting }

/-- Create the row of a run; the database refuses it when the run it names as its parent does not
exist. -/
def createRun (workflowId : ℕ) (uuid : String) (runInputs : Dict Json)
    (parentRunId : Option ℕ) (ancestorWorkflowIds : List ℕ) : Run ω (Option ℕ) :=
  .update fun w =>
    if parentRunId.all fun id => (w.runs id).isSome then
      (some w.nextRunId, w.create { uuid, workflowId, runInputs, parentRunId, ancestorWorkflowIds })
    else (none, w)

/-- Store the engine's id without touching the status. -/
def recordHatchetRunId (runId : ℕ) (hatchetRunId : String) : Run ω Unit :=
  .update fun w => ((), match w.runs runId with
    | none => w
    | some row => w.setRun runId { row with hatchetRunId := some hatchetRunId })

/-- Close the rows of the steps a run leaves open. -/
def finaliseOpenStepResults (runId : ℕ) : Run ω Unit :=
  .update fun w => ((), w.setSteps runId ((w.steps runId).map StepRow.close))

def listChildren (parentRunId : ℕ) : Run ω (List (ℕ × RunRow)) :=
  .get fun w => (List.range w.nextRunId).filterMap fun id =>
    match w.runs id with
    | some row => if row.parentRunId = some parentRunId then some (id, row) else none
    | none => none

/-- Create the pending row of a node; false when the unique index refuses it. -/
def createStepResult (runId : ℕ) (node : CanvasNode) : Run ω Bool :=
  .update fun w =>
    if (w.steps runId).any fun row => row.nodeId == node.id then (false, w)
    else (true, w.setSteps runId (w.steps runId ++ [{ nodeId := node.id, status := .pending }]))

/-- Write the status of a node's row, unless the run was cancelled and the row is closed already,
and read the row back. -/
def updateStepResult (runId : ℕ) (nodeId : String) (status : StepStatus) : Run ω StepStatus :=
  .update fun w =>
    let cancelled := (w.runs runId).any fun row => row.status == .cancelled
    let rows := (w.steps runId).map fun row =>
      if row.nodeId = nodeId ∧ ¬ (row.status ∈ terminalStepStatuses ∧ cancelled = true) then
        row.write status
      else row
    (((rows.find? fun row => row.nodeId == nodeId).map StepRow.status).getD status,
      { w.setSteps runId rows with stepWrites := (runId, nodeId) :: w.stepWrites })

def stepResultNodes (runId : ℕ) : Run ω (List String) :=
  .get fun w => (w.steps runId).map StepRow.nodeId

/-- Read the workflow of a run, for one of its phases. -/
def loadWorkflow (runId workflowId : ℕ) (phase : Phase) : Run ω (Option Canvas) :=
  .lift fun t w => match w.canvases workflowId with
    | none => some (none, w)
    | some canvas => some (some canvas, w.note t.thread (.loaded runId phase canvas))

/-- Re-read the run row at a wave boundary. -/
def cancelRequested (runId : ℕ) : Run ω Bool :=
  .lift fun t w =>
    let status := (w.runs runId).map RunRow.status
    some (status == some .cancelled, w.note t.thread (.boundary runId status))

end Repository

end Manus
