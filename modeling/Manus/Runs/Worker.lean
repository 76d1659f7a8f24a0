import Manus.Canvas.FanOutTopology
import Manus.Runs.Lifecycle

/-! # The tasks of the worker

Claiming a run, walking it, fanning its devices out to child tasks, waiting for
the approval of batches, merging what the children return and resuming behind
the fan-in node.
-/

namespace Manus

variable {ω : Type}

/-- What a worker is deployed with: the step registry and, for every step type, what its executor
does, given what the surroundings decide. -/
structure Deployment (ω : Type) where
  registry : PluginRegistry
  executors : String →
    Option (Dict Json → WorkflowContext → RunInfo → String → ω → Except String (List StepOutcome))

section Runner

variable (d : Deployment ω) (runId : ℕ)

def invoke (nodeId : String) (ctx : WorkflowContext) : Run ω Unit :=
  .lift fun t w => some ((), w.note t.thread (.invoked runId nodeId ctx.devices.keys))

/-- The step runner of one run. -/
def workerRunner : StepRunner (Run ω) where
  registry := d.registry
  stepRegistry := fun stepType => (d.executors stepType).map fun behave config ctx run nodeId => do
    invoke runId nodeId ctx
    .lift fun t w => some (behave config ctx run nodeId t.oracle.seed, w)
  cancelRequested := cancelRequested runId
  stepResultNodes := stepResultNodes runId
  createStepResult := createStepResult runId
  persistStepResult := updateStepResult runId
  gather := .gather

end Runner

inductive TaskError where
  | runAlreadyStarted
  | internal
  deriving DecidableEq

/-- The conditional update that claims a pending run. -/
def World.claim (w : World) (thread runId : ℕ) : Bool × World :=
  let r := w.transition runId .running (some [.pending]) {}
  (r.1, if r.1 then r.2.note thread (.claimed runId) else r.2)

def prepare (runId : ℕ) : Run ω Bool := .lift fun t w => some (w.claim t.thread runId)

section PhaseOne

/-- What phase one leaves to do. -/
inductive PhaseOneEnd where
  | done
  | fanOut (uuid : String) (signal : FanOutSignal) (graph : Canvas)

variable (d : Deployment ω) (runId : ℕ)

/-- The status a finished walk gives the run. -/
def WalkState.finalStatus (st : WalkState) : RunStatus :=
  if st.failed || st.anyReportedFailure then .failed else .success

/-- Walk the run, unless it is not running, and either finish it or hand over to fan-out with the
graph as it is stored then. -/
def phaseOne : Run ω (Except TaskError PhaseOneEnd) := do
  match ← getRun runId with
  | none => return .error .internal
  | some row =>
    if row.status ≠ .running then return .ok .done
    else
      match ← loadWorkflow runId row.workflowId .walk with
      | none => return .error .internal
      | some canvas =>
        match ← executeAll (workerRunner d runId) (row.info runId) canvas with
        | .refused _ => return .error .internal
        | .alreadyStarted => return .error .runAlreadyStarted
        | .finished st => do
          let _ ← updateRunStatus runId st.finalStatus
          return .ok .done
        | .fanOut signal =>
          match (← loadWorkflow runId row.workflowId (.capture signal.inventoryNodeId)).map
            loadExecutionGraph with
          | some (.ok graph) => return .ok (.fanOut row.uuid signal graph)
          | _ => return .error .internal

end PhaseOne

section Approval

def maxApprovalStateDeviceNames : ℕ := 25

def formatApprovalPauseMessage (batchesCompleted totalBatches devicesCompleted devicesFailed
    nextBatchIndex : ℕ) (names : List String) : String :=
  let start :=
    if batchesCompleted = 0 then
      "Ready to run batch " ++ toString (nextBatchIndex + 1) ++ "/" ++ toString totalBatches ++ "."
    else
      "Batch " ++ toString batchesCompleted ++ "/" ++ toString totalBatches ++ " finished (" ++
        toString ((devicesCompleted : ℤ) - devicesFailed) ++ " device(s) ok, " ++
        toString devicesFailed ++ " failed)."
  let preview := ", ".intercalate (names.take 10) ++ if 10 < names.length then ", …" else ""
  start ++ " Waiting for approval to run batch " ++ toString (nextBatchIndex + 1) ++ " (" ++
    toString names.length ++ " device(s): " ++ preview ++ "). " ++
    "Click \"Run next batch\" to continue or Cancel to stop."

/-- Wait until the event of a batch was pushed. -/
def waitForEvent (uuid : String) (batchIndex : ℕ) : Run ω Unit :=
  .lift fun _ w => if (uuid, batchIndex) ∈ w.approvals then some ((), w) else none

/-- Pause the run, wait for the approval of a batch and resume; the result says whether the
remaining batches are approved as well. -/
def waitAndResumeBatchApproval (runId : ℕ) (signal : FanOutSignal) (uuid : String)
    (state : ApprovalState) : Run ω (Except TaskError Bool) := do
  match ← getRun runId with
  | none => return .error .internal
  | some _ => do
    let message := formatApprovalPauseMessage state.batchesCompleted state.totalBatches
      state.devicesCompleted state.devicesFailed state.nextBatchIndex state.nextBatchDeviceNames
    let _ ← updateRunStatus runId .paused {
      currentNodeId := some signal.inventoryNodeId
      debugMessage := some message
      approvalState := some { state with
        nextBatchDeviceNames := state.nextBatchDeviceNames.take maxApprovalStateDeviceNames } }
    waitForEvent uuid state.nextBatchIndex
    match ← getRun runId with
    | none => return .error .internal
    | some row => do
      let resumed := row.approvalState.map fun gate => { gate with awaiting := false }
      let _ ← updateRunStatus runId .running { approvalState := resumed }
      return .ok (row.approvalState.any ApprovalState.autoApproveRemaining)

end Approval

section Children

variable (runId : ℕ) (signal : FanOutSignal)

/-- The inputs of the children of some groups, numbered from `offset`. -/
def buildChildInputs (groups : List (List String)) (offset : ℕ) : List DeviceGroupInput :=
  groups.mapIdx fun i group => {
    parentRunId := runId
    context := groupContext signal group
    startNodeId := signal.inventoryNodeId
    childIndex := offset + i
    joinNodeId := signal.joinNodeId }

def requestChild (input : DeviceGroupInput) : Run ω ℕ :=
  .update fun w => (w.groupTasks.length, { w with groupTasks := w.groupTasks ++ [{ input }] })

/-- Wait for a child. The engine may report it as failed at any time. -/
def awaitChild (index : ℕ) : Run ω (Except String ChildResult) :=
  .lift fun t w =>
    if t.oracle.ok then (w.groupTasks[index]?.bind GroupTask.result).map fun r => (r, w)
    else some (.error "the child workflow failed", w)

/-- Run the children of some groups side by side and collect what they return or raise. -/
def runGroups (groups : List (List String)) (offset : ℕ) :
    Run ω (List (Except String ChildResult)) :=
  .gather ((buildChildInputs runId signal groups offset).map fun input => do
    awaitChild (← requestChild input))

end Children

section Aggregation

/-- The results of the children that did not fail. -/
def childOutcomes (results : List (Except String ChildResult)) : List StepOutcomes :=
  results.filterMap fun r => match r with
    | .ok child => some child.outcomes
    | .error _ => none

/-- The status of a child-branch node, by the devices on its outcomes. -/
def deriveChildNodeStatus (outcomes : Dict (List WorkflowContext)) (hasAnyFailure : Bool) :
    StepStatus :=
  let devices := fun (contexts : List WorkflowContext) => contexts.any fun c => !c.devices.isEmpty
  let failure := ((outcomes.get? "failure").map devices).getD false
  let ok := outcomes.entries.any fun p => p.1 != "failure" && devices p.2
  if hasAnyFailure || failure then if ok then .partialResult else .failed
  else .success

/-- Merge the outcomes of the child-branch nodes one by one and write their rows. Without `final` a
node without outcomes is left pending. -/
def persistChildNodes (runId : ℕ) (final hasAnyFailure : Bool) (results : List StepOutcomes)
    (existing : List String) :
    List String → StepOutcomes → Bool → Run ω (Except TaskError (StepOutcomes × Bool))
  | [], merged, anyFailed => return .ok (merged, anyFailed)
  | nodeId :: rest, merged, anyFailed =>
    let outcomes := childContexts results nodeId
    if outcomes.isEmpty then do
      if final && nodeId ∈ existing then
        let _ ← updateStepResult runId nodeId .skipped
      persistChildNodes runId final hasAnyFailure results existing rest merged anyFailed
    else
      match outcomes.traverse fun _ contexts => mergeFanOutContexts (some nodeId) contexts with
      | .error _ => return .error .internal
      | .ok nodeMerged => do
        let status := deriveChildNodeStatus outcomes hasAnyFailure
        if nodeId ∈ existing then
          let _ ← updateStepResult runId nodeId status
        persistChildNodes runId final hasAnyFailure results existing rest
          (merged.insert nodeId nodeMerged)
          (anyFailed || (decide (nodeId ∈ existing) && decide (status = .failed)))

/-- Merge what the children returned onto the rows of the parent run. The flag says that no child
failed. -/
def aggregateAndPersist (runId : ℕ) (signal : FanOutSignal) (graph : Canvas)
    (results : List (Except String ChildResult)) (final : Bool) :
    Run ω (Except TaskError (Bool × StepOutcomes)) := do
  let childIds := childNodeIds signal.inventoryNodeId signal.joinNodeId graph.nodes graph.edges
  let existing ← stepResultNodes runId
  let hasAnyFailure := results.any fun r => r.toOption.isNone
  match ← persistChildNodes runId final hasAnyFailure (childOutcomes results) existing childIds ∅
    false with
  | .error e => return .error e
  | .ok (merged, anyFailed) => return .ok (!(hasAnyFailure || anyFailed), merged)

/-- The phases behind the children: merge, resume behind the fan-in node and finish the run. -/
def finalizeFanOutParent (d : Deployment ω) (runId : ℕ) (signal : FanOutSignal) (graph : Canvas)
    (results : List (Except String ChildResult)) : Run ω (Except TaskError Unit) := do
  match ← getRun runId with
  | none => return .error .internal
  | some row =>
    match ← aggregateAndPersist runId signal graph results true with
    | .error e => return .error e
    | .ok (success, merged) =>
      match signal.joinNodeId with
      | none => do
        let _ ← updateRunStatus runId (if success then .success else .failed)
        return .ok ()
      | some joinNodeId =>
        match ← loadWorkflow runId row.workflowId .resume with
        | none => return .error .internal
        | some canvas =>
          let seeded := Dict.update (Dict.ofPairs [(signal.inventoryNodeId,
            Dict.ofPairs [("success", signal.inventoryOutcome)])]) merged
          match ← resumeAfterJoin (workerRunner d runId) (row.info runId) canvas seeded
            joinNodeId with
          | .finished st => do
            let joined := st.finalStatus = .success
            let _ ← updateRunStatus runId (if success && joined then .success else .failed)
            return .ok ()
          | .alreadyStarted => return .error .runAlreadyStarted
          | _ => return .error .internal

end Aggregation

section Dispatch

variable (runId : ℕ) (signal : FanOutSignal) (uuid : String) (graph : Canvas)
  (plan : FanOutDispatchPlan)

/-- What is left of a dispatch in batches. -/
structure BatchState where
  results : List (Except String ChildResult) := []
  autoApproveRemaining : Bool := false
  devicesCompleted : ℕ := 0
  devicesFailed : ℕ := 0
  groupOffset : ℕ := 0

/-- Whether a batch waits for approval. -/
def batchNeedsApprovalGate (batchIndex : ℕ) (firstBatchAuto autoApproveRemaining : Bool) : Bool :=
  !autoApproveRemaining && !(batchIndex == 0 && firstBatchAuto)

def deviceNamesForGroups (groups : List (List String)) : List String :=
  groups.flatten.map fun id => ((plan.allDevices.get? id).map DeviceContext.name).getD id

/-- The devices of a batch and those whose child failed. -/
def tallyBatchFailures (groups : List (List String)) (results : List (Except String ChildResult)) :
    ℕ × ℕ :=
  (groups.flatten.length,
    ((groups.zip results).filter fun p => p.2.toOption.isNone).flatMap (·.1) |>.length)

/-- Pass the gate of a batch, if it has one. -/
def passGate (firstBatchAuto : Bool) (totalBatches batchIndex : ℕ) (batch : List (List String))
    (st : BatchState) : Run ω (Except TaskError Bool) :=
  if batchNeedsApprovalGate batchIndex firstBatchAuto st.autoApproveRemaining then
    waitAndResumeBatchApproval runId signal uuid {
      awaiting := true, nextBatchIndex := batchIndex, totalBatches
      batchesCompleted := batchIndex, devicesTotal := plan.deviceIds.length
      devicesCompleted := st.devicesCompleted, devicesFailed := st.devicesFailed
      nextBatchDeviceNames := deviceNamesForGroups plan batch }
  else return .ok st.autoApproveRemaining

/-- Run one batch after another, each behind its gate, and show the merged results so far. -/
def dispatchBatches (firstBatchAuto : Bool) (totalBatches : ℕ) :
    List (List (List String)) → ℕ → BatchState →
    Run ω (Except TaskError (List (Except String ChildResult)))
  | [], _, st => return .ok st.results
  | batch :: batches, batchIndex, st => do
    match ← passGate runId signal uuid plan firstBatchAuto totalBatches batchIndex batch st with
    | .error e => return .error e
    | .ok autoApproveRemaining => do
      let batchResults ← runGroups runId signal batch st.groupOffset
      let results := st.results ++ batchResults
      let (completed, failed) := tallyBatchFailures batch batchResults
      match ← aggregateAndPersist runId signal graph results false with
      | .error e => return .error e
      | .ok _ => dispatchBatches firstBatchAuto totalBatches batches (batchIndex + 1) {
          results, autoApproveRemaining
          devicesCompleted := st.devicesCompleted + completed
          devicesFailed := st.devicesFailed + failed
          groupOffset := st.groupOffset + batch.length }

/-- Split the devices into groups and run their children, at once or in approved batches. -/
def dispatchChildren : Run ω (Except TaskError (List (Except String ChildResult))) :=
  match parseFanOutDispatch signal with
  | .error _ => return .error .internal
  | .ok plan =>
    if plan.groups.isEmpty then return .ok []
    else if !plan.approvalEnabled then .ok <$> runGroups runId signal plan.groups 0
    else
      match pyInt ((plan.approvalCfg.get? "batch_size").getD (.int 1)) with
      | .error _ => return .error .internal
      | .ok size =>
        let batches := chunks (max 1 size).toNat plan.groups.length plan.groups
        let firstBatchAuto := ((plan.approvalCfg.get? "first_batch_auto").getD (.bool true)).truthy
        dispatchBatches runId signal uuid graph plan firstBatchAuto batches.length batches 0 {}

end Dispatch

section Tasks

variable (d : Deployment ω) (runId : ℕ)

/-- Walk the run and, when it fans out, everything behind the walk. -/
def executeStepsBody : Run ω (Except TaskError Unit) := do
  match ← phaseOne d runId with
  | .error e => return .error e
  | .ok .done => return .ok ()
  | .ok (.fanOut uuid signal graph) =>
    match ← dispatchChildren runId signal uuid graph with
    | .error e => return .error e
    | .ok results => finalizeFanOutParent d runId signal graph results

/-- The orchestrating task: every way out writes a terminal state. -/
def executeSteps : Run ω Unit := do
  match ← executeStepsBody d runId with
  | .ok () => return
  | .error .runAlreadyStarted =>
    let _ ← failInterrupted runId deliveredTwiceMessage
  | .error .internal =>
    let _ ← failInterrupted runId internalMessage

/-- The orchestrating task with what runs when it is cancelled or hits an unexpected error. -/
def executeStepsTask : Task (Answer ω) World where
  prog := executeSteps d runId
  handlers := [do let _ ← failInterrupted runId interruptedMessage,
    do let _ ← failInterrupted runId internalMessage]

def failRun : Run ω Unit := do
  let _ ← failInterrupted runId interruptedMessage

/-- Report the result of a child to the engine. -/
def reportChild (index : ℕ) (result : Except String ChildResult) : Run ω Unit :=
  .update fun w => ((), { w with
    groupTasks := w.groupTasks.modify index fun task => { task with result := some result } })

def runDeviceGroup (input : DeviceGroupInput) : Run ω (Except String ChildResult) := do
  match ← getRun input.parentRunId with
  | none => return .error "WorkflowRun not found"
  | some row =>
    match ← loadWorkflow input.parentRunId row.workflowId .child with
    | none => return .error "Workflow not found"
    | some canvas =>
      match loadExecutionGraph canvas with
      | .error e => return .error e.message
      | .ok graph =>
        let allowed := childNodeIds input.startNodeId input.joinNodeId graph.nodes graph.edges
        match ← runSubgraph (workerRunner d input.parentRunId) (row.info input.parentRunId) canvas
          input.context input.startNodeId allowed with
        | .error e => return .error e.message
        | .ok st => return .ok {
            outcomes := st.stepOutcomes.restrict (· ≠ input.startNodeId)
            stepErrors := st.stepErrors }

def deviceGroupTask (index : ℕ) (input : DeviceGroupInput) : Task (Answer ω) World where
  prog := do reportChild index (← runDeviceGroup d input)
  handlers := [reportChild index (.error "the child task was cancelled")]

end Tasks

section Save

/-- The canvas columns of a workflow update. -/
structure WorkflowUpdate where
  canvasNodes : Option (List CanvasNode) := none
  canvasEdges : Option (List CanvasEdge) := none

def WorkflowUpdate.apply (data : WorkflowUpdate) (canvas : Canvas) : Canvas :=
  ⟨data.canvasNodes.getD canvas.nodes, data.canvasEdges.getD canvas.edges⟩

/-- Whether a stop-here node sits inside a fan-out branch. -/
def stopHereInFanOut (canvas : Canvas) : Bool :=
  let stopHereIds := (canvas.nodes.filter fun n => n.data.kind == some "stop-here").map
    CanvasNode.id
  canvas.nodes.any fun n => fanOutEnabled n &&
    (childNodeIds n.id (findJoinNodeId n.id canvas.nodes canvas.edges) canvas.nodes
      canvas.edges).any (· ∈ stopHereIds)

/-- The save-time checks of a canvas. -/
def canvasSavable (canvas : Canvas) : Bool :=
  (topologicalOrder canvas.nodes canvas.edges).toOption.isSome && !stopHereInFanOut canvas &&
    (validateFanOutTopology canvas).isEmpty

def writeCanvas (workflowId : ℕ) (data : WorkflowUpdate) : Run ω Unit :=
  .update fun w => ((), { w with
    canvases := Function.update w.canvases workflowId ((w.canvases workflowId).map data.apply) })

/-- Save a workflow: check the new canvas against the row as it was read, then write the given
columns. The checks on other columns may refuse as well. -/
def updateWorkflow (workflowId : ℕ) (data : WorkflowUpdate) : Run ω Unit := do
  match ← Prog.get fun w => w.canvases workflowId with
  | none => return
  | some canvas =>
    if ← callSucceeds then
      if (data.canvasNodes.isSome || data.canvasEdges.isSome) &&
          !canvasSavable (data.apply canvas) then return
      else writeCanvas workflowId data
    else return

end Save

section System

/-- Everything that can be started around runs: API calls, deliveries of engine tasks, schedules,
the reaper, and saves of a workflow. -/
inductive Launch where
  | triggerRun (new : NewRun)
  | startScheduledRun (new : NewRun) (refusal : String)
  | startChildRun (parentRunId workflowId : ℕ) (new : NewRun)
  | prepare (runId : ℕ)
  | executeSteps (runId : ℕ)
  | failRun (runId : ℕ)
  | deviceGroup (index : ℕ)
  | cancelRun (runId : ℕ)
  | approveBatch (runId : ℕ)
  | approveAll (runId : ℕ)
  | reapStuckRuns (older : List ℕ)
  | updateWorkflow (workflowId : ℕ) (data : WorkflowUpdate)

/-- The engine delivers the tasks of a run only once it has taken the run, and a child only once
it was asked for; nothing bounds how often. -/
def runSystem (d : Deployment ω) : System Launch (Answer ω) World where
  start
    | .triggerRun new, w => some (⟨do let _ ← createAndDispatchRun new, []⟩, w)
    | .startScheduledRun new refusal, w => some (⟨Manus.startScheduledRun new refusal, []⟩, w)
    | .startChildRun parentRunId workflowId new, w =>
      some (⟨Manus.startChildRun parentRunId workflowId new, []⟩, w)
    | .prepare runId, w =>
      if runId ∈ w.accepted then some (⟨do let _ ← Manus.prepare runId, []⟩, w) else none
    | .executeSteps runId, w =>
      if runId ∈ w.accepted then some (executeStepsTask d runId, w) else none
    | .failRun runId, w =>
      if runId ∈ w.accepted then some (⟨Manus.failRun runId, []⟩, w) else none
    | .deviceGroup index, w =>
      w.groupTasks[index]?.map fun task => (deviceGroupTask d index task.input, { w with
        groupTasks := w.groupTasks.modify index fun task =>
          { task with deliveries := task.deliveries + 1 } })
    | .cancelRun runId, w => some (⟨do let _ ← Manus.cancelRun runId, []⟩, w)
    | .approveBatch runId, w => some (⟨Manus.approveBatch runId, []⟩, w)
    | .approveAll runId, w => some (⟨Manus.approveAll runId, []⟩, w)
    | .reapStuckRuns older, w => some (⟨Manus.reapStuckRuns older, []⟩, w)
    | .updateWorkflow workflowId data, w =>
      some (⟨Manus.updateWorkflow workflowId data, []⟩, w)

end System

end Manus
