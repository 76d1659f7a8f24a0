import Manus.Runner.Keeps
import Manus.Runs.Worker

/-! # What every task inherits from the store operations

A property of programs that is closed under sequencing holds of every task as
soon as it holds of the store operations the tasks are made of.
-/

namespace Manus

variable {ω : Type} {P : ∀ α : Type, Run ω α → Prop}

structure CancelOps (P : ∀ α : Type, Run ω α → Prop) : Prop where
  closed : Closed P
  get : ∀ {α : Type} (f : World → α), (∀ w log, f { w with log } = f w) → P α (.get f)
  answer : ∀ {α : Type} (f : Tick (Answer ω) → α), P α (.lift fun t w => some (f t, w))
  cancel : ∀ runId, P _ (transitionRun runId .cancelled)
  annotateCancelled : ∀ runId fields,
    P _ (Manus.transitionRun runId .cancelled (some [.cancelled]) fields)
  finaliseOpenStepResults : ∀ runId, P _ (finaliseOpenStepResults runId)

structure LifecycleOps (P : ∀ α : Type, Run ω α → Prop) : Prop extends CancelOps P where
  transitionRun : ∀ runId toStatus fields, toStatus ≠ .pending →
    P _ (transitionRun runId toStatus none fields)
  submit : ∀ runId, P _ (submit runId)
  recordHatchetRunId : ∀ runId hatchetRunId, P _ (recordHatchetRunId runId hatchetRunId)
  pushBatchEvent : ∀ uuid batchIndex, P _ (pushBatchEvent uuid batchIndex)

structure StartOps (P : ∀ α : Type, Run ω α → Prop) : Prop extends LifecycleOps P where
  createRun : ∀ workflowId uuid runInputs parentRunId ancestors,
    P _ (createRun workflowId uuid runInputs parentRunId ancestors)
  endStart : ∀ runId, P _ (endStart runId)
  recheckParent : ∀ parentRunId runId, P _ (recheckParent parentRunId runId)

namespace CancelOps

theorem callSucceeds (h : CancelOps P) : P _ callSucceeds := h.answer _

theorem settleCancel (h : CancelOps P) (runId : ℕ) (won : Bool) :
    P _ (settleCancel runId won) := by
  refine h.closed.bind (h.get _ fun _ _ => rfl) fun row => ?_
  split
  · exact h.closed.pure _
  · refine h.closed.bind (h.finaliseOpenStepResults _) fun _ => ?_
    split
    · refine h.closed.bind h.callSucceeds fun ok => ?_
      split
      · exact h.closed.pure _
      · exact h.closed.bind (h.annotateCancelled _ _) fun _ => h.closed.pure _
    · exact h.closed.pure _

theorem cancelActiveRun (h : CancelOps P) (runId : ℕ) : P _ (cancelActiveRun runId) :=
  h.closed.bind (h.cancel _) fun _ => h.settleCancel _ _

theorem cancelEach (h : CancelOps P) {cancelBelow : ℕ → List ℕ → Run ω (List ℕ)}
    (hbelow : ∀ runId seen, P _ (cancelBelow runId seen)) (children : List (ℕ × RunRow))
    (seen : List ℕ) : P _ (cancelEach cancelBelow children seen) := by
  induction children generalizing seen with
  | nil => exact h.closed.pure _
  | cons child rest ih =>
    obtain ⟨childId, row⟩ := child
    unfold Manus.cancelEach
    split
    · exact ih _
    · have hrest : P _ (cancelBelow childId (childId :: seen) >>= fun seen =>
          Manus.cancelEach cancelBelow rest seen) :=
        h.closed.bind (hbelow _ _) fun _ => ih _
      split
      · exact h.closed.bind (h.cancelActiveRun _) fun _ => hrest
      · exact hrest

theorem cancelChildRuns (h : CancelOps P) (depth parentRunId : ℕ) (seen : List ℕ) :
    P _ (cancelChildRuns depth parentRunId seen) := by
  induction depth generalizing parentRunId seen with
  | zero => exact h.closed.pure _
  | succ depth ih =>
    exact h.closed.bind (h.get _ fun _ _ => rfl) fun children => h.cancelEach ih children seen

theorem cancelAllChildRuns (h : CancelOps P) (runId : ℕ) : P _ (cancelAllChildRuns runId) :=
  h.closed.bind (h.cancelChildRuns _ _ _) fun _ => h.closed.pure _

end CancelOps

namespace LifecycleOps

theorem updateRunStatus (h : LifecycleOps P) (runId : ℕ) (status : RunStatus)
    (fields : RunFields) (hs : status ≠ .pending) : P _ (updateRunStatus runId status fields) :=
  h.closed.bind (h.transitionRun _ _ _ hs) fun _ => h.get _ fun _ _ => rfl

theorem cancelRun (h : LifecycleOps P) (runId : ℕ) : P _ (cancelRun runId) := by
  refine h.closed.bind (h.get _ fun _ _ => rfl) fun row => ?_
  cases row with
  | none => exact h.closed.pure _
  | some row =>
    dsimp only
    split
    · exact h.closed.pure _
    · refine h.closed.bind (h.cancelActiveRun _) fun won => ?_
      split
      · exact h.closed.bind (h.cancelAllChildRuns _) fun _ => h.closed.pure _
      · exact h.closed.pure _

theorem failInterrupted (h : LifecycleOps P) (runId : ℕ) (message : String) :
    P _ (failInterrupted runId message) := by
  refine h.closed.bind (h.transitionRun _ _ _ (by decide)) fun changed => ?_
  split
  · exact h.closed.bind (h.finaliseOpenStepResults _) fun _ =>
      h.closed.bind (h.cancelAllChildRuns _) fun _ => h.closed.pure _
  · exact h.closed.pure _

theorem finalise (h : LifecycleOps P) (runId : ℕ) (message : String) :
    P _ (do let _ ← Manus.failInterrupted (ω := ω) runId message) :=
  h.closed.bind (h.failInterrupted _ _) fun _ => h.closed.pure _

theorem reapEach (h : LifecycleOps P) (listed : List (ℕ × RunRow)) (expired : Bool) :
    P _ (reapEach listed expired) := by
  induction listed generalizing expired with
  | nil => exact h.closed.pure _
  | cons entry rest ih =>
    obtain ⟨runId, row⟩ := entry
    refine h.closed.bind ?_ fun row => ?_
    · unfold listedRow
      split
      · exact h.closed.bind (h.get _ fun _ _ => rfl) fun _ => h.closed.pure _
      · exact h.closed.pure _
    · split
      · split
        · exact h.closed.bind (h.failInterrupted _ _) fun _ => ih _
        · exact ih _
      · refine h.closed.bind (h.answer _) fun status => ?_
        split
        · exact ih _
        · exact h.closed.bind (h.failInterrupted _ _) fun _ => ih _

theorem reapStuckRuns (h : LifecycleOps P) (older : List ℕ) : P _ (reapStuckRuns older) :=
  h.closed.bind (h.get _ fun _ _ => rfl) fun _ => h.reapEach _ _

theorem handOver (h : LifecycleOps P) (runId : ℕ) (hatchetRunId : String) :
    P _ (handOver runId hatchetRunId) := by
  refine h.closed.bind (h.submit _) fun taken => ?_
  split
  · refine h.closed.bind h.callSucceeds fun replied => ?_
    split
    · exact h.closed.bind (h.recordHatchetRunId _ _) fun _ => h.callSucceeds
    · exact h.closed.pure _
  · exact h.closed.pure _

theorem createAndDispatchRun (h : LifecycleOps P) {new : NewRun}
    (hnew : P _ (createRun new.workflowId new.uuid new.runInputs new.parentRunId
      new.ancestorWorkflowIds)) : P _ (createAndDispatchRun new) := by
  refine h.closed.bind h.callSucceeds fun valid => ?_
  split
  · refine h.closed.bind hnew fun runId => ?_
    cases runId with
    | none => exact h.closed.pure _
    | some runId =>
      refine h.closed.bind (h.handOver _ _) fun dispatched => ?_
      split
      · exact h.closed.pure _
      · exact h.closed.bind (h.updateRunStatus _ _ _ (by decide)) fun _ => h.closed.pure _
  · exact h.closed.pure _

theorem startScheduledRun (h : LifecycleOps P) {new : NewRun}
    (hnew : P _ (createRun new.workflowId new.uuid new.runInputs none [])) (refusal : String) :
    P _ (startScheduledRun new refusal) := by
  have hfailed : ∀ runId fields, P _ (Manus.startScheduledRun.markFailed (ω := ω) runId fields) :=
    fun runId fields => h.closed.bind (h.updateRunStatus _ _ _ (by decide)) fun _ => h.closed.pure _
  refine h.closed.bind hnew fun runId => ?_
  cases runId with
  | none => exact h.closed.pure _
  | some runId =>
    refine h.closed.bind h.callSucceeds fun valid => ?_
    split
    · refine h.closed.bind (h.submit _) fun taken => ?_
      split
      · refine h.closed.bind h.callSucceeds fun replied => ?_
        split
        · exact h.recordHatchetRunId _ _
        · exact hfailed _ _
      · exact hfailed _ _
    · exact hfailed _ _

theorem approveBatch (h : LifecycleOps P) (runId : ℕ) : P _ (approveBatch runId) := by
  refine h.closed.bind (h.get _ fun _ _ => rfl) fun awaiting => ?_
  cases awaiting with
  | none => exact h.closed.pure _
  | some awaiting => exact h.pushBatchEvent _ _

theorem approveAll (h : LifecycleOps P) (runId : ℕ) : P _ (approveAll runId) := by
  refine h.closed.bind (h.get _ fun _ _ => rfl) fun awaiting => ?_
  cases awaiting with
  | none => exact h.closed.pure _
  | some awaiting =>
    exact h.closed.bind (h.updateRunStatus _ _ _ (by decide)) fun _ => h.pushBatchEvent _ _

end LifecycleOps

namespace StartOps

theorem imp {P' : ∀ α : Type, Run ω α → Prop} (h : StartOps P) (closed : Closed P')
    (himp : ∀ {α : Type} {p : Run ω α}, P α p → P' α p) : StartOps P' where
  closed := closed
  get f hf := himp (h.get f hf)
  answer f := himp (h.answer f)
  cancel runId := himp (h.cancel runId)
  transitionRun runId toStatus fields hs := himp (h.transitionRun runId toStatus fields hs)
  annotateCancelled runId fields := himp (h.annotateCancelled runId fields)
  finaliseOpenStepResults runId := himp (h.finaliseOpenStepResults runId)
  createRun _ _ _ _ _ := himp (h.createRun _ _ _ _ _)
  endStart runId := himp (h.endStart runId)
  recheckParent parentRunId runId := himp (h.recheckParent parentRunId runId)
  submit runId := himp (h.submit runId)
  recordHatchetRunId runId hatchetRunId := himp (h.recordHatchetRunId runId hatchetRunId)
  pushBatchEvent uuid batchIndex := himp (h.pushBatchEvent uuid batchIndex)

theorem startChildRun (h : StartOps P) (parentRunId workflowId : ℕ) (new : NewRun) :
    P _ (startChildRun parentRunId workflowId new) := by
  refine h.closed.bind (h.get _ fun _ _ => rfl) fun parent => ?_
  cases parent with
  | none => exact h.closed.pure _
  | some parent =>
    dsimp only
    split
    · exact h.closed.pure _
    · split
      · exact h.closed.pure _
      · refine h.closed.bind (h.createAndDispatchRun (h.createRun _ _ _ _ _)) fun child => ?_
        split
        · exact h.closed.pure _
        · exact h.endStart _
        · refine h.closed.bind (h.recheckParent _ _) fun active => ?_
          split
          · exact h.closed.bind (h.cancelActiveRun _) fun _ => h.endStart _
          · exact h.closed.pure _

end StartOps

theorem WalkState.finalStatus_ne (st : WalkState) : st.finalStatus ≠ .pending := by
  unfold WalkState.finalStatus
  split <;> decide

/-- The operations of the tasks that start no run, with the walks and the children of a run as
wholes; these only for some of the runs. -/
structure WorkOps (d : Deployment ω) (covers : ℕ → Prop) (P : ∀ α : Type, Run ω α → Prop) : Prop
    extends LifecycleOps P where
  updateStepResult : ∀ runId nodeId status, P _ (updateStepResult runId nodeId status)
  loadWorkflow : ∀ runId workflowId phase, covers runId →
    P _ (loadWorkflow runId workflowId phase)
  waitForEvent : ∀ uuid batchIndex, P _ (waitForEvent uuid batchIndex)
  failChild : ∀ index message, P _ (reportChild index (.error message))
  prepare : ∀ runId, P _ (prepare runId)
  writeCanvas : ∀ workflowId data, P _ (writeCanvas workflowId data)
  executeAll : ∀ runId run canvas, covers runId →
    P _ (executeAll (workerRunner d runId) run canvas)
  resumeAfterJoin : ∀ runId run canvas merged joinNodeId, covers runId →
    P _ (resumeAfterJoin (workerRunner d runId) run canvas merged joinNodeId)
  runSubgraph : ∀ runId run canvas context inventoryNodeId allowed, covers runId →
    P _ (runSubgraph (workerRunner d runId) run canvas context inventoryNodeId allowed)
  runGroups : ∀ runId signal groups offset, covers runId →
    P _ (runGroups runId signal groups offset)

structure TaskOps (d : Deployment ω) (covers : ℕ → Prop) (P : ∀ α : Type, Run ω α → Prop) : Prop
    extends WorkOps d covers P, StartOps P where
  reportChild : ∀ index result, P _ (reportChild index result)
  failChild := fun index message => reportChild index (.error message)

def Launch.startsRun : Launch → Bool
  | .triggerRun _ | .startScheduledRun _ _ | .startChildRun _ _ _ => true
  | _ => false

def Launch.Covered (covers : ℕ → Prop) (w : World) : Launch → Prop
  | .executeSteps runId => covers runId
  | .deviceGroup index => ∀ task, w.groupTasks[index]? = some task → covers task.input.parentRunId
  | _ => True

theorem Launch.covered_of_all {covers : ℕ → Prop} (h : ∀ runId, covers runId) (w : World)
    (what : Launch) : what.Covered covers w := by
  cases what with
  | executeSteps runId => exact h runId
  | deviceGroup index => exact fun task _ => h _
  | _ => trivial

namespace WorkOps

variable {d : Deployment ω} {covers : ℕ → Prop}

theorem phaseOne (h : WorkOps d covers P) {runId : ℕ} (hr : covers runId) :
    P _ (phaseOne d runId) := by
  refine h.closed.bind (h.get _ fun _ _ => rfl) fun row => ?_
  cases row with
  | none => exact h.closed.pure _
  | some row =>
    dsimp only
    split
    · exact h.closed.pure _
    · refine h.closed.bind (h.loadWorkflow _ _ _ hr) fun canvas => ?_
      cases canvas with
      | none => exact h.closed.pure _
      | some canvas =>
        refine h.closed.bind (h.executeAll _ _ _ hr) fun walked => ?_
        cases walked with
        | refused e => exact h.closed.pure _
        | alreadyStarted => exact h.closed.pure _
        | finished st =>
          exact h.closed.bind (h.updateRunStatus _ _ _ st.finalStatus_ne) fun _ => h.closed.pure _
        | fanOut signal =>
          refine h.closed.bind (h.loadWorkflow _ _ _ hr) fun captured => ?_
          split <;> exact h.closed.pure _

theorem waitAndResumeBatchApproval (h : WorkOps d covers P) (runId : ℕ) (signal : FanOutSignal)
    (uuid : String) (state : ApprovalState) :
    P _ (waitAndResumeBatchApproval runId signal uuid state) := by
  refine h.closed.bind (h.get _ fun _ _ => rfl) fun row => ?_
  cases row with
  | none => exact h.closed.pure _
  | some row =>
    refine h.closed.bind (h.updateRunStatus _ _ _ (by decide)) fun _ =>
      h.closed.bind (h.waitForEvent _ _) fun _ =>
        h.closed.bind (h.get _ fun _ _ => rfl) fun row => ?_
    cases row with
    | none => exact h.closed.pure _
    | some row => exact h.closed.bind (h.updateRunStatus _ _ _ (by decide)) fun _ => h.closed.pure _

theorem persistChildNodes (h : WorkOps d covers P) (runId : ℕ) (final hasAnyFailure : Bool)
    (results : List StepOutcomes) (existing nodeIds : List String) (merged : StepOutcomes)
    (anyFailed : Bool) :
    P _ (persistChildNodes runId final hasAnyFailure results existing nodeIds merged
      anyFailed) := by
  induction nodeIds generalizing merged anyFailed with
  | nil => exact h.closed.pure _
  | cons nodeId rest ih =>
    unfold Manus.persistChildNodes
    dsimp only
    split
    · split
      · exact h.closed.bind (h.updateStepResult _ _ _) fun _ => ih _ _
      · exact ih _ _
    · split
      · exact h.closed.pure _
      · split
        · exact h.closed.bind (h.updateStepResult _ _ _) fun _ => ih _ _
        · exact ih _ _

theorem aggregateAndPersist (h : WorkOps d covers P) (runId : ℕ) (signal : FanOutSignal)
    (graph : Canvas) (results : List (Except String ChildResult)) (final : Bool) :
    P _ (aggregateAndPersist runId signal graph results final) := by
  refine h.closed.bind (h.get _ fun _ _ => rfl) fun existing =>
    h.closed.bind (h.persistChildNodes _ _ _ _ _ _ _ _) fun merged => ?_
  cases merged <;> exact h.closed.pure _

theorem dispatchBatches (h : WorkOps d covers P) {runId : ℕ} {signal : FanOutSignal}
    (hgroups : ∀ groups offset, P _ (Manus.runGroups runId signal groups offset)) (uuid : String)
    (graph : Canvas) (plan : FanOutDispatchPlan) (firstBatchAuto : Bool) (totalBatches : ℕ)
    (batches : List (List (List String))) (batchIndex : ℕ) (st : BatchState) :
    P _ (dispatchBatches runId signal uuid graph plan firstBatchAuto totalBatches batches
      batchIndex st) := by
  induction batches generalizing batchIndex st with
  | nil => exact h.closed.pure _
  | cons batch batches ih =>
    refine h.closed.bind ?_ fun gate => ?_
    · unfold passGate
      split
      · exact h.waitAndResumeBatchApproval _ _ _ _
      · exact h.closed.pure _
    · cases gate with
      | error e => exact h.closed.pure _
      | ok auto =>
        refine h.closed.bind (hgroups _ _) fun batchResults =>
          h.closed.bind (h.aggregateAndPersist _ _ _ _ _) fun aggregated => ?_
        cases aggregated with
        | error e => exact h.closed.pure _
        | ok _ => exact ih _ _

theorem dispatchChildren (h : WorkOps d covers P) {runId : ℕ} {signal : FanOutSignal}
    (hgroups : ∀ groups offset, P _ (Manus.runGroups runId signal groups offset)) (uuid : String)
    (graph : Canvas) : P _ (dispatchChildren runId signal uuid graph) := by
  unfold Manus.dispatchChildren
  split
  · exact h.closed.pure _
  · split
    · exact h.closed.pure _
    · split
      · exact h.closed.bind (hgroups _ _) fun _ => h.closed.pure _
      · split
        · exact h.closed.pure _
        · exact h.dispatchBatches hgroups _ _ _ _ _ _ _ _

theorem finalizeFanOutParent (h : WorkOps d covers P) {runId : ℕ} (hr : covers runId)
    (signal : FanOutSignal) (graph : Canvas) (results : List (Except String ChildResult)) :
    P _ (finalizeFanOutParent d runId signal graph results) := by
  refine h.closed.bind (h.get _ fun _ _ => rfl) fun row => ?_
  cases row with
  | none => exact h.closed.pure _
  | some row =>
    refine h.closed.bind (h.aggregateAndPersist _ _ _ _ _) fun aggregated => ?_
    cases aggregated with
    | error e => exact h.closed.pure _
    | ok aggregated =>
      dsimp only
      split
      · exact h.closed.bind (h.updateRunStatus _ _ _ (by split <;> decide)) fun _ =>
          h.closed.pure _
      · refine h.closed.bind (h.loadWorkflow _ _ _ hr) fun canvas => ?_
        cases canvas with
        | none => exact h.closed.pure _
        | some canvas =>
          refine h.closed.bind (h.resumeAfterJoin _ _ _ _ _ hr)
            fun walked => ?_
          cases walked with
          | finished st =>
            exact h.closed.bind (h.updateRunStatus _ _ _ (by split <;> decide)) fun _ =>
              h.closed.pure _
          | alreadyStarted => exact h.closed.pure _
          | refused e => exact h.closed.pure _
          | fanOut signal => exact h.closed.pure _

theorem executeSteps (h : WorkOps d covers P) {runId : ℕ} (hr : covers runId) :
    P _ (executeSteps d runId) := by
  refine h.closed.bind ?_ fun ended => ?_
  · refine h.closed.bind (h.phaseOne hr) fun walked => ?_
    cases walked with
    | error e => exact h.closed.pure _
    | ok walked =>
      cases walked with
      | done => exact h.closed.pure _
      | fanOut uuid signal graph =>
        have hgroups := fun groups offset => h.runGroups runId signal groups offset hr
        refine h.closed.bind (h.dispatchChildren hgroups _ _) fun results => ?_
        cases results with
        | error e => exact h.closed.pure _
        | ok results => exact h.finalizeFanOutParent hr _ _ _
  · cases ended with
    | ok _ => exact h.closed.pure _
    | error e => cases e <;> exact h.finalise _ _

theorem runDeviceGroup (h : WorkOps d covers P) {input : DeviceGroupInput}
    (hr : covers input.parentRunId) : P _ (runDeviceGroup d input) := by
  refine h.closed.bind (h.get _ fun _ _ => rfl) fun row => ?_
  cases row with
  | none => exact h.closed.pure _
  | some row =>
    refine h.closed.bind (h.loadWorkflow _ _ _ hr) fun canvas => ?_
    cases canvas with
    | none => exact h.closed.pure _
    | some canvas =>
      dsimp only
      split
      · exact h.closed.pure _
      · refine h.closed.bind (h.runSubgraph _ _ _ _ _ _ hr) fun walked => ?_
        cases walked <;> exact h.closed.pure _

theorem updateWorkflow (h : WorkOps d covers P) (workflowId : ℕ) (data : WorkflowUpdate) :
    P _ (updateWorkflow workflowId data) := by
  refine h.closed.bind (h.get _ fun _ _ => rfl) fun canvas => ?_
  cases canvas with
  | none => exact h.closed.pure _
  | some canvas =>
    refine h.closed.bind h.callSucceeds fun ok => ?_
    split
    · split
      · exact h.closed.pure _
      · exact h.writeCanvas _ _
    · exact h.closed.pure _

/-- What runs when a task is aborted has the property. -/
theorem handlers (h : WorkOps d covers P) {what : Launch} {w w' : World}
    {task : Task (Answer ω) World} (hs : (runSystem d).start what w = some (task, w')) :
    ∀ p ∈ task.handlers, P _ p := by
  cases what with
  | executeSteps runId =>
    simp only [runSystem] at hs
    split at hs
    · cases hs
      rintro p (_ | ⟨_, _ | ⟨_, hp⟩⟩)
      · exact h.finalise _ _
      · exact h.finalise _ _
      · cases hp
    · cases hs
  | deviceGroup index =>
    obtain ⟨queued, -, he⟩ := Option.map_eq_some_iff.mp hs
    cases he
    rintro p (_ | ⟨_, hp⟩)
    · exact h.failChild _ _
    · cases hp
  | prepare runId | failRun runId =>
    simp only [runSystem] at hs
    split at hs <;> cases hs
    rintro p ⟨⟩
  | _ =>
    cases hs
    rintro p ⟨⟩

/-- Whatever is launched for one of the runs and starts no run has the property. -/
theorem start (h : WorkOps d covers P) {what : Launch} {w w' : World}
    {task : Task (Answer ω) World} (hs : (runSystem d).start what w = some (task, w'))
    (hc : what.Covered covers w) (hn : what.startsRun = false)
    (hreport : ∀ index, what = .deviceGroup index →
      ∀ result, P _ (Manus.reportChild index result)) :
    P _ task.prog := by
  have hdrop : ∀ {α : Type} {p : Run ω α}, P _ p → P _ (p >>= fun _ => pure ()) :=
    fun hp => h.closed.bind hp fun _ => h.closed.pure _
  cases what with
  | deviceGroup index =>
    obtain ⟨queued, hq, he⟩ := Option.map_eq_some_iff.mp hs
    cases he
    exact h.closed.bind (h.runDeviceGroup (hc queued hq)) fun result =>
      hreport index rfl result
  | prepare runId =>
    simp only [runSystem] at hs
    split at hs <;> cases hs
    exact hdrop (h.prepare runId)
  | executeSteps runId =>
    simp only [runSystem] at hs
    split at hs <;> cases hs
    exact h.executeSteps hc
  | failRun runId =>
    simp only [runSystem] at hs
    split at hs <;> cases hs
    exact h.finalise _ _
  | triggerRun new => cases hn
  | startScheduledRun new refusal => cases hn
  | startChildRun parentRunId workflowId new => cases hn
  | cancelRun runId =>
    cases hs
    exact hdrop (h.cancelRun runId)
  | approveBatch runId =>
    cases hs
    exact h.approveBatch runId
  | approveAll runId =>
    cases hs
    exact h.approveAll runId
  | reapStuckRuns older =>
    cases hs
    exact h.reapStuckRuns older
  | updateWorkflow workflowId data =>
    cases hs
    exact h.updateWorkflow _ _

end WorkOps

theorem StartOps.start {d : Deployment ω} (h : StartOps P) {what : Launch} {w w' : World}
    {task : Task (Answer ω) World} (hs : (runSystem d).start what w = some (task, w'))
    (hn : what.startsRun = true) : P _ task.prog := by
  cases what with
  | triggerRun new =>
    cases hs
    exact h.closed.bind (h.createAndDispatchRun (h.createRun _ _ _ _ _)) fun _ => h.closed.pure _
  | startScheduledRun new refusal =>
    cases hs
    exact h.startScheduledRun (h.createRun _ _ _ _ _) refusal
  | startChildRun parentRunId workflowId new =>
    cases hs
    exact h.startChildRun _ _ _
  | _ => cases hn

theorem TaskOps.start {d : Deployment ω} {covers : ℕ → Prop} (h : TaskOps d covers P)
    {what : Launch} {w w' : World} {task : Task (Answer ω) World}
    (hs : (runSystem d).start what w = some (task, w')) (hc : what.Covered covers w) :
    P _ task.prog := by
  cases hn : what.startsRun with
  | true => exact h.toStartOps.start hs hn
  | false => exact h.toWorkOps.start hs hc hn fun index _ result => h.reportChild index result

theorem buildChildInputs_parent {runId offset : ℕ} {signal : FanOutSignal}
    {groups : List (List String)} {input : DeviceGroupInput}
    (h : input ∈ buildChildInputs runId signal groups offset) : input.parentRunId = runId := by
  obtain ⟨i, hi, rfl⟩ := List.mem_mapIdx.mp h
  rfl

/-- The operations the walks are made of; the ones that show which run is walked only for some of
the runs. -/
structure WalkOps (covers : ℕ → Prop) (P : ∀ α : Type, Run ω α → Prop) : Prop
    extends LifecycleOps P where
  gather : ∀ {α : Type} (l : List (Run ω α)), (∀ x ∈ l, P _ x) → P _ (.gather l)
  createStepResult : ∀ runId node, P _ (createStepResult runId node)
  updateStepResult : ∀ runId nodeId status, P _ (updateStepResult runId nodeId status)
  loadWorkflow : ∀ runId workflowId phase, covers runId →
    P _ (loadWorkflow runId workflowId phase)
  cancelRequested : ∀ runId, P _ (cancelRequested runId)
  invoke : ∀ runId nodeId ctx, covers runId → P _ (invoke runId nodeId ctx)
  waitForEvent : ∀ uuid batchIndex, P _ (waitForEvent uuid batchIndex)
  requestChild : ∀ input, covers input.parentRunId → P _ (requestChild input)
  awaitChild : ∀ index, P _ (awaitChild index)
  failChild : ∀ index message, P _ (reportChild index (.error message))
  prepare : ∀ runId, P _ (prepare runId)
  writeCanvas : ∀ workflowId data, P _ (writeCanvas workflowId data)

/-- All operations, the ones that show which run is walked only for some of the runs. -/
structure StepOps (covers : ℕ → Prop) (P : ∀ α : Type, Run ω α → Prop) : Prop
    extends WalkOps covers P, StartOps P where
  reportChild : ∀ index result, P _ (reportChild index result)
  failChild := fun index message => reportChild index (.error message)

theorem WalkOps.runner {covers : ℕ → Prop} (h : WalkOps covers P) (d : Deployment ω) {runId : ℕ}
    (hr : covers runId) : (workerRunner d runId).Keeps P where
  executors stepType executor hx config ctx run nodeId := by
    obtain ⟨behave, -, rfl⟩ := Option.map_eq_some_iff.mp hx
    exact h.closed.bind (h.invoke _ _ _ hr) fun _ => h.answer _
  persistStepResult := h.updateStepResult _
  cancelRequested := h.cancelRequested _
  stepResultNodes := h.get _ fun _ _ => rfl
  createStepResult := h.createStepResult _
  gather := h.gather

theorem WalkOps.works {covers : ℕ → Prop} (h : WalkOps covers P) (d : Deployment ω) :
    WorkOps d covers P :=
  have walks := fun {runId} (hr : covers runId) => (h.runner d hr).walks h.closed
  { h with
    executeAll := fun runId _ _ hr => (walks hr).executeAll h.closed _
    resumeAfterJoin := fun runId _ _ _ _ hr => (walks hr).resumeAfterJoin h.closed _ _ _
    runSubgraph := fun runId _ _ _ _ _ hr => (walks hr).runSubgraph h.closed _ _ _ _
    runGroups := fun runId signal groups offset hr => by
      refine h.gather _ fun x hx => ?_
      obtain ⟨input, hi, rfl⟩ := List.mem_map.mp hx
      refine h.closed.bind (h.requestChild _ ?_) fun index => h.awaitChild index
      rwa [buildChildInputs_parent hi] }

theorem StepOps.tasks {covers : ℕ → Prop} (h : StepOps covers P) (d : Deployment ω) :
    TaskOps d covers P :=
  { h.toWalkOps.works d, h.toStartOps with reportChild := h.reportChild }

end Manus
