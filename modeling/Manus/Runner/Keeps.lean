import Manus.Runner.Phases

/-! # What every walk inherits from its surroundings

A property of computations that is closed under sequencing holds of the walks as
soon as it holds of the operations the runner is given.
-/

namespace Manus

universe u

variable {m : Type → Type u} [Monad m]

structure Closed (P : ∀ α : Type, m α → Prop) : Prop where
  pure : ∀ {α : Type} (a : α), P α (pure a)
  bind : ∀ {α β : Type} {x : m α} {f : α → m β}, P α x → (∀ a, P β (f a)) → P β (x >>= f)

theorem Closed.skipWave {P : ∀ α : Type, m α → Prop} (hP : Closed P) {runner : StepRunner m}
    (hpersist : ∀ nodeId status, P _ (runner.persistStepResult nodeId status))
    (wave : List CanvasNode) : P _ (skipWave runner wave) := by
  induction wave with
  | nil => exact hP.pure _
  | cons node wave ih => exact hP.bind (hpersist _ _) fun _ => ih

structure StepRunner.NodesKeep (runner : StepRunner m) (P : ∀ α : Type, m α → Prop) : Prop where
  executors : ∀ stepType executor, runner.stepRegistry stepType = some executor →
    ∀ config ctx run nodeId, P _ (executor config ctx run nodeId)
  persistStepResult : ∀ nodeId status, P _ (runner.persistStepResult nodeId status)

structure StepRunner.Keeps (runner : StepRunner m) (P : ∀ α : Type, m α → Prop) : Prop
    extends runner.NodesKeep P where
  cancelRequested : P _ runner.cancelRequested
  stepResultNodes : P _ runner.stepResultNodes
  createStepResult : ∀ node, P _ (runner.createStepResult node)
  gather : ∀ {α : Type} (l : List (m α)), (∀ x ∈ l, P _ x) → P _ (runner.gather l)

/-- The walks as wholes have the property, and so have the operations on rows before them. -/
structure StepRunner.WalksKeep (runner : StepRunner m) (P : ∀ α : Type, m α → Prop) : Prop where
  stepResultNodes : P _ runner.stepResultNodes
  createStepResult : ∀ node, P _ (runner.createStepResult node)
  walkWaves : ∀ {β : Type} run edges (handOver : WalkState → List CanvasNode → Option β) waves st,
    P _ (walkWaves runner run edges handOver waves st)
  walkChild : ∀ run edges initialContext waves st,
    P _ (walkChild runner run edges initialContext waves st)

namespace StepRunner.NodesKeep

variable {P : ∀ α : Type, m α → Prop} {runner : StepRunner m} {run : RunInfo}
  {edges : List CanvasEdge}

theorem produceOutcomes (h : runner.NodesKeep P) (hP : Closed P) (so : StepOutcomes)
    (node : CanvasNode) : P _ (produceOutcomes runner run edges so node) := by
  unfold Manus.produceOutcomes
  split
  · exact hP.pure _
  · refine hP.bind ?_ fun _ => hP.pure _
    unfold executeStep
    split
    · exact hP.pure _
    · rename_i executor hx
      split
      · exact hP.pure _
      · dsimp only
        split
        · exact hP.pure _
        · exact hP.bind (h.executors _ executor hx _ _ _ _) fun _ => hP.pure _

theorem runNodeInSequence (h : runner.NodesKeep P) (hP : Closed P) (st : WalkState)
    (node : CanvasNode) : P _ (runNodeInSequence runner run edges st node) := by
  unfold Manus.runNodeInSequence
  split
  · exact hP.bind (h.persistStepResult _ _) fun _ => hP.pure _
  · refine hP.bind (h.persistStepResult _ _) fun _ =>
      hP.bind (h.produceOutcomes hP _ _) fun result => ?_
    cases result with
    | ok outcomes => exact hP.bind (h.persistStepResult _ _) fun _ => hP.pure _
    | error e => exact hP.bind (h.persistStepResult _ _) fun _ => hP.pure _

theorem runSubgraphNode (h : runner.NodesKeep P) (hP : Closed P) (st : WalkState)
    (node : CanvasNode) : P _ (runSubgraphNode runner run edges st node) := by
  unfold Manus.runSubgraphNode
  split
  · exact hP.pure _
  · refine hP.bind (h.produceOutcomes hP _ _) fun result => ?_
    cases result <;> exact hP.pure _

end StepRunner.NodesKeep

namespace StepRunner.Keeps

variable {P : ∀ α : Type, m α → Prop} {runner : StepRunner m} {run : RunInfo}
  {edges : List CanvasEdge}

theorem stopRequested (h : runner.Keeps P) (hP : Closed P) (st : WalkState) :
    P _ (stopRequested runner st) := by
  unfold Manus.stopRequested
  split
  · exact hP.pure _
  · exact h.cancelRequested

theorem runWave (h : runner.Keeps P) (hP : Closed P) (st : WalkState) (wave : List CanvasNode) :
    P _ (runWave runner run edges st wave) := by
  refine hP.bind (h.gather _ fun x hx => ?_) fun _ => hP.pure _
  obtain ⟨node, -, rfl⟩ := List.mem_map.mp hx
  exact h.runNodeInSequence hP st node

theorem walkWaves {β : Type} {handOver : WalkState → List CanvasNode → Option β}
    (h : runner.Keeps P) (hP : Closed P) (waves : List (List CanvasNode)) (st : WalkState) :
    P _ (walkWaves runner run edges handOver waves st) := by
  induction waves generalizing st with
  | nil => exact hP.pure _
  | cons wave waves ih =>
    refine hP.bind (h.stopRequested hP st) fun cancelled => ?_
    split
    · exact hP.bind (hP.skipWave h.persistStepResult wave) fun _ => ih _
    · refine hP.bind (h.runWave hP st wave) fun st' => ?_
      split
      · exact ih _
      · split
        · exact hP.pure _
        · exact ih _

theorem walkChild (h : runner.Keeps P) (hP : Closed P) (initialContext : WorkflowContext)
    (waves : List (List CanvasNode)) (st : WalkState) :
    P _ (walkChild runner run edges initialContext waves st) := by
  induction waves generalizing st with
  | nil => exact hP.pure _
  | cons wave waves ih =>
    refine hP.bind (h.stopRequested hP st) fun cancelled => ?_
    split
    · exact ih _
    · refine hP.bind (h.gather _ fun x hx => ?_) fun _ => ih _
      obtain ⟨node, -, rfl⟩ := List.mem_map.mp hx
      exact h.runSubgraphNode hP st node

theorem walks (h : runner.Keeps P) (hP : Closed P) : runner.WalksKeep P where
  stepResultNodes := h.stepResultNodes
  createStepResult := h.createStepResult
  walkWaves _ _ _ waves st := h.walkWaves hP waves st
  walkChild _ _ initialContext waves st := h.walkChild hP initialContext waves st

end StepRunner.Keeps

namespace StepRunner.WalksKeep

variable {P : ∀ α : Type, m α → Prop} {runner : StepRunner m} {run : RunInfo}

theorem createPendingStepResults (h : runner.WalksKeep P) (hP : Closed P)
    (nodes : List CanvasNode) :
    P _ (createPendingStepResults runner nodes) := by
  induction nodes with
  | nil => exact hP.pure _
  | cons node nodes ih =>
    refine hP.bind (h.createStepResult node) fun created => ?_
    split
    · exact ih
    · exact hP.pure _

theorem executeAll (h : runner.WalksKeep P) (hP : Closed P) (canvas : Canvas) :
    P _ (executeAll runner run canvas) := by
  unfold Manus.executeAll
  split
  · exact hP.pure _
  · refine hP.bind h.stepResultNodes fun existing => ?_
    split
    · exact hP.pure _
    · split
      · exact hP.pure _
      · refine hP.bind (h.createPendingStepResults hP _) fun created => ?_
        split
        · refine hP.bind (h.walkWaves _ _ _ _ _) fun r => ?_
          obtain ⟨st, signal⟩ := r
          cases signal <;> exact hP.pure _
        · exact hP.pure _

theorem resumeAfterJoin (h : runner.WalksKeep P) (hP : Closed P) (canvas : Canvas)
    (mergedOutcomes : StepOutcomes) (joinNodeId : String) :
    P _ (resumeAfterJoin runner run canvas mergedOutcomes joinNodeId) := by
  unfold Manus.resumeAfterJoin
  split
  · exact hP.pure _
  · split
    · exact hP.pure _
    · refine hP.bind h.stepResultNodes fun existing =>
        hP.bind (h.createPendingStepResults hP _) fun created => ?_
      split
      · exact hP.bind (h.walkWaves _ _ _ _ _) fun _ => hP.pure _
      · exact hP.pure _

theorem runSubgraph (h : runner.WalksKeep P) (hP : Closed P) (canvas : Canvas)
    (initialContext : WorkflowContext) (inventoryNodeId : String) (allowed : List String) :
    P _ (runSubgraph runner run canvas initialContext inventoryNodeId allowed) := by
  unfold Manus.runSubgraph
  split
  · exact hP.pure _
  · split
    · exact hP.pure _
    · exact hP.bind (h.walkChild _ _ _ _ _) fun _ => hP.pure _

end StepRunner.WalksKeep

end Manus
