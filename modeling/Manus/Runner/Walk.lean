import Manus.Context.Guards

/-! # Walking a workflow

The runner takes the resolved graph wave by wave: it assembles the input of
each node from its parents' outcomes, executes the step between the capability
guards and stores what comes out. The walk is written once, over the monad in
which its surroundings act: step executors, the step rows and the cancel flag.
-/

namespace Manus

universe u

/-- The part of a run row that the walk reads. -/
structure RunInfo where
  id : ℕ := 0
  uuid : String
  workflowId : String
  runInputs : Dict Json := ∅

inductive StepError where
  | merge (message : String)
  | unknownStepType (stepType : String)
  | unknownPlugin (stepType : String)
  | preGuard (error : GuardError)
  | executor (message : String)
  | noOutcomes (stepType : String)
  | postGuard (error : GuardError)
  deriving DecidableEq, Repr

inductive StepStatus where
  | pending
  | running
  | success
  | partialResult
  | failed
  | skipped
  deriving DecidableEq, Repr

/-- The outcomes every executed node stored: node id, then outcome name. -/
abbrev StepOutcomes := Dict (Dict WorkflowContext)

/-- `step_outcomes.get(node_id, {}).get(name)`. -/
def StepOutcomes.at? (so : StepOutcomes) (nodeId name : String) : Option WorkflowContext :=
  (so.get? nodeId).bind fun outcomes => outcomes.get? name

/-- The device a node stored under an outcome. -/
def StepOutcomes.device? (so : StepOutcomes) (nodeId name deviceId : String) :
    Option DeviceContext :=
  (so.at? nodeId name).bind fun ctx => ctx.devices.get? deviceId

section Outcomes

def runInputBagName : String := "run_input"

/-- Stamp the run's inputs onto every device that does not carry them yet. -/
def seedRunInputBag (context : WorkflowContext) (runInputs : Dict Json) : WorkflowContext :=
  if runInputs.isEmpty then context
  else { context with
    devices := context.devices.mapValues fun device =>
      if runInputBagName ∈ device.attributeBags.keys then device
      else { device with
        attributeBags := device.attributeBags.insert runInputBagName runInputs } }

def seedRunInputs (run : RunInfo) (outcomes : List StepOutcome) : List StepOutcome :=
  outcomes.map fun o => { o with context := seedRunInputBag o.context run.runInputs }

/-- `{outcome.name: outcome.context for outcome in outcomes}`. -/
def storedOutcomes (outcomes : List StepOutcome) : Dict WorkflowContext :=
  Dict.ofPairs (outcomes.map fun o => (o.name, o.context))

/-- A failed repository operation recorded in the metadata of the failure outcome. -/
def workflowLevelFailure (outcome : Option WorkflowContext) : Bool :=
  outcome.any fun ctx => ctx.metadata.entries.any fun p =>
    endsWith p.1 ".git_operation" &&
      match p.2.get? "success" with
      | some (.bool false) => true
      | _ => false

/-- The status a finished step row gets, by the devices on its two standard outcomes. -/
def deriveStepResultStatus (outcomes : List StepOutcome) : StepStatus :=
  let failure := (outcomes.find? fun o => o.name == "failure").map StepOutcome.context
  let hasDevices := fun (ctx : Option WorkflowContext) => ctx.any fun c => !c.devices.isEmpty
  if hasDevices failure && hasDevices (successOutcome outcomes) then .partialResult
  else if hasDevices failure then .failed
  else if workflowLevelFailure failure && !hasDevices (successOutcome outcomes) then .failed
  else .success

end Outcomes

section Inputs

variable (edges : List CanvasEdge) (so : StepOutcomes)

/-- The contexts that reach a node, in edge order. -/
def parentContexts (nodeId : String) : List WorkflowContext :=
  (edges.filter fun e => e.target == nodeId).filterMap fun e => so.at? e.source e.outcomeName

def assembleInputContext (run : RunInfo) (nodeId : String) : Except String WorkflowContext :=
  match parentContexts edges so nodeId with
  | [] => .ok { runId := run.uuid, workflowId := run.workflowId }
  | contexts => mergeWorkflowContexts contexts

variable (blockedNodes : List String)

/-- Whether the parent of an edge delivers a device along it. -/
def deliversDevices (e : CanvasEdge) : Bool :=
  e.source ∉ blockedNodes && (so.at? e.source e.outcomeName).any fun c => !c.devices.isEmpty

/-- Whether the parent of an edge was blocked or lost devices to its failure outcome. -/
def showsFailure (e : CanvasEdge) : Bool :=
  e.source ∈ blockedNodes || (so.at? e.source "failure").any fun c => !c.devices.isEmpty

/-- Whether every device that could have reached a node was lost to a failure upstream. -/
def blockedByUpstreamFailure (nodeId : String) : Bool :=
  let parentEdges := edges.filter fun e => e.target == nodeId
  parentEdges.any (showsFailure so blockedNodes) &&
    !parentEdges.any (deliversDevices so blockedNodes)

end Inputs

/-- Whether the registry says that a step needs devices. -/
def stepRequiresDevices (registry : PluginRegistry) (stepType : String) : Bool :=
  match registry.getPlugin stepType with
  | none => false
  | some plugin => .identity ∈ (capabilitySpecFromPlugin plugin).requires

/-- A step executor: configuration, input, run and node id to outcomes, or a raised error. -/
abbrev Executor (m : Type → Type u) :=
  Dict Json → WorkflowContext → RunInfo → String → m (Except String (List StepOutcome))

/-- The step runner and what surrounds it. -/
structure StepRunner (m : Type → Type u) where
  registry : PluginRegistry
  /-- The executor of a step type. -/
  stepRegistry : String → Option (Executor m)
  /-- Re-read the run row: was the run cancelled? -/
  cancelRequested : m Bool
  /-- The nodes that have a row for this run. -/
  stepResultNodes : m (List String)
  /-- Create the pending row of a node; false when the node has one already. -/
  createStepResult : CanvasNode → m Bool
  /-- Write the status of a node's row and read the row back. -/
  persistStepResult : String → StepStatus → m StepStatus
  /-- Run the nodes of one wave concurrently. -/
  gather : {α : Type} → List (m α) → m (List α)

inductive NodeRun where
  | blocked
  | ran (outcomes : Dict WorkflowContext) (failedRow : Bool)
  | raised (error : StepError)

structure WalkState where
  stepOutcomes : StepOutcomes := ∅
  blockedNodes : List String := []
  stepErrors : List (String × StepError) := []
  failed : Bool := false
  anyReportedFailure : Bool := false

/-- What an inventory step that fans out hands to the orchestrator. -/
structure FanOutSignal where
  inventoryNodeId : String
  fanOutConfig : Dict Json
  inventoryOutcome : WorkflowContext
  stepOutcomes : StepOutcomes
  joinNodeId : Option String

section Nodes

variable {m : Type → Type u} [Monad m] (runner : StepRunner m) (run : RunInfo)

/-- The checks after an executor returned. -/
def checkOutcomes (spec : StepCapabilitySpec) (node : CanvasNode) (context : WorkflowContext) :
    Except String (List StepOutcome) → Except StepError (List StepOutcome)
  | .error message => .error (.executor message)
  | .ok [] => .error (.noOutcomes node.stepType)
  | .ok outcomes =>
    match postStepGuard spec context outcomes
      (effectiveProduces spec node.stepType node.data.pluginConfig) with
    | .error e => .error (.postGuard e)
    | .ok () => .ok outcomes

def executeStep (node : CanvasNode) (context : WorkflowContext) :
    m (Except StepError (List StepOutcome)) :=
  match runner.stepRegistry node.stepType with
  | none => pure (.error (.unknownStepType node.stepType))
  | some executor =>
    match runner.registry.getPlugin node.stepType with
    | none => pure (.error (.unknownPlugin node.stepType))
    | some plugin =>
      let spec := capabilitySpecFromPlugin plugin
      match preStepGuard spec context with
      | .error e => pure (.error (.preGuard e))
      | .ok () => do
        let result ← executor node.data.pluginConfig context run node.id
        return checkOutcomes spec node context result

/-- Assemble the input of a node, execute its step and stamp the run's inputs on the result. -/
def produceOutcomes (edges : List CanvasEdge) (so : StepOutcomes) (node : CanvasNode) :
    m (Except StepError (List StepOutcome)) :=
  match assembleInputContext edges so run node.id with
  | .error message => pure (.error (.merge message))
  | .ok context => do
    let result ← executeStep runner run node context
    return result.map (seedRunInputs run)

/-- Whether the walk skips a node because nothing can reach it any more. -/
def nodeBlocked (edges : List CanvasEdge) (st : WalkState) (node : CanvasNode) : Bool :=
  stepRequiresDevices runner.registry node.stepType &&
    blockedByUpstreamFailure edges st.stepOutcomes st.blockedNodes node.id

/-- Run one node of the main walk and keep its row up to date. -/
def runNodeInSequence (edges : List CanvasEdge) (st : WalkState) (node : CanvasNode) :
    m NodeRun :=
  if nodeBlocked runner edges st node then do
    let _ ← runner.persistStepResult node.id .skipped
    return .blocked
  else do
    let _ ← runner.persistStepResult node.id .running
    match ← produceOutcomes runner run edges st.stepOutcomes node with
    | .ok outcomes => do
      let row ← runner.persistStepResult node.id (deriveStepResultStatus outcomes)
      return .ran (storedOutcomes outcomes) (row = .failed)
    | .error e => do
      let _ ← runner.persistStepResult node.id .failed
      return .raised e

/-- Run one node of a fan-out child; the parent writes the rows. -/
def runSubgraphNode (edges : List CanvasEdge) (st : WalkState) (node : CanvasNode) :
    m NodeRun :=
  if nodeBlocked runner edges st node then return .blocked
  else do
    match ← produceOutcomes runner run edges st.stepOutcomes node with
    | .ok outcomes => return .ran (storedOutcomes outcomes) false
    | .error e => return .raised e

end Nodes

/-- Take over what one node left behind. -/
def WalkState.absorb (st : WalkState) (nodeId : String) : NodeRun → WalkState
  | .blocked => { st with
      blockedNodes := nodeId :: st.blockedNodes
      anyReportedFailure := true }
  | .ran outcomes failedRow => { st with
      stepOutcomes := st.stepOutcomes.insert nodeId outcomes
      anyReportedFailure := st.anyReportedFailure || failedRow }
  | .raised e => { st with
      stepErrors := st.stepErrors ++ [(nodeId, e)]
      failed := true }

/-- Take over what the nodes of a wave left behind. Siblings never read each other's entries, so
the order in which they finished does not show. -/
def WalkState.absorbAll (st : WalkState) (results : List (CanvasNode × NodeRun)) : WalkState :=
  results.foldl (fun st r => st.absorb r.1.id r.2) st

section Walks

variable {m : Type → Type u} [Monad m] (runner : StepRunner m) (run : RunInfo)
  (edges : List CanvasEdge)

def runWave (st : WalkState) (wave : List CanvasNode) : m WalkState := do
  let results ← runner.gather (wave.map (runNodeInSequence runner run edges st))
  return st.absorbAll (wave.zip results)

/-- Mark the rows of a wave that is not run. -/
def skipWave : List CanvasNode → m PUnit
  | [] => return
  | node :: wave => do
    let _ ← runner.persistStepResult node.id .skipped
    skipWave wave

/-- Whether the walk stops before its next wave. After a node raised the cancel flag is not read
any more. -/
def stopRequested (st : WalkState) : m Bool :=
  if st.failed then pure true else runner.cancelRequested

/-- The main walk. Before each wave the cancel flag is read; after a node raised or the run was
cancelled the remaining waves are skipped; `handOver` may end the walk after a wave. -/
def walkWaves {β : Type} (handOver : WalkState → List CanvasNode → Option β) :
    List (List CanvasNode) → WalkState → m (WalkState × Option β)
  | [], st => return (st, none)
  | wave :: waves, st => do
    let cancelled ← stopRequested runner st
    if cancelled then do
      skipWave runner wave
      walkWaves handOver waves { st with failed := true }
    else do
      let st ← runWave runner run edges st wave
      if st.failed then walkWaves handOver waves st
      else
        match handOver st wave with
        | some signal => return (st, some signal)
        | none => walkWaves handOver waves st

/-- The first node of a wave whose success outcome asks for fan-out. -/
def fanOutRequested (graph : Canvas) (st : WalkState) (wave : List CanvasNode) :
    Option FanOutSignal :=
  wave.findSome? fun node => do
    let success ← st.stepOutcomes.at? node.id "success"
    let config ← success.metadata.get? "_fan_out"
    match config with
    | .obj fields =>
      if (fields.lookup "enabled").any Json.truthy then
        some {
          inventoryNodeId := node.id
          fanOutConfig := Dict.ofPairs fields
          inventoryOutcome := success
          stepOutcomes := st.stepOutcomes
          joinNodeId := findJoinNodeId node.id graph.nodes graph.edges }
      else none
    | _ => none

end Walks

section Facts

variable {run : RunInfo} {edges : List CanvasEdge} {so : StepOutcomes}

/-- The seeding of one device. -/
def seedDevice (runInputs : Dict Json) (device : DeviceContext) : DeviceContext :=
  if runInputs.isEmpty || decide (runInputBagName ∈ device.attributeBags.keys) then device
  else { device with attributeBags := device.attributeBags.insert runInputBagName runInputs }

theorem seedRunInputBag_devices (ctx : WorkflowContext) (runInputs : Dict Json) (id : String) :
    (seedRunInputBag ctx runInputs).devices.get? id =
      (ctx.devices.get? id).map (seedDevice runInputs) := by
  unfold seedRunInputBag seedDevice
  split
  · rename_i h
    simp [h]
  · rename_i h
    simp [h]

theorem storedOutcomes_seed (outcomes : List StepOutcome) (name : String) :
    (storedOutcomes (seedRunInputs run outcomes)).get? name =
      ((storedOutcomes outcomes).get? name).map fun c => seedRunInputBag c run.runInputs := by
  have hmap : (seedRunInputs run outcomes).map (fun o => (o.name, o.context)) =
      (outcomes.map fun o => (o.name, o.context)).map fun p =>
        (p.1, seedRunInputBag p.2 run.runInputs) := by
    simp [seedRunInputs, Function.comp_def]
  rw [storedOutcomes, storedOutcomes, Dict.get?_ofPairs, Dict.get?_ofPairs, hmap,
    ← List.map_reverse]
  induction (outcomes.map fun o => (o.name, o.context)).reverse with
  | nil => rfl
  | cons p l ih =>
    obtain ⟨k, c⟩ := p
    rw [List.map_cons, Dict.lookup_pair_cons, Dict.lookup_pair_cons, ih]
    split <;> rfl

/-- What reaches a node of one device, parent by parent. -/
def arriving (edges : List CanvasEdge) (so : StepOutcomes) (nodeId deviceId : String) :
    List (Option DeviceContext) :=
  (edges.filter fun e => e.target == nodeId).map fun e =>
    so.device? e.source e.outcomeName deviceId

theorem mergeLookups_none {found : List (Option DeviceContext)} (h : ∀ o ∈ found, o = none) :
    mergeLookups found = .ok none := by
  rw [← mergeLookups_filter, List.filter_eq_nil_iff.mpr fun o ho => by simp [h o ho]]
  rfl

theorem filterMap_lookup_isSome {α β γ : Type} (l : List α) (f : α → Option β) (g : β → Option γ) :
    ((l.filterMap f).map g).filter Option.isSome =
      (l.map fun a => (f a).bind g).filter Option.isSome := by
  induction l with
  | nil => rfl
  | cons a l ih =>
    cases hf : f a with
    | none =>
      rw [List.filterMap_cons_none hf, ih, List.map_cons, hf,
        List.filter_cons_of_neg (by simp)]
    | some b =>
      rw [List.filterMap_cons_some hf, List.map_cons, List.map_cons, hf, Option.bind_some,
        List.filter_cons, List.filter_cons, ih]

theorem assembleInputContext_devices {nodeId : String} {ctx : WorkflowContext}
    (h : assembleInputContext edges so run nodeId = .ok ctx) (id : String) :
    mergeLookups (arriving edges so nodeId id) = .ok (ctx.devices.get? id) := by
  have harr : mergeLookups ((parentContexts edges so nodeId).map fun c => c.devices.get? id) =
      mergeLookups (arriving edges so nodeId id) := by
    rw [← mergeLookups_filter, parentContexts, filterMap_lookup_isSome, mergeLookups_filter]
    rfl
  rw [← harr]
  unfold assembleInputContext at h
  split at h
  · rename_i hnil
    cases h
    rw [hnil]
    rfl
  · exact mergeWorkflowContexts_devices h id

end Facts

end Manus
