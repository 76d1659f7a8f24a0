import Manus.Runner.Walk
import Manus.Secrets.Redaction

/-! # The phases of a run

A plain run is one walk over all waves. A run that fans out stops after the
wave of its inventory step, runs the branch below it once per device group, and
resumes once at the fan-in node with the merged results. A child masks the secrets
it has seen in what it returns.
-/

namespace Manus

universe u

section Walks

variable {m : Type → Type u} [Monad m] (runner : StepRunner m) (run : RunInfo)

inductive WalkEnd where
  | refused (error : GraphError)
  | alreadyStarted
  | fanOut (signal : FanOutSignal)
  | finished (st : WalkState)

def generations (ordered : List CanvasNode) (edges : List CanvasEdge) : List (List CanvasNode) :=
  (topologicalGenerations ordered edges).getD []

/-- Create the pending row of every planned node; stops at the first that exists. -/
def createPendingStepResults : List CanvasNode → m Bool
  | [] => return true
  | node :: rest => do
    if ← runner.createStepResult node then createPendingStepResults rest
    else return false

def walkGraph (graph : Canvas) (ordered : List CanvasNode) : m WalkEnd := do
  let (st, signal) ← walkWaves runner run graph.edges (fanOutRequested graph)
    (generations ordered graph.edges) {}
  match signal with
  | some signal => return .fanOut signal
  | none => return .finished st

/-- Execute every step in dependency order, at most once per run: a run that has step rows, or
loses the race to create them, is not walked again. -/
def executeAll (canvas : Canvas) : m WalkEnd :=
  match loadExecutionGraph canvas with
  | .error e => return .refused e
  | .ok graph => do
    if !(← runner.stepResultNodes).isEmpty then return .alreadyStarted
    else
      match topologicalSort runner.registry graph with
      | .error e => return .refused e
      | .ok ordered => do
        if ← createPendingStepResults runner ordered then walkGraph runner run graph ordered
        else return .alreadyStarted

/-- Run the fan-in node and everything below it on the merged outcomes of the children. -/
def resumeAfterJoin (canvas : Canvas) (mergedOutcomes : StepOutcomes) (joinNodeId : String) :
    m WalkEnd :=
  match loadExecutionGraph canvas with
  | .error e => return .refused e
  | .ok graph =>
    match topologicalSort runner.registry graph with
    | .error e => return .refused e
    | .ok ordered => do
      let postJoinIds := joinNodeId :: downstreamNodeIds joinNodeId graph.nodes graph.edges
      let postJoinNodes := ordered.filter fun n => n.id ∈ postJoinIds
      let existing ← runner.stepResultNodes
      if ← createPendingStepResults runner (postJoinNodes.filter fun n => n.id ∉ existing) then do
        let (st, _) ← walkWaves (β := Unit) runner run graph.edges (fun _ _ => none)
          (generations postJoinNodes graph.edges) { stepOutcomes := mergedOutcomes }
        return .finished st
      else return .alreadyStarted

/-- Take over what a node of a child left behind; a node that raised passes on the child's
devices as failed. -/
def WalkState.absorbChild (initialContext : WorkflowContext) (st : WalkState) (nodeId : String)
    (r : NodeRun) : WalkState :=
  match r with
  | .raised _ =>
    let st := st.absorb nodeId r
    { st with stepOutcomes :=
        st.stepOutcomes.insert nodeId (Dict.ofPairs [("failure", initialContext)]) }
  | _ => st.absorb nodeId r

/-- The walk of a child: it stops at the first wave after a node raised or the run was
cancelled. -/
def walkChild (edges : List CanvasEdge) (initialContext : WorkflowContext) :
    List (List CanvasNode) → WalkState → m WalkState
  | [], st => return st
  | wave :: waves, st => do
    let cancelled ← stopRequested runner st
    if cancelled then walkChild edges initialContext waves { st with failed := true }
    else do
      let results ← runner.gather (wave.map (runSubgraphNode runner run edges st))
      walkChild edges initialContext waves
        ((wave.zip results).foldl (fun st r => st.absorbChild initialContext r.1.id r.2) st)

/-- Where a child starts: the inventory step has delivered its devices. -/
def childStart (inventoryNodeId : String) (initialContext : WorkflowContext) : WalkState where
  stepOutcomes := Dict.ofPairs [(inventoryNodeId, Dict.ofPairs [("success", initialContext)])]

/-- Run only the allowed nodes below the inventory step, without writing rows. -/
def runSubgraph (canvas : Canvas) (initialContext : WorkflowContext) (inventoryNodeId : String)
    (allowedNodeIds : List String) : m (Except GraphError WalkState) :=
  match loadExecutionGraph canvas with
  | .error e => return .error e
  | .ok graph =>
    match topologicalSort runner.registry graph with
    | .error e => return .error e
    | .ok ordered => do
      let subgraphNodes := ordered.filter fun n => n.id ∈ allowedNodeIds
      let st ← walkChild runner run graph.edges initialContext
        (generations subgraphNodes graph.edges) (childStart inventoryNodeId initialContext)
      return .ok st

end Walks

section FanOut

/-- `int(value)`. -/
def pyInt : Json → Except String ℤ
  | .int n => .ok n
  | .bool b => .ok (if b then 1 else 0)
  | .str s =>
    match intOfText s.toList with
    | some n => .ok n
    | none => .error "invalid literal for int() with base 10"
  | _ => .error "int() argument must be a string or a number"

structure FanOutDispatchPlan where
  groups : List (List String)
  maxConcurrency : ℤ
  approvalEnabled : Bool
  approvalCfg : Json
  deviceIds : List String
  allDevices : Dict DeviceContext

/-- Consecutive pieces of a list, `fuel` bounding their number. -/
def chunks {α : Type} (size : ℕ) : ℕ → List α → List (List α)
  | 0, _ => []
  | fuel + 1, l => if l.isEmpty then [] else l.take size :: chunks size fuel (l.drop size)

theorem chunks_flatten {α : Type} {size : ℕ} (hs : 0 < size) {fuel : ℕ} {l : List α}
    (hf : l.length ≤ fuel) : (chunks size fuel l).flatten = l := by
  induction fuel generalizing l with
  | zero =>
    obtain rfl : l = [] := List.length_eq_zero_iff.mp (by omega)
    rfl
  | succ fuel ih =>
    unfold chunks
    split
    · rename_i h
      rw [List.isEmpty_iff.mp h]
      rfl
    · have hlen : (l.drop size).length ≤ fuel := by
        rw [List.length_drop]
        omega
      rw [List.flatten_cons, ih hlen, List.take_append_drop]

/-- Split the devices of the inventory step into groups. -/
def parseFanOutDispatch (signal : FanOutSignal) : Except String FanOutDispatchPlan := do
  let mode := (signal.fanOutConfig.get? "mode").getD (.str "per_device")
  let chunkSize ← pyInt ((signal.fanOutConfig.get? "chunk_size").getD (.int 1))
  let maxConcurrency ← pyInt ((signal.fanOutConfig.get? "max_concurrency").getD (.int 0))
  let approval := (signal.fanOutConfig.get? "approval").getD .null
  let deviceIds := signal.inventoryOutcome.devices.keys
  let groups :=
    if Json.pyEq mode (.str "chunked") then
      chunks (max 1 chunkSize).toNat deviceIds.length deviceIds
    else deviceIds.map fun id => [id]
  return {
    groups, deviceIds
    maxConcurrency := max 0 maxConcurrency
    approvalEnabled := (approval.get? "enabled").any Json.truthy
    approvalCfg := approval
    allDevices := signal.inventoryOutcome.devices }

theorem groups_flatten {signal : FanOutSignal} {plan : FanOutDispatchPlan}
    (h : parseFanOutDispatch signal = .ok plan) :
    plan.groups.flatten = signal.inventoryOutcome.devices.keys := by
  simp only [parseFanOutDispatch, bind_eq_ok] at h
  obtain ⟨size, _, _, _, hp⟩ := h
  cases hp
  dsimp only
  split
  · exact chunks_flatten (by omega) le_rfl
  · rw [← List.flatMap_def, List.flatMap_singleton']

/-- The envelope a child starts from: the inventory step's, with the devices of one group. -/
def groupContext (signal : FanOutSignal) (group : List String) : WorkflowContext :=
  { signal.inventoryOutcome with
    devices := signal.inventoryOutcome.devices.restrict fun id => id ∈ group }

section Scrub

variable (secrets : List String)

def ArtifactRef.scrub (ref : ArtifactRef) : ArtifactRef :=
  { ref with
    artifactId := scrubString ref.artifactId secrets
    kind := scrubString ref.kind secrets
    mediaType := scrubString ref.mediaType secrets
    sha256 := ref.sha256.map fun text => scrubString text secrets
    createdAt := scrubString ref.createdAt secrets }

def CommandResult.scrub (result : CommandResult) : CommandResult :=
  { result with
    nodeId := scrubString result.nodeId secrets
    command := scrubString result.command secrets
    executedAt := scrubString result.executedAt secrets
    outputRef := result.outputRef.map fun ref => ref.scrub secrets
    summary := result.summary.map fun text => scrubString text secrets }

def RequestRecord.scrub (record : RequestRecord) : RequestRecord :=
  { record with
    target := scrubString record.target secrets
    method := scrubString record.method secrets
    endpoint := scrubString record.endpoint secrets
    request := scrubKnownValues secrets record.request
    response := scrubKnownValues secrets record.response
    sentAt := scrubString record.sentAt secrets }

def DeviceError.scrub (error : DeviceError) : DeviceError where
  nodeId := scrubString error.nodeId secrets
  stepId := scrubString error.stepId secrets
  code := scrubString error.code secrets
  message := scrubString error.message secrets

/-- The name of a status or of a capability is not accepted any more once it is masked. -/
def DeviceContext.scrub (device : DeviceContext) : Except String DeviceContext :=
  let scrub := fun text => scrubString text secrets
  if scrub device.status.value ≠ device.status.value ∨
      ∃ c ∈ device.capabilities, scrub c.value ≠ c.value then .error "validation error"
  else .ok { device with
    id := scrub device.id
    name := scrub device.name
    hostname := scrub device.hostname
    platform := device.platform.map scrub
    networkDriver := device.networkDriver.map scrub
    primaryIp4 := device.primaryIp4.map scrub
    source := scrub device.source
    sourceId := scrub device.sourceId
    attributeBags := device.attributeBags.mapValues (Dict.mapValues (scrubKnownValues secrets))
    runningConfigRef := device.runningConfigRef.map (ArtifactRef.scrub secrets)
    startupConfigRef := device.startupConfigRef.map (ArtifactRef.scrub secrets)
    parsed := device.parsed.mapValues (scrubKnownValues secrets)
    commandResults := device.commandResults.mapValues (List.map (CommandResult.scrub secrets))
    dryRunResults := device.dryRunResults.mapValues (scrubKnownValues secrets)
    requests := device.requests.mapValues (List.map (RequestRecord.scrub secrets))
    errors := device.errors.map (DeviceError.scrub secrets) }

def WorkflowContext.scrub (ctx : WorkflowContext) : Except String WorkflowContext := do
  let scrub := fun text => scrubString text secrets
  let devices ← ctx.devices.traverse fun _ device => device.scrub secrets
  return { ctx with
    runId := scrub ctx.runId
    workflowId := scrub ctx.workflowId
    devices
    pendingCommands := ctx.pendingCommands.mapValues (Dict.mapValues (List.map scrub))
    metadata := ctx.metadata.mapValues (scrubKnownValues secrets) }

end Scrub

/-- `scrub_known_secrets` on the dump of an envelope, and the envelope the parent reads from it. -/
def scrubKnownSecrets (known : List String) (ctx : WorkflowContext) :
    Except String WorkflowContext :=
  if known.isEmpty then .ok ctx
  else ctx.scrub (known.insertionSort fun a b => b.length ≤ a.length)

/-- What a child returns of its outcomes, as the parent reads it; the inventory step's are left
out. -/
def deviceGroupResult (known : List String) (startNodeId : String) (outcomes : StepOutcomes) :
    Except String StepOutcomes :=
  (outcomes.restrict fun nodeId => nodeId ≠ startNodeId).traverse fun _ outcomes =>
    outcomes.traverse fun _ ctx => scrubKnownSecrets known ctx

/-- The contexts the children stored under a node, outcome by outcome in order of appearance. -/
def childContexts (results : List StepOutcomes) (nodeId : String) : Dict (List WorkflowContext) :=
  (results.flatMap fun so => ((so.get? nodeId).map Dict.entries).getD []).foldl
    (fun acc p => acc.insert p.1 ((acc.get? p.1).getD [] ++ [p.2])) ∅

/-- Merge the outcomes of the child branch, node by node and outcome by outcome; a node without
outcomes is left out. -/
def mergeChildOutcomes (signal : FanOutSignal) (graph : Canvas) (results : List StepOutcomes) :
    Except String StepOutcomes :=
  let childIds := childNodeIds signal.inventoryNodeId signal.joinNodeId graph.nodes graph.edges
  let perNode := Dict.ofPairs (childIds.map fun nodeId => (nodeId, childContexts results nodeId))
  (perNode.restrict fun nodeId => !(childContexts results nodeId).isEmpty).traverse
    fun nodeId outcomes => outcomes.traverse fun _ contexts =>
      mergeFanOutContexts (some nodeId) contexts

end FanOut

end Manus
