import Manus.Runner.Phases

/-! # Capability-flow validation

The save-time walk over the resolved graph that computes, for every outcome of
every step, what each device that leaves by it is sure to carry, and reports the
steps that require more.
-/

namespace Manus

structure ValidationFinding where
  nodeId : Option String
  tier : ℕ
  severity : String
  code : String
  message : String
  deriving DecidableEq, Repr

/-- What every device at some point of the graph carries. -/
structure CapabilityState where
  capabilities : Finset Capability
  parsedKeys : Finset String
  deriving DecidableEq

def emptyCapabilityState : CapabilityState := ⟨∅, ∅⟩

def isFailureClassOutcome (name : String) : Bool :=
  ["failure", "fail", "error"].any fun word => spells word name

/-- What survives a join: only what every incoming branch guarantees. -/
def intersectCapabilityStates : List CapabilityState → CapabilityState
  | [] => emptyCapabilityState
  | first :: rest => rest.foldl (fun acc s =>
      ⟨acc.capabilities ∩ s.capabilities, acc.parsedKeys ∩ s.parsedKeys⟩) first

/-- The guarantees on the outgoing edges found so far, by node and outcome handle. -/
abbrev OutcomeState := String → String → Option CapabilityState

section Flow

variable (registry : PluginRegistry) (edges : List CanvasEdge)

/-- `self._plugins_by_id.get(kind)`. -/
def pluginById (kind : Option String) : Option PluginDefinition :=
  kind.bind fun k => registry.plugins.find? fun p => p.id == k

/-- The validator's own test for executable nodes. -/
def validatorExecutable (node : CanvasNode) : Bool :=
  let kind := node.data.kind.getD ""
  if kind = "" then true
  else match pluginById registry (some kind) with
    | none => true
    | some plugin => plugin.executable

def inputState (flow : OutcomeState) (nodeId : String) : CapabilityState :=
  intersectCapabilityStates <| (edges.filter fun e => e.target == nodeId).map fun e =>
    (flow e.source e.outcomeName).getD emptyCapabilityState

def successState (plugin : PluginDefinition) (config : Dict Json) (input : CapabilityState) :
    CapabilityState :=
  let spec := capabilitySpecFromPlugin plugin
  ⟨(input.capabilities \ spec.consumes.toFinset) ∪
      (effectiveProduces spec plugin.id config).toFinset,
    input.parsedKeys ∪ plugin.producesParsed.toFinset⟩

/-- The outcome handles of a step: those it declares and those the canvas uses. -/
def handleNames (plugin : PluginDefinition) (nodeId : String) : List String :=
  match plugin.outcomes ++ (edges.filter fun e => e.source == nodeId).map
      CanvasEdge.outcomeName with
  | [] => ["success"]
  | names => names

/-- Python `repr` of a sorted list of strings. -/
def sortedRepr (names : List String) : String :=
  "[" ++ ", ".intercalate ((names.insertionSort (· ≤ ·)).map pyRepr) ++ "]"

/-- The findings on one step, given what reaches it. -/
def nodeFindings (plugin : PluginDefinition) (nodeId : String) (input : CapabilityState) :
    List ValidationFinding :=
  let missing := plugin.requires.filter (· ∉ input.capabilities)
  let missingParsed := plugin.requiresParsed.filter (· ∉ input.parsedKeys)
  (if missing.isEmpty then [] else [{
    nodeId := some nodeId, tier := 3, severity := "error", code := "missing_capability"
    message := "Step '" ++ plugin.name ++ "' requires " ++
      sortedRepr (missing.dedup.map Capability.value) ++
      ", but no upstream step on every path reaching it guarantees that." }]) ++
  (if missingParsed.isEmpty then [] else [{
    nodeId := some nodeId, tier := 3, severity := "error", code := "missing_parsed_key"
    message := "Step '" ++ plugin.name ++ "' requires parsed key(s) " ++
      sortedRepr missingParsed.dedup ++
      ", but no upstream step on every path reaching it guarantees producing them." }])

/-- Visit one node: report what it misses and fill in the states of its outcomes. A step of an
unknown kind is passed over. -/
def visitNode (acc : OutcomeState × List ValidationFinding) (node : CanvasNode) :
    OutcomeState × List ValidationFinding :=
  match pluginById registry node.data.kind with
  | none => acc
  | some plugin =>
    let input := inputState edges acc.1 node.id
    let success := successState plugin node.data.pluginConfig input
    let names := handleNames edges plugin node.id
    (fun nodeId handle =>
      if nodeId = node.id ∧ handle ∈ names then
        some (if isFailureClassOutcome handle then input else success)
      else acc.1 nodeId handle,
      acc.2 ++ nodeFindings plugin node.id input)

end Flow

/-- The nodes and edges the validator walks. -/
def validatorGraph (registry : PluginRegistry) (graph : Canvas) : Canvas :=
  let executable := graph.nodes.filter (validatorExecutable registry)
  ⟨executable, liveEdges (executable.map CanvasNode.id) graph.edges⟩

/-- The findings of the capability-flow walk over a stored canvas. -/
def tier3CapabilityFlow (registry : PluginRegistry) (canvas : Canvas) : List ValidationFinding :=
  match loadExecutionGraph canvas with
  | .error e => [{
      nodeId := none, tier := 3, severity := "error", code := "graph_resolution_failed"
      message := e.message }]
  | .ok graph =>
    let executable := validatorGraph registry graph
    match topologicalOrder executable.nodes executable.edges with
    | .error _ => [{
        nodeId := none, tier := 3, severity := "error", code := "graph_cycle"
        message := "Workflow graph contains a cycle — capability-flow validation skipped." }]
    | .ok order => (order.foldl (visitNode registry executable.edges) (fun _ _ => none, [])).2

end Manus
