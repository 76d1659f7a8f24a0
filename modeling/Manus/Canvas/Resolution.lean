import Manus.Canvas.Graph

/-! # The graph the engine walks

Funnels and disabled steps are spliced out of the stored canvas, the part below
a stop-here step is cut off, and canvas decorations are dropped before the rest
is ordered.
-/

namespace Manus

/-- A property a device acquires from one step and another step may need. -/
inductive Capability where
  | identity
  | attributes
  | runningConfig
  | startupConfig
  | parsed
  | pendingCommands
  | pyatsTestbed
  | nautobotJob
  deriving DecidableEq, Repr

/-- The name of a capability in the registry. -/
def Capability.value : Capability → String
  | identity => "identity"
  | attributes => "attributes"
  | runningConfig => "running_config"
  | startupConfig => "startup_config"
  | parsed => "parsed"
  | pendingCommands => "pending_commands"
  | pyatsTestbed => "pyats_testbed"
  | nautobotJob => "nautobot_job"

/-- What the registry declares about a step. -/
structure PluginDefinition where
  id : String
  name : String := ""
  enabled : Bool := true
  executable : Bool := true
  requires : List Capability := []
  produces : List Capability := []
  consumes : List Capability := []
  requiresParsed : List String := []
  producesParsed : List String := []
  outcomes : List String := []

/-- The kinds that are drawn on the canvas and never run. -/
def canvasOnlyKinds : List String := ["label", "background", "funnel", "step-group"]

/-- The step registry. Ids are unique, every listed step is enabled, the steps that are not
executable are the canvas-only kinds, and no step has the name of a missing kind. -/
structure PluginRegistry where
  plugins : List PluginDefinition
  unique : (plugins.map PluginDefinition.id).Nodup
  allEnabled : ∀ p ∈ plugins, p.enabled = true
  executable_iff : ∀ p ∈ plugins, p.executable = false ↔ p.id ∈ canvasOnlyKinds
  declared : ∀ k ∈ canvasOnlyKinds, k ∈ plugins.map PluginDefinition.id
  named : "unknown" ∉ plugins.map PluginDefinition.id

/-- The enabled step of a kind. -/
def PluginRegistry.getPlugin (registry : PluginRegistry) (pluginId : String) :
    Option PluginDefinition :=
  registry.plugins.find? fun p => p.id == pluginId && p.enabled

/-- Python `repr` of a string without quotes in it. -/
def pyRepr (s : String) : String := "'" ++ s ++ "'"

/-- Structural kinds ignore the author's disabled flag. -/
def structuralKinds : List String := ["fan-in"]

def isAuthorDisabled (node : CanvasNode) : Bool :=
  node.data.disabled && !structuralKinds.any fun k => node.data.kind == some k

section Disabled

/-- The enabled nodes beyond a disabled one, each with the handle its edge enters by. A branching
disabled step passes only its success edges on; disabled steps already seen are not entered
again, so the depth never exceeds their number. -/
def enabledTargetsBeyond (disabledIds : List String) (edges : List CanvasEdge) :
    ℕ → String → List String → List (String × Option String)
  | 0, _, _ => []
  | fuel + 1, disabledId, seen =>
    let outEdges := edges.filter fun e => e.source == disabledId
    let outEdges :=
      if 1 < outEdges.length then outEdges.filter fun e => e.outcomeName == "success"
      else outEdges
    outEdges.flatMap fun e =>
      if e.target = "" then []
      else if e.target ∈ disabledIds then
        if e.target ∈ seen then []
        else enabledTargetsBeyond disabledIds edges fuel e.target (e.target :: seen)
      else [(e.target, e.targetHandle)]

/-- Keep an edge unless the same wire is there already. -/
def keepWire (kept : List CanvasEdge) (e : CanvasEdge) : List CanvasEdge :=
  if e ∈ kept then kept else kept ++ [e]

/-- Splice every disabled step out of the graph. -/
def resolveDisabledSteps (nodes : List CanvasNode) (edges : List CanvasEdge) :
    List CanvasNode × List CanvasEdge :=
  let disabledIds := (nodes.filter isAuthorDisabled).map CanvasNode.id
  if disabledIds.isEmpty then (nodes, edges)
  else
    let rewired := edges.flatMap fun e =>
      if e.source ∈ disabledIds then []
      else if e.target ∉ disabledIds then [e]
      else (enabledTargetsBeyond disabledIds edges disabledIds.length e.target [e.target]).map
        fun far => { e with target := far.1, targetHandle := far.2 }
    (nodes.filter fun n => n.id ∉ disabledIds, rewired.foldl keepWire [])

end Disabled

/-- The only outgoing edge of a funnel, or the reason why the funnel is malformed. -/
def funnelExit (funnelIds : List String) (edges : List CanvasEdge) (funnelId : String) :
    Except GraphError (String × CanvasEdge) :=
  match edges.filter fun e => e.source == funnelId with
  | [e] =>
    if e.target ∈ funnelIds then
      .error (.funnel ("Funnel node " ++ pyRepr funnelId ++ " feeds into another funnel " ++
        pyRepr e.target ++ " — chaining funnels is not supported"))
    else .ok (funnelId, e)
  | outgoing =>
    .error (.funnel ("Funnel node " ++ pyRepr funnelId ++ " must have exactly one outgoing " ++
      "connection (found " ++ toString outgoing.length ++ ")"))

/-- Splice funnels out: an edge into a funnel goes straight to the funnel's one target and keeps
its outcome handle. -/
def resolveFunnels (nodes : List CanvasNode) (edges : List CanvasEdge) :
    Except GraphError (List CanvasNode × List CanvasEdge) :=
  let funnelIds := (nodes.filter fun n => n.data.kind == some "funnel").map CanvasNode.id
  if funnelIds.isEmpty then .ok (nodes, edges)
  else do
    let exits ← funnelIds.mapM (funnelExit funnelIds edges)
    let kept := edges.filter fun e => e.source ∉ funnelIds && e.target ∉ funnelIds
    let rewired := edges.filterMap fun e =>
      (exits.lookup e.target).map fun exit =>
        { e with target := exit.target, targetHandle := exit.targetHandle }
    return (nodes.filter fun n => n.id ∉ funnelIds, kept ++ rewired)

/-- Cut the graph below every stop-here node; the node itself stays. -/
def resolveStopHere (nodes : List CanvasNode) (edges : List CanvasEdge) :
    List CanvasNode × List CanvasEdge :=
  let stopIds := (nodes.filter fun n => n.data.kind == some "stop-here").map CanvasNode.id
  if stopIds.isEmpty then (nodes, edges)
  else
    let truncated := stopIds.flatMap fun s => downstreamNodeIds s nodes edges
    (nodes.filter fun n => n.id ∉ truncated,
      edges.filter fun e => e.source ∉ truncated && e.target ∉ truncated)

/-- The stored canvas with funnels, disabled steps and stop-here resolved, in this order. -/
def loadExecutionGraph (canvas : Canvas) : Except GraphError Canvas := do
  let (nodes, edges) ← resolveFunnels canvas.nodes canvas.edges
  let (nodes, edges) := resolveDisabledSteps nodes edges
  let (nodes, edges) := resolveStopHere nodes edges
  return ⟨nodes, edges⟩

/-- Decorations and disabled steps do not run; a kind the registry does not know does. -/
def isExecutableNode (registry : PluginRegistry) (node : CanvasNode) : Bool :=
  if isAuthorDisabled node then false
  else
    let kind := node.data.kind.getD ""
    if kind = "" then true
    else match registry.getPlugin kind with
      | none => true
      | some plugin => plugin.executable

/-- The executable nodes and the edges between them. -/
def filterExecutableGraph (registry : PluginRegistry) (graph : Canvas) : Canvas :=
  let executable := graph.nodes.filter (isExecutableNode registry)
  ⟨executable, liveEdges (executable.map CanvasNode.id) graph.edges⟩

/-- The execution plan: executable nodes in dependency order. -/
def topologicalSort (registry : PluginRegistry) (graph : Canvas) :
    Except GraphError (List CanvasNode) :=
  let executable := filterExecutableGraph registry graph
  topologicalOrder executable.nodes executable.edges

section Facts

variable {registry : PluginRegistry} {nodes : List CanvasNode} {edges : List CanvasEdge}

theorem PluginRegistry.getPlugin_mem {kind : String} {p : PluginDefinition}
    (h : registry.getPlugin kind = some p) : p ∈ registry.plugins ∧ p.id = kind := by
  have hp := List.find?_some h
  simp only [Bool.and_eq_true, beq_iff_eq] at hp
  exact ⟨List.mem_of_find?_eq_some h, hp.1⟩

theorem PluginRegistry.getPlugin_isSome {p : PluginDefinition} (h : p ∈ registry.plugins) :
    (registry.getPlugin p.id).isSome := by
  rw [PluginRegistry.getPlugin, List.find?_isSome]
  exact ⟨p, h, by simp [registry.allEnabled p h]⟩

theorem resolveDisabledSteps_enabled :
    ∀ n ∈ (resolveDisabledSteps nodes edges).1, isAuthorDisabled n = false := by
  intro n hn
  by_contra hd
  rw [Bool.not_eq_false] at hd
  have hmem : n ∈ nodes → n.id ∈ (nodes.filter isAuthorDisabled).map CanvasNode.id :=
    fun hm => List.mem_map_of_mem (List.mem_filter.mpr ⟨hm, hd⟩)
  simp only [resolveDisabledSteps] at hn
  split at hn
  · rename_i hempty
    have hm := hmem hn
    rw [List.isEmpty_iff.mp hempty] at hm
    cases hm
  · obtain ⟨hm, hnot⟩ := List.mem_filter.mp hn
    exact of_decide_eq_true hnot (hmem hm)

theorem resolveStopHere_subset : ∀ n ∈ (resolveStopHere nodes edges).1, n ∈ nodes := by
  intro n hn
  simp only [resolveStopHere] at hn
  split at hn
  · exact hn
  · exact (List.mem_filter.mp hn).1

theorem loadExecutionGraph_enabled {canvas graph : Canvas}
    (h : loadExecutionGraph canvas = .ok graph) :
    ∀ n ∈ graph.nodes, isAuthorDisabled n = false := by
  intro n hn
  unfold loadExecutionGraph at h
  cases hf : resolveFunnels canvas.nodes canvas.edges with
  | error e => rw [hf] at h; cases h
  | ok r =>
    rw [hf] at h
    cases h
    exact resolveDisabledSteps_enabled n (resolveStopHere_subset n hn)

theorem topologicalSort_spec {graph : Canvas} {ordered : List CanvasNode}
    (h : topologicalSort registry graph = .ok ordered) :
    Sorted ordered graph.edges ∧
      (∀ x, x ∈ ordered.map CanvasNode.id ↔
        ∃ n ∈ graph.nodes, isExecutableNode registry n = true ∧ n.id = x) ∧
      ∀ n ∈ ordered, n ∈ graph.nodes ∧ isExecutableNode registry n = true := by
  obtain ⟨hs, hmem, hget⟩ := topologicalOrder_spec h
  have hids : ∀ x, x ∈ ordered.map CanvasNode.id ↔
      ∃ n ∈ graph.nodes, isExecutableNode registry n = true ∧ n.id = x := by
    intro x
    rw [hmem, mem_nodeMap_keys]
    simp [filterExecutableGraph, and_assoc]
  refine ⟨⟨hs.nodup, hs.order.mono fun v _ p hp => ?_⟩, hids, fun n hn => ?_⟩
  · -- an edge between ordered nodes survives the filter
    refine hp.mono (fun x hx => hx) fun e he hsrc htgt => mem_liveEdges.mpr ⟨he, ?_, ?_⟩
    · obtain ⟨m, hm, hx, hid⟩ := (hids _).mp hsrc
      exact hid ▸ List.mem_map_of_mem (List.mem_filter.mpr ⟨hm, hx⟩)
    · obtain ⟨m, hm, hx, hid⟩ := (hids _).mp htgt
      exact hid ▸ List.mem_map_of_mem (List.mem_filter.mpr ⟨hm, hx⟩)
  · exact List.mem_filter.mp (nodeMap_get?_mem (hget n hn)).1

end Facts

end Manus
