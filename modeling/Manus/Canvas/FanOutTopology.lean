import Manus.Canvas.Resolution

/-! # Fan-out topology

A run with fan-out executes its canvas in three phases: the waves up to the
inventory step, the child branch once per device group, and the part from the
fan-in node on. The save-time rules R1 to R3 are meant to make these phases
cover every step exactly once.
-/

namespace Manus

structure FanOutViolation where
  rule : String
  nodeId : String
  message : String
  deriving DecidableEq, Repr

/-- `pluginConfig.fan_out.enabled` of a node. -/
def fanOutEnabled (node : CanvasNode) : Bool :=
  ((node.data.pluginConfig.get? "fan_out").bind (Json.get? "enabled")).any Json.truthy

def enabledFanOutIds (nodes : List CanvasNode) : List String :=
  (nodes.filter fanOutEnabled).map CanvasNode.id

def isCanvasOnly (node : CanvasNode) : Bool :=
  canvasOnlyKinds.any fun k => node.data.kind == some k

/-- The number of the wave a node is in. -/
def depthOf (waves : List (List CanvasNode)) (nodeId : String) : ℕ :=
  (waves.findIdx? fun wave => wave.any fun n => n.id == nodeId).getD 0

/-- The id with the smallest depth, the first one of several. -/
def shallowest (depth : String → ℕ) (first : String) (rest : List String) : String :=
  rest.foldl (fun best id => if depth id < depth best then id else best) first

def violationR3 (inventory extra : String) : FanOutViolation :=
  ⟨"R3", extra, "Only one step may have fan-out enabled (also enabled on " ++
    pyRepr inventory ++ ")."⟩

def violationR1 (inventory nodeId : String) : FanOutViolation :=
  ⟨"R1", nodeId, "Step " ++ pyRepr nodeId ++ " is not connected to the fan-out step " ++
    pyRepr inventory ++ " but would only run after it, so it would never execute. " ++
    "Connect it below the fan-out step, move it before it, or turn fan-out off."⟩

def violationR2 (inventory source target : String) : FanOutViolation :=
  ⟨"R2", target, "Step " ++ pyRepr target ++ " below the fan-out step " ++ pyRepr inventory ++
    " also receives input from " ++ pyRepr source ++ ", which is outside the fan-out branch; " ++
    "branches only receive the fan-out step's devices. Connect it through the fan-out step " ++
    "or remove the edge."⟩

/-- The violations of R3, R1 and R2 on an executable graph in which `first :: rest` fan out. -/
def fanOutViolations (executable : Canvas) (waves : List (List CanvasNode)) (first : String)
    (rest : List String) : List FanOutViolation :=
  let depth := depthOf waves
  let inventory := shallowest depth first rest
  let region := downstreamNodeIds inventory executable.nodes executable.edges
  let outside := ((executable.nodes.map CanvasNode.id).filter fun id =>
    id ∉ region && id != inventory).insertionSort (· ≤ ·)
  ((first :: rest).filter (· != inventory)).map (violationR3 inventory) ++
  (outside.filter fun id => depth inventory < depth id).map (violationR1 inventory) ++
  (executable.edges.filter fun e =>
    e.target ∈ region && e.source ∉ region && e.source != inventory).map
      fun e => violationR2 inventory e.source e.target

/-- The violations on the graph the engine walks. A canvas that cannot be resolved or ordered has
none: other validators report those. -/
def validateFanOutTopology (canvas : Canvas) : List FanOutViolation :=
  match loadExecutionGraph canvas with
  | .error _ => []
  | .ok graph =>
    let nodes := graph.nodes.filter fun n => !isCanvasOnly n
    let executable : Canvas := ⟨nodes, liveEdges (nodes.map CanvasNode.id) graph.edges⟩
    match topologicalOrder executable.nodes executable.edges with
    | .error _ => []
    | .ok ordered =>
      match enabledFanOutIds executable.nodes with
      | [] => []
      | first :: rest =>
        fanOutViolations executable
          ((topologicalGenerations ordered executable.edges).getD []) first rest

/-- The enabled fan-out steps of a stored canvas. -/
def fanOutSteps (registry : PluginRegistry) (canvas : Canvas) : List String :=
  match loadExecutionGraph canvas with
  | .error _ => []
  | .ok graph => enabledFanOutIds (filterExecutableGraph registry graph).nodes

/-- The nodes `execute_all` walks before it hands over to the fan-out: the waves up to and
including the one of the inventory step. -/
def phaseOneIds (waves : List (List CanvasNode)) (inventory : String) : List String :=
  (waves.take (depthOf waves inventory + 1)).flatten.map CanvasNode.id

/-- The nodes the parent runs after the children: the fan-in node and everything below it. -/
def postJoinIds (join : Option String) (graph : Canvas) : List String :=
  match join with
  | none => []
  | some j => j :: downstreamNodeIds j graph.nodes graph.edges

def ExactlyOne (p q r : Prop) : Prop :=
  (p ∧ ¬ q ∧ ¬ r) ∨ (¬ p ∧ q ∧ ¬ r) ∨ (¬ p ∧ ¬ q ∧ r)

/-- Every executable node is executed in exactly one phase of a run that fans out at
`inventory`. -/
def PhasesPartition (registry : PluginRegistry) (canvas : Canvas) (inventory : String) : Prop :=
  ∃ graph ordered waves, loadExecutionGraph canvas = .ok graph ∧
    topologicalSort registry graph = .ok ordered ∧
    topologicalGenerations ordered graph.edges = some waves ∧
    ∀ n ∈ graph.nodes, isExecutableNode registry n = true →
      let join := findJoinNodeId inventory graph.nodes graph.edges
      ExactlyOne (n.id ∈ phaseOneIds waves inventory)
        (n.id ∈ childNodeIds inventory join graph.nodes graph.edges)
        (n.id ∈ postJoinIds join graph)

/-- The canvas can be ordered, and every step below the inventory step is connected to it through
steps only, not just through canvas decorations. -/
def BranchThroughSteps (registry : PluginRegistry) (canvas : Canvas) (inventory : String) : Prop :=
  ∃ graph ordered, loadExecutionGraph canvas = .ok graph ∧
    topologicalSort registry graph = .ok ordered ∧
    ∀ n ∈ graph.nodes, isExecutableNode registry n = true →
      n.id ∈ downstreamNodeIds inventory graph.nodes graph.edges →
      n.id ∈ downstreamNodeIds inventory (filterExecutableGraph registry graph).nodes
        (filterExecutableGraph registry graph).edges

section Facts

variable {registry : PluginRegistry} {canvas graph : Canvas} {inventory : String}
  {ordered : List CanvasNode} {waves : List (List CanvasNode)} {depth : String → Option ℕ}

/-- The validator's list of canvas-only kinds and the registry agree on which nodes run. -/
theorem isExecutableNode_eq {n : CanvasNode} (h : isAuthorDisabled n = false) :
    isExecutableNode registry n = !isCanvasOnly n := by
  have hnames : "" ∉ canvasOnlyKinds := by decide
  have hco : ∀ k, n.data.kind = some k → (isCanvasOnly n = true ↔ k ∈ canvasOnlyKinds) := by
    intro k hk
    simp [isCanvasOnly, hk]
  rw [isExecutableNode, if_neg (by simp [h])]
  cases hk : n.data.kind with
  | none => simp [isCanvasOnly, hk]
  | some k =>
    simp only [Option.getD_some]
    by_cases hempty : k = ""
    · have hc : isCanvasOnly n = false := by
        rw [← Bool.not_eq_true, hco k hk, hempty]; exact hnames
      simp [hempty, hc]
    · rw [if_neg hempty]
      cases hp : registry.getPlugin k with
      | none =>
        have hc : isCanvasOnly n = false := by
          rw [← Bool.not_eq_true, hco k hk]
          intro hmem
          obtain ⟨p, hpm, rfl⟩ := List.mem_map.mp (registry.declared k hmem)
          have := PluginRegistry.getPlugin_isSome hpm
          rw [hp] at this
          cases this
        simp [hc]
      | some p =>
        obtain ⟨hpm, rfl⟩ := PluginRegistry.getPlugin_mem hp
        have hiff := registry.executable_iff p hpm
        rw [← hco _ hk] at hiff
        cases hx : p.executable <;> simp [hx] at hiff ⊢ <;> simp [hiff]

theorem validator_nodes_eq (registry : PluginRegistry) (h : loadExecutionGraph canvas = .ok graph) :
    graph.nodes.filter (fun n => !isCanvasOnly n) = (filterExecutableGraph registry graph).nodes :=
  List.filter_congr fun n hn =>
    (isExecutableNode_eq (loadExecutionGraph_enabled h n hn)).symm

theorem Waves.depthOf_eq (h : Waves ordered graph.edges waves depth) {x : String} {d : ℕ}
    (hx : depth x = some d) : depthOf waves x = d := by
  obtain ⟨n, hn, rfl⟩ := List.mem_map.mp ((h.dom x).mp (by simp [hx]))
  have hmem : n ∈ waves.getD d [] := (h.mem n d).mpr ⟨hn, hx⟩
  have hd := h.bound _ _ hx
  rw [List.getD_eq_getElem _ _ hd] at hmem
  have hidx : waves.findIdx? (fun wave => wave.any fun m => m.id == n.id) = some d := by
    rw [List.findIdx?_eq_some_iff_getElem]
    refine ⟨hd, List.any_eq_true.mpr ⟨n, hmem, by simp⟩, fun j hj => ?_⟩
    simp only [Bool.not_eq_true, List.any_eq_false, beq_iff_eq]
    intro m hm hid
    have hj' : j < waves.length := by omega
    have hm' : m ∈ waves.getD j [] := by rwa [List.getD_eq_getElem _ _ hj']
    have := ((h.mem m j).mp hm').2
    rw [hid, hx, Option.some.injEq] at this
    omega
  rw [depthOf, hidx, Option.getD_some]

theorem Waves.mem_phaseOneIds (h : Waves ordered graph.edges waves depth) {x : String} {d : ℕ}
    (hx : depth x = some d) : x ∈ phaseOneIds waves inventory ↔ d ≤ depthOf waves inventory := by
  rw [phaseOneIds, List.mem_map]
  constructor
  · rintro ⟨n, hn, rfl⟩
    obtain ⟨wave, hw, hn⟩ := List.mem_flatten.mp hn
    obtain ⟨i, hi, rfl⟩ := List.mem_iff_getElem.mp hw
    rw [List.getElem_take] at hn
    have hlen : i < waves.length := by rw [List.length_take] at hi; omega
    have hn' : n ∈ waves.getD i [] := by rwa [List.getD_eq_getElem _ _ hlen]
    have := ((h.mem n i).mp hn').2
    rw [hx, Option.some.injEq] at this
    rw [List.length_take] at hi
    omega
  · intro hle
    obtain ⟨n, hn, rfl⟩ := List.mem_map.mp ((h.dom x).mp (by simp [hx]))
    have hd := h.bound _ _ hx
    have hmem : n ∈ waves.getD d [] := (h.mem n d).mpr ⟨hn, hx⟩
    rw [List.getD_eq_getElem _ _ hd] at hmem
    refine ⟨n, List.mem_flatten.mpr ⟨waves[d], ?_, hmem⟩, rfl⟩
    exact List.mem_take_iff_getElem.mpr ⟨d, by omega, rfl⟩

/-- What an accepted canvas guarantees about its fan-out step: it is the only one, the steps
outside its branch are no deeper than it, and the branch receives nothing from outside. -/
structure FanOutAccepted (executable : Canvas) (waves : List (List CanvasNode))
    (inventory : String) : Prop where
  only : ∀ x ∈ enabledFanOutIds executable.nodes, x = inventory
  outside : ∀ n ∈ executable.nodes,
    n.id ∉ downstreamNodeIds inventory executable.nodes executable.edges → n.id ≠ inventory →
    depthOf waves n.id ≤ depthOf waves inventory
  inward : ∀ e ∈ executable.edges,
    e.target ∈ downstreamNodeIds inventory executable.nodes executable.edges →
    e.source ∈ downstreamNodeIds inventory executable.nodes executable.edges ∨
      e.source = inventory

theorem fanOutViolations_nil {executable : Canvas} {first : String} {rest : List String}
    (h : fanOutViolations executable waves first rest = [])
    (hf : enabledFanOutIds executable.nodes = first :: rest) {x : String}
    (hx : x ∈ first :: rest) : FanOutAccepted executable waves x := by
  simp only [fanOutViolations, List.append_eq_nil_iff, List.map_eq_nil_iff,
    List.filter_eq_nil_iff] at h
  obtain ⟨⟨h₃, h₁⟩, h₂⟩ := h
  set inv := shallowest (depthOf waves) first rest
  have heq : ∀ y ∈ first :: rest, y = inv := fun y hy => by simpa using h₃ y hy
  obtain rfl := heq x hx
  refine ⟨fun y hy => heq y (hf ▸ hy), fun n hn hr hne => ?_, fun e he ht => ?_⟩
  · have hm : n.id ∈ ((executable.nodes.map CanvasNode.id).filter fun id =>
        id ∉ downstreamNodeIds inv executable.nodes executable.edges && id != inv).insertionSort
          (· ≤ ·) := by
      rw [List.mem_insertionSort, List.mem_filter]
      exact ⟨List.mem_map_of_mem hn, by simp [hr, hne]⟩
    have := h₁ _ hm
    simpa using this
  · by_contra hc
    obtain ⟨hs, hne⟩ := not_or.mp hc
    have := h₂ e he
    simp [ht, hs, hne] at this

theorem validateFanOutTopology_accepted (hv : validateFanOutTopology canvas = [])
    (hg : loadExecutionGraph canvas = .ok graph)
    (hs : topologicalSort registry graph = .ok ordered)
    (hw : topologicalGenerations ordered graph.edges = some waves)
    (hi : inventory ∈ fanOutSteps registry canvas) :
    FanOutAccepted (filterExecutableGraph registry graph) waves inventory := by
  simp only [fanOutSteps, hg] at hi
  have hnodes := validator_nodes_eq registry hg
  have hsub : ∀ x ∈ ordered.map CanvasNode.id,
      x ∈ (filterExecutableGraph registry graph).nodes.map CanvasNode.id := by
    intro x hx
    obtain ⟨n, hn, hxe, rfl⟩ := ((topologicalSort_spec hs).2.1 x).mp hx
    exact List.mem_map_of_mem (List.mem_filter.mpr ⟨hn, hxe⟩)
  have hgen : topologicalGenerations ordered (filterExecutableGraph registry graph).edges =
      some waves := by
    rw [← hw]
    simp only [topologicalGenerations, filterExecutableGraph] at hsub ⊢
    rw [liveEdges_liveEdges hsub]
  have hs' : topologicalOrder (filterExecutableGraph registry graph).nodes
      (liveEdges ((filterExecutableGraph registry graph).nodes.map CanvasNode.id) graph.edges) =
      .ok ordered := hs
  have hgen' : topologicalGenerations ordered (liveEdges
      ((filterExecutableGraph registry graph).nodes.map CanvasNode.id) graph.edges) =
      some waves := hgen
  simp only [validateFanOutTopology, hg, hnodes, hs', hgen', Option.getD_some] at hv
  cases hf : enabledFanOutIds (filterExecutableGraph registry graph).nodes with
  | nil => rw [hf] at hi; cases hi
  | cons first rest =>
    rw [hf] at hv hi
    exact fanOutViolations_nil hv hf hi

theorem findJoinNodeId_mem {nodes : List CanvasNode} {edges : List CanvasEdge} {j : String}
    (h : findJoinNodeId inventory nodes edges = some j) :
    j ∈ downstreamNodeIds inventory nodes edges := by
  obtain ⟨n, hn, rfl⟩ := Option.map_eq_some_iff.mp h
  have := List.find?_some hn
  simp only [Bool.and_eq_true, decide_eq_true_eq] at this
  exact this.1

theorem downstreamNodeIds_trans {nodes : List CanvasNode} {edges : List CanvasEdge}
    {x y z : String} (h : y ∈ downstreamNodeIds x nodes edges)
    (h' : z ∈ downstreamNodeIds y nodes edges) : z ∈ downstreamNodeIds x nodes edges :=
  mem_downstreamNodeIds.mpr ((mem_downstreamNodeIds.mp h).trans (mem_downstreamNodeIds.mp h'))

theorem mem_child_or_postJoin (inventory : String) (graph : Canvas) (x : String) :
    let join := findJoinNodeId inventory graph.nodes graph.edges
    (x ∈ childNodeIds inventory join graph.nodes graph.edges ↔
      x ∈ downstreamNodeIds inventory graph.nodes graph.edges ∧ x ∉ postJoinIds join graph) ∧
      (x ∈ postJoinIds join graph → x ∈ downstreamNodeIds inventory graph.nodes graph.edges) := by
  intro join
  cases hj : join with
  | none => simp [childNodeIds, postJoinIds]
  | some j =>
    have hjm := findJoinNodeId_mem hj
    refine ⟨by simp [childNodeIds, postJoinIds], fun hx => ?_⟩
    rcases List.mem_cons.mp hx with rfl | hx
    · exact hjm
    · exact downstreamNodeIds_trans hjm hx

theorem downstream_executable_subset {x : String}
    (h : x ∈ downstreamNodeIds inventory (filterExecutableGraph registry graph).nodes
      (filterExecutableGraph registry graph).edges) :
    x ∈ downstreamNodeIds inventory graph.nodes graph.edges := by
  refine mem_downstreamNodeIds.mpr <|
    Relation.TransGen.mono (fun a b hw => ?_) _ _ (mem_downstreamNodeIds.mp h)
  refine hw.mono (fun y hy => ?_) fun e he _ _ => (mem_liveEdges.mp he).1
  obtain ⟨n, hn, rfl⟩ := mem_nodeMap_keys.mp hy
  exact mem_nodeMap_keys.mpr ⟨n, (List.mem_filter.mp hn).1, rfl⟩

theorem Waves.lt_of_downstream (h : Waves ordered graph.edges waves depth)
    (hs : topologicalSort registry graph = .ok ordered) {x : String}
    (hx : x ∈ downstreamNodeIds inventory (filterExecutableGraph registry graph).nodes
      (filterExecutableGraph registry graph).edges) :
    depthOf waves inventory < depthOf waves x := by
  have hids : ∀ y ∈ (nodeMap (filterExecutableGraph registry graph).nodes).keys,
      y ∈ ordered.map CanvasNode.id := by
    intro y hy
    obtain ⟨n, hn, rfl⟩ := mem_nodeMap_keys.mp hy
    obtain ⟨hm, hxe⟩ := List.mem_filter.mp hn
    exact ((topologicalSort_spec hs).2.1 _).mpr ⟨n, hm, hxe, rfl⟩
  have hwire : ∀ a b, Wire (nodeMap (filterExecutableGraph registry graph).nodes).keys
      (filterExecutableGraph registry graph).edges a b →
      Wire (ordered.map CanvasNode.id) graph.edges a b := fun a b hw =>
    hw.mono hids fun e he _ _ => (mem_liveEdges.mp he).1
  have hpath := Relation.TransGen.mono hwire _ _ (mem_downstreamNodeIds.mp hx)
  obtain ⟨di, dx, hi, hx, hlt⟩ := h.depth_lt_of_path hpath
  rwa [h.depthOf_eq hi, h.depthOf_eq hx]

theorem fanOutSteps_mem (hg : loadExecutionGraph canvas = .ok graph)
    (hi : inventory ∈ fanOutSteps registry canvas) :
    ∃ n ∈ graph.nodes, isExecutableNode registry n = true ∧ n.id = inventory := by
  simp only [fanOutSteps, hg] at hi
  obtain ⟨n, hn, rfl⟩ := List.mem_map.mp hi
  obtain ⟨hm, hx⟩ := List.mem_filter.mp (List.mem_filter.mp hn).1
  exact ⟨n, hm, hx, rfl⟩

theorem mem_phaseOneIds_iff (hv : validateFanOutTopology canvas = [])
    (hi : inventory ∈ fanOutSteps registry canvas)
    (hg : loadExecutionGraph canvas = .ok graph)
    (hs : topologicalSort registry graph = .ok ordered)
    (hw : topologicalGenerations ordered graph.edges = some waves) {n : CanvasNode}
    (hn : n ∈ graph.nodes) (hx : isExecutableNode registry n = true) :
    n.id ∈ phaseOneIds waves inventory ↔
      n.id ∉ downstreamNodeIds inventory (filterExecutableGraph registry graph).nodes
        (filterExecutableGraph registry graph).edges := by
  obtain ⟨hsort, hids, -⟩ := topologicalSort_spec hs
  obtain ⟨waves', depth, hw', hwaves⟩ := topologicalGenerations_spec hsort
  obtain rfl : waves' = waves := by rw [hw] at hw'; exact (Option.some.inj hw').symm
  obtain ⟨d, hd⟩ := Option.isSome_iff_exists.mp
    ((hwaves.dom n.id).mpr ((hids n.id).mpr ⟨n, hn, hx, rfl⟩))
  rw [hwaves.mem_phaseOneIds hd, ← hwaves.depthOf_eq hd]
  constructor
  · intro hle hdown
    have := hwaves.lt_of_downstream hs hdown
    omega
  · intro hdown
    by_cases hne : n.id = inventory
    · rw [hne]
    · exact (validateFanOutTopology_accepted hv hg hs hw hi).outside n
        (List.mem_filter.mpr ⟨hn, hx⟩) hdown hne

/-- On a canvas the validator accepts, the three phases of a run with fan-out cover every step
exactly once if and only if no step hangs below the inventory step by decorations alone. -/
theorem phasesPartition_iff_branchThroughSteps (hv : validateFanOutTopology canvas = [])
    (hi : inventory ∈ fanOutSteps registry canvas) :
    PhasesPartition registry canvas inventory ↔ BranchThroughSteps registry canvas inventory := by
  constructor
  · rintro ⟨graph, ordered, waves, hg, hs, hw, hpart⟩
    refine ⟨graph, ordered, hg, hs, fun n hn hx hdown => ?_⟩
    by_contra hnot
    have hone := (mem_phaseOneIds_iff hv hi hg hs hw hn hx).mpr hnot
    obtain ⟨hchild, -⟩ := mem_child_or_postJoin inventory graph n.id
    rcases hpart n hn hx with ⟨-, hc, hp⟩ | ⟨h₁, -, -⟩ | ⟨h₁, -, -⟩
    · exact hc (hchild.mpr ⟨hdown, hp⟩)
    · exact h₁ hone
    · exact h₁ hone
  · rintro ⟨graph, ordered, hg, hs, hthrough⟩
    obtain ⟨waves, -, hw, -⟩ := topologicalGenerations_spec (topologicalSort_spec hs).1
    refine ⟨graph, ordered, waves, hg, hs, hw, fun n hn hx => ?_⟩
    have hone := mem_phaseOneIds_iff hv hi hg hs hw hn hx
    obtain ⟨hchild, hpost⟩ := mem_child_or_postJoin inventory graph n.id
    by_cases hdown : n.id ∈ downstreamNodeIds inventory graph.nodes graph.edges
    · have hnot : n.id ∉ phaseOneIds waves inventory := fun h =>
        hone.mp h (hthrough n hn hx hdown)
      by_cases hp : n.id ∈ postJoinIds (findJoinNodeId inventory graph.nodes graph.edges) graph
      · exact .inr (.inr ⟨hnot, fun hc => (hchild.mp hc).2 hp, hp⟩)
      · exact .inr (.inl ⟨hnot, hchild.mpr ⟨hdown, hp⟩, hp⟩)
    · exact .inl ⟨hone.mpr fun h => hdown (downstream_executable_subset h),
        fun hc => hdown (hchild.mp hc).1, fun hp => hdown (hpost hp)⟩

end Facts

section Examples

def smallRegistry : PluginRegistry where
  plugins := [
    { id := "label", executable := false }, { id := "background", executable := false },
    { id := "funnel", executable := false }, { id := "step-group", executable := false },
    { id := "get-from-list", produces := [.identity], outcomes := ["success"] },
    { id := "run-command", requires := [.identity], produces := [.parsed],
      outcomes := ["success", "failure"] },
    { id := "fan-in", requires := [.identity], outcomes := ["success"] }]
  unique := by decide
  allEnabled := by decide
  executable_iff := by decide
  declared := by decide
  named := by decide

def fanOutConfig : Dict Json :=
  Dict.ofPairs [("fan_out", .obj [("enabled", .bool true), ("mode", .str "per_device")])]

/-- A fan-out step, a label it is wired to, and a step behind the label. -/
def labelBridge : Canvas where
  nodes := [⟨"I", { kind := some "get-from-list", pluginConfig := fanOutConfig }⟩,
    ⟨"L", { kind := some "label" }⟩, ⟨"X", { kind := some "run-command" }⟩]
  edges := [{ source := "I", target := "L" }, { source := "L", target := "X" }]

/-- The same three nodes with the step wired to the fan-out step itself. -/
def directBranch : Canvas where
  nodes := labelBridge.nodes
  edges := [{ source := "I", target := "L" }, { source := "I", target := "X" }]

/-- The validator accepts a step that hangs below the fan-out step by a label only; the step is
then executed in the first phase and again by every child. -/
theorem labelBridge_not_partitioned :
    validateFanOutTopology labelBridge = [] ∧ "I" ∈ fanOutSteps smallRegistry labelBridge ∧
      ¬ PhasesPartition smallRegistry labelBridge "I" := by
  refine ⟨by decide, by decide, ?_⟩
  rintro ⟨graph, ordered, waves, hg, hs, hw, h⟩
  obtain rfl : labelBridge = graph := Except.ok.inj hg
  obtain rfl : [labelBridge.nodes[0], labelBridge.nodes[2]] = ordered := Except.ok.inj hs
  obtain rfl : [[labelBridge.nodes[0], labelBridge.nodes[2]]] = waves := Option.some.inj hw
  have hx := h labelBridge.nodes[2] (by simp [labelBridge]) (by decide)
  revert hx
  unfold ExactlyOne
  decide

theorem directBranch_partitioned : PhasesPartition smallRegistry directBranch "I" :=
  (phasesPartition_iff_branchThroughSteps (by decide) (by decide)).mpr
    ⟨directBranch, [directBranch.nodes[0], directBranch.nodes[2]], rfl, rfl, by decide⟩

end Examples

end Manus
