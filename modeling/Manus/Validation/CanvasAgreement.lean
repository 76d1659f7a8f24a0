import Manus.Validation.CanvasWalk
import Manus.Validation.CapabilityContract

/-! # Where the canvas and the server agree

Both walk the graph in dependency order and join branches by intersection. What the
validator computes is what comes with every path; the canvas computes the same as long
as edges leave steps by outcomes that these declare and no step consumes what it
produces.
-/

namespace Manus.CapabilityGraph

open Topological

section Server

def storedCanvas (nodes : List ProjectedCanvasNode) (edges : List CanvasEdge) : Canvas :=
  ⟨nodes.map (·.toCanvasNode), edges⟩

/-- `outcome_state` after the walk of the validator. -/
def tier3OutcomeState (registry : PluginRegistry) (canvas : Canvas) :
    Except GraphError OutcomeState := do
  let graph ← loadExecutionGraph canvas
  let executable := validatorGraph registry graph
  let order ← topologicalOrder executable.nodes executable.edges
  return (order.foldl (visitNode registry executable.edges) (fun _ _ => none, [])).1

variable {registry : PluginRegistry} {nodes : List ProjectedCanvasNode} {edges : List CanvasEdge}

/-- Nothing is to be resolved in a plain canvas. -/
theorem PlainCanvas.load (h : PlainCanvas registry nodes edges) :
    loadExecutionGraph (storedCanvas nodes edges) = .ok (storedCanvas nodes edges) := by
  have hfilter (p : CanvasNode → Bool) (hp : ∀ n ∈ nodes, p n.toCanvasNode = false) :
      (nodes.map (·.toCanvasNode)).filter p = [] := by
    refine List.filter_eq_nil_iff.mpr fun n hn => ?_
    obtain ⟨m, hm, rfl⟩ := List.mem_map.mp hn
    rw [hp m hm]
    exact Bool.false_ne_true
  have hfunnels := hfilter (fun n => n.data.kind == some "funnel") fun n hn =>
    beq_eq_false_iff_ne.mpr (h.plain n hn).2.1
  have hstops := hfilter (fun n => n.data.kind == some "stop-here") fun n hn =>
    beq_eq_false_iff_ne.mpr (h.plain n hn).2.2
  have hdisabled := hfilter isAuthorDisabled fun n hn => by
    rw [isAuthorDisabled, (h.plain n hn).1, Bool.false_and]
  obtain ⟨stored, hstored⟩ : ∃ stored, stored = nodes.map (·.toCanvasNode) := ⟨_, rfl⟩
  rw [← hstored] at hfunnels hstops hdisabled
  have hfunnel : resolveFunnels stored edges = .ok (stored, edges) := by
    simp only [resolveFunnels, hfunnels, List.map_nil, List.isEmpty_nil, if_true]
  have henabled : resolveDisabledSteps stored edges = (stored, edges) := by
    simp only [resolveDisabledSteps, hdisabled, List.map_nil, List.isEmpty_nil, if_true]
  have hwhole : resolveStopHere stored edges = (stored, edges) := by
    simp only [resolveStopHere, hstops, List.map_nil, List.isEmpty_nil, if_true]
  rw [storedCanvas, ← hstored]
  simp only [loadExecutionGraph, hfunnel, henabled, hwhole, bind, Except.bind]
  rfl

/-- The server walks the executed steps of the canvas, in an order, and the edges between them. -/
structure ServerWalk (registry : PluginRegistry) (nodes : List ProjectedCanvasNode)
    (edges : List CanvasEdge) (order : List CanvasNode) (live : List CanvasEdge) : Prop where
  flow : tier3OutcomeState registry (storedCanvas nodes edges) =
    .ok (order.foldl (visitNode registry live) (fun _ _ => none, [])).1
  sorted : Sorted order live
  executed : ∀ n ∈ order, ∃ m ∈ nodes, m.toCanvasNode = n
  source : ∀ e ∈ edges, e.source ∈ order.map CanvasNode.id
  mem_live : ∀ e, e ∈ live ↔ e ∈ edges ∧ e.target ∈ order.map CanvasNode.id
  into : ∀ v ∈ order.map CanvasNode.id,
    live.filter (fun e => e.target == v) = edges.filter fun e => e.target == v
  declared : ∀ e ∈ edges, e ∉ live → ∃ n ∈ nodes, n.id = e.source ∧
    e.canvasHandle ∈ n.outcomes.getD []

theorem server_order (h : PlainCanvas registry nodes edges) (hw : WellWired registry nodes edges) :
    ∃ order live, ServerWalk registry nodes edges order live := by
  obtain ⟨executed, hexecuted⟩ : ∃ executed, executed =
    (nodes.map (·.toCanvasNode)).filter (validatorExecutable registry) := ⟨_, rfl⟩
  have hmem {a : String} (ha : ∃ n ∈ nodes, n.id = a ∧
      validatorExecutable registry n.toCanvasNode = true) : a ∈ executed.map CanvasNode.id := by
    obtain ⟨n, hn, rfl, hexec⟩ := ha
    rw [hexecuted]
    exact List.mem_map.mpr
      ⟨n.toCanvasNode, List.mem_filter.mpr ⟨List.mem_map_of_mem hn, hexec⟩, rfl⟩
  have hlive : ∀ e, e ∈ liveEdges (executed.map CanvasNode.id) edges ↔
      e ∈ edges ∧ e.target ∈ executed.map CanvasNode.id := by
    intro e
    rw [mem_liveEdges]
    exact and_congr_right fun he => and_iff_right (hmem (hw.source e he))
  have hgraph : validatorGraph registry (storedCanvas nodes edges) =
      ⟨executed, liveEdges (executed.map CanvasNode.id) edges⟩ := by
    rw [validatorGraph, storedCanvas]
    dsimp only
    rw [← hexecuted]
  obtain ⟨order, horder⟩ : ∃ order, topologicalOrder executed
      (liveEdges (executed.map CanvasNode.id) edges) = .ok order := by
    refine topologicalOrder_of_acyclic fun a ha => h.acyclic a (ha.lift id fun p q hp => ?_)
    obtain ⟨e, he, hsource, htarget, -⟩ := hp
    exact ⟨e, ((hlive e).mp he).1, hsource, htarget⟩
  obtain ⟨hsorted, hids, hget⟩ := topologicalOrder_spec horder
  have hids : ∀ v, v ∈ order.map CanvasNode.id ↔ v ∈ executed.map CanvasNode.id := by
    intro v
    rw [hids, mem_nodeMap_keys, List.mem_map]
  refine ⟨order, _, ?_, hsorted, fun n hn => ?_, fun e he => ?_, fun e => ?_, fun v hv => ?_,
    fun e he hdead => ?_⟩
  · simp only [tier3OutcomeState, h.load, hgraph, horder, bind, Except.bind]
    rfl
  · have hexec := (nodeMap_get?_mem (hget n hn)).1
    rw [hexecuted] at hexec
    exact List.mem_map.mp (List.mem_filter.mp hexec).1
  · exact (hids _).mpr (hmem (hw.source e he))
  · rw [hlive, hids]
  · rw [liveEdges, List.filter_filter]
    refine List.filter_congr fun e he => ?_
    by_cases htarget : e.target = v
    · subst htarget
      simp [hmem (hw.source e he), (hids _).mp hv]
    · simp [htarget]
  · rcases hw.target e he with htarget | hdeclared
    · exact absurd ((hlive e).mpr ⟨he, hmem htarget⟩) hdead
    · exact hdeclared

end Server

section Facts

variable {n : ProjectedCanvasNode} {plugin : PluginDefinition} {x : Capability ⊕ String}

def Has (state : CapabilityState) : Capability ⊕ String → Prop
  | .inl c => c ∈ state.capabilities
  | .inr key => key ∈ state.parsedKeys

theorem eq_of_has {state state' : CapabilityState} (h : ∀ x, Has state x ↔ Has state' x) :
    state = state' := by
  obtain ⟨capabilities, parsedKeys⟩ := state
  obtain ⟨capabilities', parsedKeys'⟩ := state'
  rw [CapabilityState.mk.injEq]
  exact ⟨Finset.ext fun c => h (.inl c), Finset.ext fun key => h (.inr key)⟩

theorem not_has_empty : ¬ Has emptyCapabilityState x := by
  cases x <;> exact Finset.notMem_empty _

theorem has_inter {s t : CapabilityState} :
    Has ⟨s.capabilities ∩ t.capabilities, s.parsedKeys ∩ t.parsedKeys⟩ x ↔ Has s x ∧ Has t x := by
  cases x <;> exact Finset.mem_inter

theorem has_intersect {states : List CapabilityState} :
    Has (intersectCapabilityStates states) x ↔ states ≠ [] ∧ ∀ s ∈ states, Has s x := by
  cases states with
  | nil => simp [intersectCapabilityStates, not_has_empty]
  | cons first rest =>
    rw [intersectCapabilityStates]
    induction rest generalizing first with
    | nil => simp
    | cons second rest ih =>
      rw [List.foldl_cons, ih]
      simp [has_inter, and_assoc]

theorem has_join {edges : List CanvasEdge} {f : CanvasEdge → CapabilityState} {v : String} :
    Has (intersectCapabilityStates ((edges.filter fun e => e.target == v).map f)) x ↔
      (∃ e ∈ edges, e.target = v) ∧ ∀ e ∈ edges, e.target = v → Has (f e) x := by
  rw [has_intersect]
  refine and_congr (by simp [List.filter_eq_nil_iff]) ⟨fun h e he htarget => ?_, ?_⟩
  · exact h _ (List.mem_map_of_mem (List.mem_filter.mpr ⟨he, beq_iff_eq.mpr htarget⟩))
  · rintro h s hs
    obtain ⟨e, he, rfl⟩ := List.mem_map.mp hs
    obtain ⟨he, htarget⟩ := List.mem_filter.mp he
    exact h e he (beq_iff_eq.mp htarget)

def Produces (plugin : PluginDefinition) : Capability ⊕ String → Prop
  | .inl c => c ∈ plugin.produces
  | .inr key => key ∈ plugin.producesParsed

def Consumes (plugin : PluginDefinition) : Capability ⊕ String → Prop
  | .inl c => c ∈ plugin.consumes
  | .inr _ => False

theorem has_applyStep (h : Mirrors n plugin) {input : CapabilityState} :
    Has (applyStep input n) x ↔ (Has input x ∨ Produces plugin x) ∧ ¬ Consumes plugin x := by
  cases x <;> simp [Has, applyStep, Produces, Consumes, h.produces, h.consumes, h.producesParsed]

theorem has_successState (h : Mirrors n plugin) {input : CapabilityState} :
    Has (successState plugin n.data.pluginConfig input) x ↔
      Produces plugin x ∨ Has input x ∧ ¬ Consumes plugin x := by
  cases x with
  | inl c =>
    simp only [Has, successState, Produces, Consumes, h.effective, Finset.mem_union,
      Finset.mem_sdiff, List.mem_toFinset]
    exact or_comm
  | inr key =>
    simp only [Has, successState, Produces, Consumes, Finset.mem_union, List.mem_toFinset,
      not_false_eq_true, and_true]
    exact or_comm

end Facts

section Flows

variable (registry : PluginRegistry) (nodes : List ProjectedCanvasNode) (edges : List CanvasEdge)

def sourcePlugin (e : CanvasEdge) : Option PluginDefinition :=
  (nodes.find? fun n => n.id == e.source).bind fun n => pluginById registry n.data.kind

def Adds (e : CanvasEdge) (x : Capability ⊕ String) : Prop :=
  Manus.isFailureClassOutcome e.outcomeName = false ∧
    ∃ plugin ∈ sourcePlugin registry nodes e, Produces plugin x

def Drops (e : CanvasEdge) (x : Capability ⊕ String) : Prop :=
  Manus.isFailureClassOutcome e.outcomeName = false ∧
    ∃ plugin ∈ sourcePlugin registry nodes e, Consumes plugin x

abbrev GuaranteedAt : String → Capability ⊕ String → Prop :=
  Dataflow.Guaranteed edges CanvasEdge.source CanvasEdge.target (Adds registry nodes)
    (Drops registry nodes)

abbrev GuaranteedOn : CanvasEdge → Capability ⊕ String → Prop :=
  Dataflow.OnEdge edges CanvasEdge.source CanvasEdge.target (Adds registry nodes)
    (Drops registry nodes)

/-- What the canvas computes for an edge is what the server computes, as far as the step that the
edge leaves is concerned. Without a declared outcome the canvas knows of no guarantee; a step
without any outcomes has one state for all its edges. -/
def EdgeAgrees (plugin : PluginDefinition) (e : CanvasEdge) : Prop :=
  if plugin.outcomes = [] then
    if Manus.isFailureClassOutcome e.outcomeName then
      ∀ x, (GuaranteedAt registry nodes edges e.source x ∨ Produces plugin x) ∧
        ¬ Consumes plugin x ↔ GuaranteedAt registry nodes edges e.source x
    else ∀ c ∈ plugin.produces, c ∉ plugin.consumes
  else if e.canvasHandle ∈ plugin.outcomes then
    Manus.isFailureClassOutcome e.outcomeName = true ∨ ∀ c ∈ plugin.produces, c ∉ plugin.consumes
  else ∀ x, ¬ GuaranteedOn registry nodes edges e x

def serverState (plugin : PluginDefinition) (n : ProjectedCanvasNode) (e : CanvasEdge)
    (input : CapabilityState) : CapabilityState :=
  if Manus.isFailureClassOutcome e.outcomeName then input
  else successState plugin n.data.pluginConfig input

variable {registry nodes edges} {n : ProjectedCanvasNode} {plugin : PluginDefinition}
  {e : CanvasEdge} {input : CapabilityState} {x : Capability ⊕ String}

theorem apply_eq_success_iff (h : Mirrors n plugin) :
    applyStep input n = successState plugin n.data.pluginConfig input ↔
      ∀ c ∈ plugin.produces, c ∉ plugin.consumes := by
  constructor
  · intro heq c hproduced hconsumed
    have hsuccess : Has (successState plugin n.data.pluginConfig input) (.inl c) :=
      (has_successState h).mpr (.inl hproduced)
    rw [← heq] at hsuccess
    exact ((has_applyStep h).mp hsuccess).2 hconsumed
  · intro hseparate
    refine eq_of_has fun x => ?_
    rw [has_applyStep h, has_successState h]
    have hx : Produces plugin x → ¬ Consumes plugin x := by
      cases x with
      | inl c => exact hseparate c
      | inr key => exact fun _ hconsumed => hconsumed
    tauto

theorem has_serverState (h : Mirrors n plugin) (hp : sourcePlugin registry nodes e = some plugin) :
    Has (serverState plugin n e input) x ↔
      Adds registry nodes e x ∨ Has input x ∧ ¬ Drops registry nodes e x := by
  unfold serverState Adds Drops
  simp only [hp, Option.mem_some_iff, exists_eq_left']
  cases hfail : Manus.isFailureClassOutcome e.outcomeName with
  | true => simp
  | false => simp [has_successState h]

/-- The canvas and the server agree on an edge exactly then. -/
theorem canvasState_eq_iff (h : Mirrors n plugin)
    (hp : sourcePlugin registry nodes e = some plugin)
    (hnamed : ∀ name ∈ plugin.outcomes, isOutcomeName name = true)
    (hinput : ∀ x, Has input x ↔ GuaranteedAt registry nodes edges e.source x) :
    canvasState n e.canvasHandle input = serverState plugin n e input ↔
      EdgeAgrees registry nodes edges plugin e := by
  unfold canvasState EdgeAgrees
  rw [h.outcomes]
  split
  · rename_i hnone
    rw [if_pos hnone]
    unfold serverState
    split
    · constructor
      · intro heq x
        rw [← hinput, ← has_applyStep h, heq]
      · intro hx
        refine eq_of_has fun x => ?_
        rw [has_applyStep h, hinput, hx]
    · exact apply_eq_success_iff h
  · rename_i hsome
    rw [if_neg hsome]
    split
    · rename_i hdeclared
      have hname := hnamed _ hdeclared
      rw [serverState, outcomeName_eq hname, isFailureClassOutcome_eq hname]
      split
      · rename_i hfail
        simp [hfail]
      · rename_i hfail
        rw [apply_eq_success_iff h]
        simp [hfail]
    · constructor
      · intro heq x hx
        have hserver : Has (serverState plugin n e input) x := by
          rw [has_serverState h hp, hinput]
          exact hx
        rw [← heq] at hserver
        exact not_has_empty hserver
      · intro hx
        refine eq_of_has fun x => ⟨fun hempty => absurd hempty not_has_empty, fun hserver => ?_⟩
        rw [has_serverState h hp, hinput] at hserver
        exact absurd hserver (hx x)

end Flows

section Solved

variable {registry : PluginRegistry} {nodes : List ProjectedCanvasNode} {edges : List CanvasEdge}

theorem exists_source (h : PlainCanvas registry nodes edges)
    (hw : WellWired registry nodes edges) {e : CanvasEdge} (he : e ∈ edges) :
    ∃ n ∈ nodes, n.id = e.source ∧ ∃ plugin, sourcePlugin registry nodes e = some plugin ∧
      pluginById registry n.data.kind = some plugin ∧ Mirrors n plugin ∧
      ∀ name ∈ plugin.outcomes, isOutcomeName name = true := by
  cases hfind : nodes.find? fun n => n.id == e.source with
  | none =>
    obtain ⟨n, hn, hid, -⟩ := hw.source e he
    exact absurd (beq_iff_eq.mpr hid) (List.find?_eq_none.mp hfind n hn)
  | some n =>
    have hn := List.mem_of_find?_eq_some hfind
    have hid := List.find?_some hfind
    rw [beq_iff_eq] at hid
    obtain ⟨plugin, hp, hmirrors⟩ := h.mirrors n hn
    refine ⟨n, hn, hid, plugin, ?_, hp, hmirrors, h.named plugin ?_⟩
    · rw [sourcePlugin, hfind, Option.bind_some, hp]
    · obtain ⟨kind, -, hkind⟩ := Option.bind_eq_some_iff.mp hp
      exact List.mem_of_find?_eq_some hkind

theorem node_unique (hw : WellWired registry nodes edges) {n m : ProjectedCanvasNode}
    (hn : n ∈ nodes) (hm : m ∈ nodes) (hid : n.id = m.id) : n = m :=
  List.inj_on_of_nodup_map hw.nodup hn hm hid

theorem ServerWalk.inputState_eq {order : List CanvasNode} {live : List CanvasEdge}
    (hs : ServerWalk registry nodes edges order live) (flow : OutcomeState) {v : String}
    (hv : v ∈ order.map CanvasNode.id) : inputState live flow v = inputState edges flow v := by
  rw [inputState, inputState, hs.into v hv]

theorem server_edge (hw : WellWired registry nodes edges) {order : List CanvasNode}
    {live : List CanvasEdge} (hs : ServerWalk registry nodes edges order live)
    {flow : OutcomeState} {findings : List ValidationFinding}
    (hsolved : FlowSolved registry live order flow findings) {e : CanvasEdge} (he : e ∈ edges)
    {n : ProjectedCanvasNode} {plugin : PluginDefinition} (hn : n ∈ nodes) (hid : n.id = e.source)
    (hp : pluginById registry n.data.kind = some plugin) (hmirrors : Mirrors n plugin)
    (hnamed : ∀ name ∈ plugin.outcomes, isOutcomeName name = true) :
    (flow e.source e.outcomeName).getD emptyCapabilityState =
      serverState plugin n e (inputState edges flow e.source) := by
  obtain ⟨m, hm, hmid⟩ := List.mem_map.mp (hs.source e he)
  obtain ⟨n', hn', rfl⟩ := hs.executed m hm
  obtain rfl := node_unique hw hn hn' (hid.trans hmid.symm)
  have hhandle : e.outcomeName ∈ handleNames live plugin n.id := by
    have hmem : e.outcomeName ∈ plugin.outcomes ++
        (live.filter fun e => e.source == n.id).map CanvasEdge.outcomeName := by
      by_cases hlive : e ∈ live
      · exact List.mem_append_right _ (List.mem_map_of_mem
          (List.mem_filter.mpr ⟨hlive, beq_iff_eq.mpr hid.symm⟩))
      · obtain ⟨n', hn', hid', hdeclared⟩ := hs.declared e he hlive
        obtain rfl := node_unique hw hn hn' (hid.trans hid'.symm)
        rw [hmirrors.outcomes] at hdeclared
        rw [outcomeName_eq (hnamed _ hdeclared)]
        exact List.mem_append_left _ hdeclared
    unfold handleNames
    split
    · rename_i hnil
      rw [hnil] at hmem
      cases hmem
    · exact hmem
  have hstate := hsolved.states n.toCanvasNode hm plugin hp e.outcomeName
  rw [if_pos hhandle] at hstate
  have hstate' := congrArg (·.getD emptyCapabilityState) hstate
  rw [← hs.inputState_eq flow (hs.source e he), ← hid]
  exact hstate'

/-- The executed steps come after their parents, whatever other edges there are. -/
theorem ServerWalk.ready {order : List CanvasNode} {live : List CanvasEdge}
    (hs : ServerWalk registry nodes edges order live) :
    ReadyOrder (fun p v => ∃ e ∈ edges, e.source = p ∧ e.target = v) []
      (order.map CanvasNode.id) := by
  refine hs.sorted.order.mono fun v hv p hp => ?_
  obtain ⟨e, he, rfl, rfl⟩ := hp
  exact ⟨e, (hs.mem_live e).mpr ⟨he, hv⟩, rfl, rfl, hs.source e he, hv⟩

theorem server_guaranteed (h : PlainCanvas registry nodes edges)
    (hw : WellWired registry nodes edges) {order : List CanvasNode} {live : List CanvasEdge}
    (hs : ServerWalk registry nodes edges order live) {flow : OutcomeState}
    {findings : List ValidationFinding} (hsolved : FlowSolved registry live order flow findings) :
    ∀ v ∈ order.map CanvasNode.id, ∀ x,
      Has (inputState edges flow v) x ↔ GuaranteedAt registry nodes edges v x := by
  refine Dataflow.guaranteed_unique (fun v _ hparents x => ?_) hs.ready nofun
  rw [inputState, has_join]
  refine and_congr_right fun _ => forall_congr' fun e => forall_congr' fun he =>
    forall_congr' fun htarget => ?_
  obtain ⟨n, hn, hid, plugin, hplugin, hp, hmirrors, hnamed⟩ := exists_source h hw he
  rw [server_edge hw hs hsolved he hn hid hp hmirrors hnamed, has_serverState hmirrors hplugin,
    hparents e he htarget]
  rfl

/-- The canvas and the server agree on the edges of a canvas exactly when they do so step by
step. -/
theorem capabilities_agree_iff (h : PlainCanvas registry nodes edges)
    (hw : WellWired registry nodes edges) :
    ∃ flow, tier3OutcomeState registry (storedCanvas nodes edges) = .ok flow ∧
      ((∀ e ∈ edges,
        getOutcomeProvides (computeOutcomeProvides edges nodes) e.source e.canvasHandle =
          (flow e.source e.outcomeName).getD emptyCapabilityState) ↔
        ∀ e ∈ edges, ∀ plugin, sourcePlugin registry nodes e = some plugin →
          EdgeAgrees registry nodes edges plugin e) := by
  obtain ⟨order, live, hs⟩ := server_order h hw
  refine ⟨_, hs.flow, ?_⟩
  have hsolved : FlowSolved registry live order _ _ := visit_solved hs.sorted fun e he =>
    ⟨hs.source e ((hs.mem_live e).mp he).1, ((hs.mem_live e).mp he).2⟩
  obtain ⟨flow, hflow'⟩ : ∃ flow, flow =
    (order.foldl (visitNode registry live) (fun _ _ => none, [])).1 := ⟨_, rfl⟩
  rw [← hflow'] at hsolved ⊢
  have hserver := server_guaranteed h hw hs hsolved
  obtain ⟨provides, hprovides⟩ : ∃ provides, provides = computeOutcomeProvides edges nodes :=
    ⟨_, rfl⟩
  have hcanvas : ∀ e ∈ edges, ∀ n ∈ nodes, n.id = e.source →
      getOutcomeProvides provides e.source e.canvasHandle =
        canvasState n e.canvasHandle (canvasInput edges provides e.source) := by
    intro e he n hn hid
    rw [hprovides]
    exact canvas_edge h hw he hn hid
  rw [← hprovides]
  constructor
  · intro hagree e he plugin hplugin
    obtain ⟨n, hn, hid, plugin', hplugin', hp, hmirrors, hnamed⟩ := exists_source h hw he
    obtain rfl := Option.some.inj (hplugin.symm.trans hplugin')
    have hinput : canvasInput edges provides e.source = inputState edges flow e.source := by
      unfold canvasInput inputState
      congr 1
      exact List.map_congr_left fun e he => hagree e (List.mem_filter.mp he).1
    refine (canvasState_eq_iff hmirrors hplugin hnamed (hserver e.source (hs.source e he))).mp ?_
    rw [← hinput, ← hcanvas e he n hn hid, hagree e he,
      server_edge hw hs hsolved he hn hid hp hmirrors hnamed, hinput]
  · intro hedges
    have hinput : ∀ v ∈ order.map CanvasNode.id, ∀ x,
        Has (canvasInput edges provides v) x ↔ GuaranteedAt registry nodes edges v x := by
      refine Dataflow.guaranteed_unique (fun v _ hparents x => ?_) hs.ready nofun
      rw [canvasInput, has_join]
      refine and_congr_right fun _ => forall_congr' fun e => forall_congr' fun he =>
        forall_congr' fun htarget => ?_
      obtain ⟨n, hn, hid, plugin, hplugin, hp, hmirrors, hnamed⟩ := exists_source h hw he
      rw [hcanvas e he n hn hid, (canvasState_eq_iff hmirrors hplugin hnamed
        (hparents e he htarget)).mpr (hedges e he plugin hplugin),
        has_serverState hmirrors hplugin, hparents e he htarget]
      rfl
    intro e he
    obtain ⟨n, hn, hid, plugin, hplugin, hp, hmirrors, hnamed⟩ := exists_source h hw he
    have hsame : canvasInput edges provides e.source = inputState edges flow e.source :=
      eq_of_has fun x => (hinput e.source (hs.source e he) x).trans
        (hserver e.source (hs.source e he) x).symm
    rw [hcanvas e he n hn hid, (canvasState_eq_iff hmirrors hplugin hnamed
      (hinput e.source (hs.source e he))).mpr (hedges e he plugin hplugin), hsame,
      server_edge hw hs hsolved he hn hid hp hmirrors hnamed]

end Solved

section Examples

theorem acyclic_of_rank {edges : List CanvasEdge} (rank : String → ℕ)
    (h : ∀ e ∈ edges, rank e.source < rank e.target) (a : String) :
    ¬ Relation.TransGen (Leads edges) a a := by
  intro hcycle
  have hgrows : Relation.TransGen (· < ·) (rank a) (rank a) := hcycle.lift rank fun p q hp => by
    obtain ⟨e, he, rfl, rfl⟩ := hp
    exact h e he
  rw [Relation.transGen_eq_self] at hgrows
  exact Nat.lt_irrefl _ hgrows

def compareRegistry : PluginRegistry where
  plugins := [
    { id := "label", executable := false }, { id := "background", executable := false },
    { id := "funnel", executable := false }, { id := "step-group", executable := false },
    { id := "get-from-list", produces := [.identity], outcomes := ["success"] },
    { id := "compare-data", requires := [.identity], produces := [.parsed],
      producesParsed := ["comparison_diff"], outcomes := ["match", "mismatch", "failure"] },
    { id := "log-attributes", outcomes := ["success"] }]
  unique := by decide
  allEnabled := by decide
  executable_iff := by decide
  declared := by decide
  named := by decide

def compareNodes : List ProjectedCanvasNode := [
  { id := "list", data := { kind := some "get-from-list" }, produces := some [.identity],
    outcomes := some ["success"] },
  { id := "compare", data := { kind := some "compare-data" }, produces := some [.parsed],
    producesParsed := some ["comparison_diff"],
    outcomes := some ["match", "mismatch", "failure"] },
  { id := "log", data := { kind := some "log-attributes" }, outcomes := some ["success"] }]

def compareEdges (handle : Option String) : List CanvasEdge :=
  [⟨"list", "compare", some "success", none⟩, ⟨"compare", "log", handle, none⟩]

theorem compare_plain (handle : Option String) :
    PlainCanvas compareRegistry compareNodes (compareEdges handle) where
  named := by decide +kernel
  acyclic := acyclic_of_rank (["list", "compare", "log"].idxOf ·) (by simp [compareEdges])
  plain := by decide
  mirrors n hn := by
    have hplugin : ∀ n ∈ compareNodes, (pluginById compareRegistry n.data.kind).any
        (fun plugin => decide (Mirrors n plugin)) = true := by decide +kernel
    obtain ⟨plugin, hp, hmirrors⟩ := (Option.any_eq_true _ _).mp (hplugin n hn)
    exact ⟨plugin, hp, of_decide_eq_true hmirrors⟩

theorem compare_wellWired :
    WellWired compareRegistry compareNodes (compareEdges (some "mismatch")) where
  nodup := by decide
  source := by decide +kernel
  target := by decide +kernel
  handles := by decide +kernel

/-- The devices that leave by a declared outcome carry the same for both. -/
theorem capabilities_agree_declared : ∃ flow,
    tier3OutcomeState compareRegistry
      (storedCanvas compareNodes (compareEdges (some "mismatch"))) = .ok flow ∧
    ∀ e ∈ compareEdges (some "mismatch"),
      getOutcomeProvides (computeOutcomeProvides (compareEdges (some "mismatch")) compareNodes)
        e.source e.canvasHandle = (flow e.source e.outcomeName).getD emptyCapabilityState := by
  obtain ⟨flow, hflow, hagree⟩ := capabilities_agree_iff (compare_plain _) compare_wellWired
  refine ⟨flow, hflow, hagree.mpr fun e he plugin hp => ?_⟩
  have hdeclared : ∀ e ∈ compareEdges (some "mismatch"),
      (sourcePlugin compareRegistry compareNodes e).any (fun plugin =>
        decide (e.canvasHandle ∈ plugin.outcomes ∧
          ∀ c ∈ plugin.produces, c ∉ plugin.consumes)) = true := by decide +kernel
  obtain ⟨plugin', hp', hboth⟩ := (Option.any_eq_true _ _).mp (hdeclared e he)
  obtain rfl := Option.some.inj (hp.symm.trans hp')
  obtain ⟨hmem, hseparate⟩ := of_decide_eq_true hboth
  rw [EdgeAgrees, if_neg (List.ne_nil_of_mem hmem), if_pos hmem]
  exact .inr hseparate

/-- An edge without a handle leaves a comparison by `success`, which is none of its outcomes: the
server carries everything on, the canvas nothing. -/
theorem capabilities_disagree :
    PlainCanvas compareRegistry compareNodes (compareEdges none) ∧ ∃ flow,
      tier3OutcomeState compareRegistry (storedCanvas compareNodes (compareEdges none)) =
        .ok flow ∧
      ∃ e ∈ compareEdges none,
        getOutcomeProvides (computeOutcomeProvides (compareEdges none) compareNodes)
          e.source e.canvasHandle ≠ (flow e.source e.outcomeName).getD emptyCapabilityState := by
  refine ⟨compare_plain none, ?_⟩
  have hflow : (tier3OutcomeState compareRegistry
      (storedCanvas compareNodes (compareEdges none))).toOption.any (fun flow =>
        decide (∃ e ∈ compareEdges none,
          getOutcomeProvides (computeOutcomeProvides (compareEdges none) compareNodes) e.source
            e.canvasHandle ≠ (flow e.source e.outcomeName).getD emptyCapabilityState)) = true := by
    decide +kernel
  obtain ⟨flow, hok, hdiffer⟩ := (Option.any_eq_true _ _).mp hflow
  exact ⟨flow, toOption_eq_some.mp hok, of_decide_eq_true hdiffer⟩

end Examples

end Manus.CapabilityGraph
