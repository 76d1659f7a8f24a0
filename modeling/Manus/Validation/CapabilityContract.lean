import Manus.Runner.Settled
import Manus.Validation.CapabilityFlow

/-! # What the capability flow means

The states the validator computes solve its flow equations, and a step that
keeps its contract turns devices that carry the state of its input into devices
that carry the state of the outcome they leave by.
-/

namespace Manus

section Graph

variable {registry : PluginRegistry} {canvas graph : Canvas}

theorem pluginById_some (kind : String) :
    pluginById registry (some kind) = registry.getPlugin kind := by
  unfold pluginById PluginRegistry.getPlugin
  rw [Option.bind_some]
  have henabled := registry.allEnabled
  generalize registry.plugins = plugins at henabled
  induction plugins with
  | nil => rfl
  | cons p plugins ih =>
    have hp := henabled p List.mem_cons_self
    have hrest := ih fun q hq => henabled q (List.mem_cons_of_mem _ hq)
    rw [List.find?_cons, List.find?_cons, hp, Bool.and_true, hrest]

theorem getPlugin_stepType (node : CanvasNode) :
    registry.getPlugin node.stepType = pluginById registry node.data.kind := by
  unfold CanvasNode.stepType
  cases node.data.kind with
  | some kind => rw [pluginById_some, Option.getD_some]
  | none =>
    cases hp : registry.getPlugin "unknown" with
    | none => simp [hp, pluginById]
    | some p =>
      obtain ⟨hm, hid⟩ := PluginRegistry.getPlugin_mem hp
      exact absurd (hid ▸ List.mem_map_of_mem hm) registry.named

theorem validatorGraph_eq (h : loadExecutionGraph canvas = .ok graph) :
    validatorGraph registry graph = filterExecutableGraph registry graph := by
  have hnodes : graph.nodes.filter (validatorExecutable registry) =
      graph.nodes.filter (isExecutableNode registry) := by
    refine List.filter_congr fun n hn => ?_
    have hd := loadExecutionGraph_enabled h n hn
    simp only [validatorExecutable, isExecutableNode, hd, pluginById_some]
    rfl
  simp only [validatorGraph, filterExecutableGraph, hnodes]

end Graph

section Flow

variable {registry : PluginRegistry} {edges : List CanvasEdge}

theorem inputState_congr {flow flow' : OutcomeState} {nodeId : String}
    (h : ∀ e ∈ edges, e.target = nodeId → flow e.source = flow' e.source) :
    inputState edges flow nodeId = inputState edges flow' nodeId := by
  unfold inputState
  congr 1
  refine List.map_congr_left fun e he => ?_
  obtain ⟨hm, ht⟩ := List.mem_filter.mp he
  rw [h e hm (by simpa using ht)]

theorem visitNode_other {acc : OutcomeState × List ValidationFinding} {node : CanvasNode}
    {k : String} (hk : k ≠ node.id) : (visitNode registry edges acc node).1 k = acc.1 k := by
  unfold visitNode
  split
  · rfl
  · funext handle
    simp [hk]

/-- What the finished walk of the validator says about each node of the order: the states of its
outcomes and its findings follow from the final states of its parents. -/
structure FlowSolved (registry : PluginRegistry) (edges : List CanvasEdge)
    (order : List CanvasNode) (flow : OutcomeState) (findings : List ValidationFinding) :
    Prop where
  states : ∀ n ∈ order, ∀ plugin, pluginById registry n.data.kind = some plugin → ∀ handle,
    flow n.id handle =
      if handle ∈ handleNames edges plugin n.id then
        some (if isFailureClassOutcome handle then inputState edges flow n.id
          else successState plugin n.data.pluginConfig (inputState edges flow n.id))
      else none
  findings : findings = [] → ∀ n ∈ order, ∀ plugin,
    pluginById registry n.data.kind = some plugin →
    nodeFindings plugin n.id (inputState edges flow n.id) = []

theorem visit_frame {order : List CanvasNode} {acc : OutcomeState × List ValidationFinding}
    {k : String} (hk : k ∉ order.map CanvasNode.id) :
    (order.foldl (visitNode registry edges) acc).1 k = acc.1 k := by
  induction order generalizing acc with
  | nil => rfl
  | cons n order ih =>
    rw [List.map_cons, List.mem_cons, not_or] at hk
    rw [List.foldl_cons, ih hk.2, visitNode_other hk.1]

theorem visit_findings {order : List CanvasNode} {acc : OutcomeState × List ValidationFinding}
    (h : (order.foldl (visitNode registry edges) acc).2 = []) : acc.2 = [] := by
  induction order generalizing acc with
  | nil => exact h
  | cons n order ih =>
    have h' := ih h
    unfold visitNode at h'
    split at h'
    · exact h'
    · exact (List.append_eq_nil_iff.mp h').1

theorem visit_solved {order : List CanvasNode} (hs : Sorted order edges)
    (hlive : ∀ e ∈ edges, e.source ∈ order.map CanvasNode.id ∧
      e.target ∈ order.map CanvasNode.id) :
    FlowSolved registry edges order
      (order.foldl (visitNode registry edges) (fun _ _ => none, [])).1
      (order.foldl (visitNode registry edges) (fun _ _ => none, [])).2 := by
  -- over the nodes still to visit, `done` being the ids of those already visited
  have key : ∀ (rest : List CanvasNode) (done : List String)
      (acc : OutcomeState × List ValidationFinding),
      Topological.ReadyOrder (Wire (order.map CanvasNode.id) edges) done
        (rest.map CanvasNode.id) →
      (done ++ rest.map CanvasNode.id).Nodup →
      (∀ n ∈ rest, acc.1 n.id = fun _ => none) →
      FlowSolved registry edges rest (rest.foldl (visitNode registry edges) acc).1
        (rest.foldl (visitNode registry edges) acc).2 := by
    intro rest
    induction rest with
    | nil =>
      intro done acc _ _ _
      constructor
      · intro n hn
        cases hn
      · intro _ n hn
        cases hn
    | cons n rest ih =>
      intro done acc hready hnodup hacc
      obtain ⟨hparents, hready⟩ := hready
      have hnodup' : ((done ++ [n.id]) ++ rest.map CanvasNode.id).Nodup := by
        simpa using hnodup
      have hn : n.id ∉ rest.map CanvasNode.id := fun h =>
        (List.disjoint_of_nodup_append hnodup') (by simp) h
      set acc' := visitNode registry edges acc n with hacc'
      have hrest : ∀ m ∈ rest, acc'.1 m.id = fun _ => none := by
        intro m hm
        have hne : m.id ≠ n.id := fun he => hn (he ▸ List.mem_map_of_mem hm)
        rw [hacc', visitNode_other hne]
        exact hacc m (List.mem_cons_of_mem _ hm)
      obtain ⟨hstates, hfindings⟩ := ih (done ++ [n.id]) acc' hready hnodup' hrest
      rw [List.foldl_cons]
      have hinput : inputState edges acc.1 n.id =
          inputState edges (rest.foldl (visitNode registry edges) acc').1 n.id := by
        refine inputState_congr fun e he ht => ?_
        have hdone : e.source ∈ done := hparents e.source
          ⟨e, he, rfl, ht, (hlive e he).1, ht ▸ (hlive e he).2⟩
        have hnot : e.source ∉ n.id :: rest.map CanvasNode.id := fun h =>
          List.disjoint_of_nodup_append hnodup hdone h
        rw [List.mem_cons, not_or] at hnot
        rw [visit_frame hnot.2, hacc', visitNode_other hnot.1]
      constructor
      · intro m hm plugin hp handle
        rcases List.mem_cons.mp hm with rfl | hm
        · rw [visit_frame hn, ← hinput]
          simp only [visitNode, hp, hacc m List.mem_cons_self, true_and]
        · exact hstates m hm plugin hp handle
      · intro hnil m hm plugin hp
        rcases List.mem_cons.mp hm with rfl | hm
        · have hacc2 := visit_findings hnil
          simp only [visitNode, hp] at hacc2
          rw [← hinput]
          exact (List.append_eq_nil_iff.mp hacc2).2
        · exact hfindings hnil m hm plugin hp
  exact key order [] _ hs.order (by simpa using hs.nodup) fun _ _ => rfl

end Flow

section Meaning

def DeviceCarries (device : DeviceContext) (state : CapabilityState) : Prop :=
  state.capabilities ⊆ device.capabilities ∧ ∀ key ∈ state.parsedKeys, key ∈ device.parsed.keys

def Carries (ctx : WorkflowContext) (state : CapabilityState) : Prop :=
  ∀ id device, ctx.devices.get? id = some device → DeviceCarries device state

theorem DeviceCarries.merge {left right merged : DeviceContext} {state : CapabilityState}
    (hl : DeviceCarries left state) (h : mergeTwoDevices left right = .ok merged) :
    DeviceCarries merged state := by
  obtain ⟨hcap, hparsed⟩ := mergeTwoDevices_provides h
  refine ⟨?_, fun key hk => (hparsed key).mpr (.inl (hl.2 key hk))⟩
  rw [hcap]
  exact hl.1.trans Finset.subset_union_left

theorem mergeLookups_carries {found : List (Option DeviceContext)} {device : DeviceContext}
    {state : CapabilityState} (h : mergeLookups found = .ok (some device))
    (hall : ∀ d, some d ∈ found → DeviceCarries d state) : DeviceCarries device state := by
  have key : ∀ (found : List (Option DeviceContext)) (start : Option DeviceContext),
      (∀ d, some d ∈ found → DeviceCarries d state) →
      (∀ d, start = some d → DeviceCarries d state) →
      found.foldlM (Dict.combine mergeTwoDevices) start = .ok (some device) →
      DeviceCarries device state := by
    intro found
    induction found with
    | nil =>
      intro start _ hstart h
      exact hstart device (Except.ok.inj h)
    | cons o found ih =>
      intro start hall hstart h
      rw [List.foldlM_cons, bind_eq_ok] at h
      obtain ⟨mid, hmid, h⟩ := h
      refine ih mid (fun d hd => hall d (List.mem_cons_of_mem _ hd)) (fun d hd => ?_) h
      subst hd
      cases start with
      | none =>
        cases hmid
        exact hall d List.mem_cons_self
      | some l =>
        cases o with
        | none =>
          cases hmid
          exact hstart d rfl
        | some r =>
          obtain ⟨m, hm, hmd⟩ := map_eq_ok.mp hmid
          cases hmd
          exact (hstart l rfl).merge hm
  exact key found none hall (fun d hd => by cases hd) h

theorem intersectCapabilityStates_le {states : List CapabilityState} {s : CapabilityState}
    (hs : s ∈ states) :
    (intersectCapabilityStates states).capabilities ⊆ s.capabilities ∧
      (intersectCapabilityStates states).parsedKeys ⊆ s.parsedKeys := by
  have key : ∀ (rest : List CapabilityState) (acc : CapabilityState),
      (∀ s, s = acc ∨ s ∈ rest →
        (rest.foldl (fun acc s => ⟨acc.capabilities ∩ s.capabilities,
          acc.parsedKeys ∩ s.parsedKeys⟩) acc).capabilities ⊆ s.capabilities ∧
        (rest.foldl (fun acc s => ⟨acc.capabilities ∩ s.capabilities,
          acc.parsedKeys ∩ s.parsedKeys⟩) acc).parsedKeys ⊆ s.parsedKeys) := by
    intro rest
    induction rest with
    | nil =>
      intro acc s hs
      rcases hs with rfl | hs
      · exact ⟨subset_rfl, subset_rfl⟩
      · cases hs
    | cons s₀ rest ih =>
      intro acc s hs
      rw [List.foldl_cons]
      have hhead := ih ⟨acc.capabilities ∩ s₀.capabilities, acc.parsedKeys ∩ s₀.parsedKeys⟩ _
        (.inl rfl)
      rcases hs with rfl | hs
      · exact ⟨hhead.1.trans Finset.inter_subset_left, hhead.2.trans Finset.inter_subset_left⟩
      · rcases List.mem_cons.mp hs with rfl | hs
        · exact ⟨hhead.1.trans Finset.inter_subset_right, hhead.2.trans Finset.inter_subset_right⟩
        · exact ih _ s (.inr hs)
  cases states with
  | nil => cases hs
  | cons first rest => exact key rest first s (List.mem_cons.mp hs)

/-- What the devices of an input are sure to carry; nothing is, without devices. -/
def InputHas (ctx : WorkflowContext) (c : Capability) : Prop :=
  ctx.devices.isEmpty = false ∧ ctx.providesCapability c = true

theorem Carries.inputHas {ctx : WorkflowContext} {state : CapabilityState} (h : Carries ctx state)
    (hne : ctx.devices.isEmpty = false) {c : Capability} (hc : c ∈ state.capabilities) :
    InputHas ctx c := by
  refine ⟨hne, List.all_eq_true.mpr fun d hd => ?_⟩
  obtain ⟨id, hid⟩ := Dict.mem_values_iff.mp hd
  exact decide_eq_true ((h id d hid).1 hc)

theorem Carries.providesParsedKey {ctx : WorkflowContext} {state : CapabilityState}
    (h : Carries ctx state) (hne : ctx.devices.isEmpty = false) {key : String}
    (hk : key ∈ state.parsedKeys) : ctx.providesParsedKey key = true := by
  rw [WorkflowContext.providesParsedKey, hne, Bool.not_false, Bool.true_and]
  refine List.all_eq_true.mpr fun d hd => ?_
  obtain ⟨id, hid⟩ := Dict.mem_values_iff.mp hd
  exact decide_eq_true ((h id d hid).2 key hk)

theorem preStepGuard_ok {plugin : PluginDefinition} {nodeId : String} {ctx : WorkflowContext}
    {input : CapabilityState} (hc : Carries ctx input)
    (hf : nodeFindings plugin nodeId input = []) :
    preStepGuard (capabilitySpecFromPlugin plugin) ctx = .ok () := by
  have hmissing : (∀ c ∈ plugin.requires, c ∈ input.capabilities) ∧
      ∀ key ∈ plugin.requiresParsed, key ∈ input.parsedKeys := by
    simpa [nodeFindings] using hf
  unfold preStepGuard
  split
  · rfl
  · rename_i hne
    have hne : ctx.devices.isEmpty = false := by simpa using hne
    have hreq : (capabilitySpecFromPlugin plugin).requires.filter
        (fun c => !ctx.providesCapability c) = [] := by
      refine List.filter_eq_nil_iff.mpr fun c hm => ?_
      have := (hc.inputHas hne (hmissing.1 c hm)).2
      simp [this]
    have hparsed : (capabilitySpecFromPlugin plugin).requiresParsed.filter
        (fun k => !ctx.providesParsedKey k) = [] := by
      refine List.filter_eq_nil_iff.mpr fun k hm => ?_
      have := hc.providesParsedKey hne (hmissing.2 k hm)
      simp [this]
    rw [hreq, hparsed]

theorem Carries.seed {ctx : WorkflowContext} {state : CapabilityState} (h : Carries ctx state)
    (runInputs : Dict Json) : Carries (seedRunInputBag ctx runInputs) state := by
  intro id device hd
  rw [seedRunInputBag_devices] at hd
  obtain ⟨d, hget, rfl⟩ := Option.map_eq_some_iff.mp hd
  have hcarries := h id d hget
  unfold seedDevice
  split <;> exact hcarries

theorem storedOutcomes_mem {outcomes : List StepOutcome} {name : String} {ctx : WorkflowContext}
    (h : (storedOutcomes outcomes).get? name = some ctx) :
    ∃ o ∈ outcomes, o.name = name ∧ o.context = ctx := by
  rw [storedOutcomes, Dict.get?_ofPairs] at h
  obtain ⟨l₁, l₂, hl, -⟩ := List.lookup_eq_some_iff.mp h
  have hm : (name, ctx) ∈ (outcomes.map fun o => (o.name, o.context)).reverse := by rw [hl]; simp
  obtain ⟨o, ho, he⟩ := List.mem_map.mp (List.mem_reverse.mp hm)
  rw [Prod.mk.injEq] at he
  exact ⟨o, ho, he⟩

end Meaning

section Contract

/-- A device that left a step by an outcome that is not of the failure class. -/
structure LeavesHealthy (plugin : PluginDefinition) (config : Dict Json) (input : WorkflowContext)
    (device : DeviceContext) : Prop where
  kept : ∀ c, InputHas input c → c ∉ plugin.consumes → c ∈ device.capabilities
  produced : ∀ c ∈ effectiveProduces (capabilitySpecFromPlugin plugin) plugin.id config,
    c ∈ device.capabilities
  parsed : ∀ key, input.providesParsedKey key = true ∨ key ∈ plugin.producesParsed →
    key ∈ device.parsed.keys

structure LeavesFailed (input : WorkflowContext) (device : DeviceContext) : Prop where
  kept : ∀ c, InputHas input c → c ∈ device.capabilities
  parsed : ∀ key, input.providesParsedKey key = true → key ∈ device.parsed.keys

/-- What a step promises about the devices it returns. A step that is fed by others returns no
device when none reaches it. -/
structure StepContract (plugin : PluginDefinition) (config : Dict Json) (fed : Prop)
    (input : WorkflowContext) (outcomes : List StepOutcome) : Prop where
  healthy : ∀ o ∈ outcomes, isFailureClassOutcome o.name = false →
    ∀ id device, o.context.devices.get? id = some device →
      LeavesHealthy plugin config input device
  failed : ∀ o ∈ outcomes, isFailureClassOutcome o.name = true →
    ∀ id device, o.context.devices.get? id = some device → LeavesFailed input device
  quiet : fed → input.devices.isEmpty = true → ∀ o ∈ outcomes, o.context.devices.isEmpty = true

variable {plugin : PluginDefinition} {config : Dict Json} {input : WorkflowContext}
  {state : CapabilityState} {device : DeviceContext}

theorem LeavesHealthy.carries (h : LeavesHealthy plugin config input device)
    (hc : Carries input state)
    (hne : input.devices.isEmpty = false ∨ state = emptyCapabilityState) :
    DeviceCarries device (successState plugin config state) := by
  constructor
  · intro c hm
    rcases Finset.mem_union.mp hm with hm | hm
    · obtain ⟨hs, hnot⟩ := Finset.mem_sdiff.mp hm
      rcases hne with hne | rfl
      · exact h.kept c (hc.inputHas hne hs) fun hk => hnot (List.mem_toFinset.mpr hk)
      · cases hs
    · exact h.produced c (List.mem_toFinset.mp hm)
  · intro key hm
    rcases Finset.mem_union.mp hm with hm | hm
    · rcases hne with hne | rfl
      · exact h.parsed key (.inl (hc.providesParsedKey hne hm))
      · cases hm
    · exact h.parsed key (.inr (List.mem_toFinset.mp hm))

theorem LeavesFailed.carries (h : LeavesFailed input device) (hc : Carries input state)
    (hne : input.devices.isEmpty = false ∨ state = emptyCapabilityState) :
    DeviceCarries device state := by
  rcases hne with hne | rfl
  · exact ⟨fun c hm => h.kept c (hc.inputHas hne hm),
      fun key hm => h.parsed key (hc.providesParsedKey hne hm)⟩
  · constructor
    · intro c hm
      cases hm
    · intro key hm
      cases hm

theorem StepContract.carries {fed : Prop} {outcomes : List StepOutcome}
    (h : StepContract plugin config fed input outcomes) (hc : Carries input state)
    (hfed : ¬ fed → state = emptyCapabilityState) {o : StepOutcome} (ho : o ∈ outcomes) :
    Carries o.context
      (if isFailureClassOutcome o.name then state else successState plugin config state) := by
  intro id device hd
  have hne : input.devices.isEmpty = false ∨ state = emptyCapabilityState := by
    by_cases hf : fed
    · left
      by_contra hempty
      have hnone := Dict.isEmpty_iff.mp (h.quiet hf (by simpa using hempty) o ho) id
      rw [hnone] at hd
      cases hd
    · exact .inr (hfed hf)
  split
  · rename_i hclass
    exact (h.failed o ho hclass id device hd).carries hc hne
  · rename_i hclass
    exact (h.healthy o ho (by simpa using hclass) id device hd).carries hc hne

end Contract

end Manus
