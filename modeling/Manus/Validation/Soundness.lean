import Manus.Lib.Returns
import Manus.Runner.Transparency
import Manus.Validation.CapabilityContract

/-! # Soundness of the capability flow

When the validator has no finding and every step keeps its contract, every
device that reaches a step of a plain walk carries what the validator computed
for it, so the guard before the step never raises.
-/

namespace Manus

universe u

section Walk

variable {m : Type → Type u} [Monad m] [LawfulMonad m] {runner : StepRunner m} {run : RunInfo}
  {edges : List CanvasEdge} {ordered : List CanvasNode} {flow : OutcomeState}

abbrev planEdges (ordered : List CanvasNode) (edges : List CanvasEdge) : List CanvasEdge :=
  liveEdges (ordered.map CanvasNode.id) edges

def Fed (ordered : List CanvasNode) (edges : List CanvasEdge) (nodeId : String) : Prop :=
  ∃ e ∈ planEdges ordered edges, e.target = nodeId

/-- Every executor of the plan that returns keeps the contract of its step. No device reaches a
step that is not fed. -/
def StepsKeepContract (runner : StepRunner m) (run : RunInfo) (ordered : List CanvasNode)
    (edges : List CanvasEdge) : Prop :=
  ∀ n ∈ ordered, ∀ plugin executor, runner.registry.getPlugin n.stepType = some plugin →
    runner.stepRegistry n.stepType = some executor → ∀ input : WorkflowContext,
    (¬ Fed ordered edges n.id → input.devices.isEmpty = true) →
    Returns (fun result => ∀ outcomes, result = .ok outcomes →
      StepContract plugin n.data.pluginConfig (Fed ordered edges n.id) input outcomes)
      (executor n.data.pluginConfig input run n.id)

def Stored (flow : OutcomeState) (nodeId : String) (outcomes : Dict WorkflowContext) : Prop :=
  ∀ name ctx, outcomes.get? name = some ctx →
    Carries ctx ((flow nodeId name).getD emptyCapabilityState)

def NodeRun.Sound (flow : OutcomeState) (nodeId : String) : NodeRun → Prop
  | .blocked => True
  | .ran outcomes _ => Stored flow nodeId outcomes
  | .raised e => ∀ g, e ≠ .preGuard g

structure FlowSound (ordered : List CanvasNode) (flow : OutcomeState) (st : WalkState) :
    Prop where
  stored : ∀ k outcomes, st.stepOutcomes.get? k = some outcomes →
    k ∈ ordered.map CanvasNode.id ∧ Stored flow k outcomes
  errors : ∀ p ∈ st.stepErrors, ∀ g, p.2 ≠ .preGuard g

theorem FlowSound.start : FlowSound ordered flow {} := by
  constructor
  · intro k outcomes h
    cases h
  · intro p hp
    cases hp

theorem FlowSound.absorb {st : WalkState} (h : FlowSound ordered flow st) {n : CanvasNode}
    (hn : n ∈ ordered) {r : NodeRun} (hr : r.Sound flow n.id) :
    FlowSound ordered flow (st.absorb n.id r) := by
  cases r with
  | blocked => exact ⟨h.stored, h.errors⟩
  | ran outcomes row =>
    refine ⟨fun k o hk => ?_, h.errors⟩
    simp only [WalkState.absorb, Dict.get?_insert] at hk
    split at hk
    · rename_i heq
      cases hk
      subst heq
      exact ⟨List.mem_map_of_mem hn, hr⟩
    · exact h.stored k o hk
  | raised e =>
    refine ⟨h.stored, fun p hp => ?_⟩
    rcases List.mem_append.mp hp with hp | hp
    · exact h.errors p hp
    · rw [List.mem_singleton.mp hp]
      exact hr

theorem FlowSound.absorbAll {st : WalkState} (h : FlowSound ordered flow st)
    {wave : List CanvasNode} (hwave : ∀ n ∈ wave, n ∈ ordered) {results : List NodeRun}
    (hr : List.Forall₂ (fun n (r : NodeRun) => r.Sound flow n.id) wave results) :
    FlowSound ordered flow (st.absorbAll (wave.zip results)) := by
  induction hr generalizing st with
  | nil => exact h
  | cons hhead _ ih =>
    exact ih (h.absorb (hwave _ List.mem_cons_self) hhead)
      fun n hn => hwave n (List.mem_cons_of_mem _ hn)

theorem FlowSound.arrives {st : WalkState} (h : FlowSound ordered flow st) {n : CanvasNode}
    (hn : n ∈ ordered) {id : String} {d : DeviceContext}
    (hd : some d ∈ arriving edges st.stepOutcomes n.id id) :
    ∃ e ∈ planEdges ordered edges, e.target = n.id ∧
      DeviceCarries d ((flow e.source e.outcomeName).getD emptyCapabilityState) := by
  obtain ⟨e, he, hdev⟩ := List.mem_map.mp hd
  obtain ⟨he, ht⟩ := List.mem_filter.mp he
  obtain ⟨c, hc, hget⟩ := Option.bind_eq_some_iff.mp hdev
  obtain ⟨outcomes, ho, hname⟩ := Option.bind_eq_some_iff.mp hc
  obtain ⟨hsource, hstored⟩ := h.stored _ _ ho
  have htarget : e.target = n.id := by simpa using ht
  exact ⟨e, mem_liveEdges.mpr ⟨he, hsource, htarget ▸ List.mem_map_of_mem hn⟩, htarget,
    hstored _ _ hname id d hget⟩

theorem FlowSound.input_not_fed {st : WalkState} (h : FlowSound ordered flow st) {n : CanvasNode}
    (hn : n ∈ ordered) {ctx : WorkflowContext}
    (hctx : assembleInputContext edges st.stepOutcomes run n.id = .ok ctx)
    (hfed : ¬ Fed ordered edges n.id) : ctx.devices.isEmpty = true := by
  refine Dict.isEmpty_iff.mpr fun id => ?_
  have hmerge := assembleInputContext_devices hctx id
  rw [mergeLookups_none fun o ho => ?_] at hmerge
  · exact (Except.ok.inj hmerge).symm
  · cases o with
    | none => rfl
    | some d =>
      obtain ⟨e, he, ht, -⟩ := h.arrives hn ho
      exact absurd ⟨e, he, ht⟩ hfed

theorem FlowSound.input {st : WalkState} (h : FlowSound ordered flow st) {n : CanvasNode}
    (hn : n ∈ ordered) {ctx : WorkflowContext}
    (hctx : assembleInputContext edges st.stepOutcomes run n.id = .ok ctx) :
    Carries ctx (inputState (planEdges ordered edges) flow n.id) := by
  intro id device hd
  have hmerge := assembleInputContext_devices hctx id
  rw [hd] at hmerge
  refine mergeLookups_carries hmerge fun d hm => ?_
  obtain ⟨e, he, ht, hcarries⟩ := h.arrives hn hm
  have hm : e ∈ (planEdges ordered edges).filter fun e => e.target == n.id :=
    List.mem_filter.mpr ⟨he, by simpa using ht⟩
  obtain ⟨hcap, hparsed⟩ := intersectCapabilityStates_le
    (List.mem_map_of_mem (f := fun e => (flow e.source e.outcomeName).getD emptyCapabilityState) hm)
  exact ⟨hcap.trans hcarries.1, fun key hk => hcarries.2 key (hparsed hk)⟩

theorem inputState_not_fed {n : CanvasNode} (h : ¬ Fed ordered edges n.id) :
    inputState (planEdges ordered edges) flow n.id = emptyCapabilityState := by
  have hnil : (planEdges ordered edges).filter (fun e => e.target == n.id) = [] := by
    refine List.filter_eq_nil_iff.mpr fun e he ht => h ⟨e, he, by simpa using ht⟩
  rw [inputState, hnil]
  rfl

theorem Carries.empty (ctx : WorkflowContext) : Carries ctx emptyCapabilityState := by
  intro id device _
  constructor
  · intro c hc
    cases hc
  · intro key hk
    cases hk

/-- A step between its guards: the first one passes and the outcomes carry their states. -/
theorem executeStep_sound
    (hflow : FlowSolved runner.registry (planEdges ordered edges) ordered flow [])
    (hkeep : StepsKeepContract runner run ordered edges) {n : CanvasNode} (hn : n ∈ ordered)
    {ctx : WorkflowContext} (hc : Carries ctx (inputState (planEdges ordered edges) flow n.id))
    (hfed : ¬ Fed ordered edges n.id → ctx.devices.isEmpty = true) :
    Returns (fun r => (∀ g, r ≠ .error (.preGuard g)) ∧
        ∀ outcomes, r = .ok outcomes → Stored flow n.id (storedOutcomes outcomes))
      (executeStep runner run n ctx) := by
  unfold executeStep
  cases hx : runner.stepRegistry n.stepType with
  | none => exact .pure ⟨fun _ h => (by cases h), fun _ h => (by cases h)⟩
  | some executor =>
    cases hp : runner.registry.getPlugin n.stepType with
    | none => exact .pure ⟨fun _ h => (by cases h), fun _ h => (by cases h)⟩
    | some plugin =>
      have hkind := @getPlugin_stepType runner.registry n ▸ hp
      simp only [preStepGuard_ok hc (hflow.findings rfl n hn plugin hkind)]
      refine (hkeep n hn plugin executor hp hx ctx hfed).bind fun result hresult => .pure ⟨?_, ?_⟩
      · intro g
        unfold checkOutcomes
        split
        · simp
        · simp
        · split <;> simp
      · intro outcomes ho name stored hget
        have hok : result = .ok outcomes := by
          unfold checkOutcomes at ho
          split at ho
          · cases ho
          · cases ho
          · split at ho
            · cases ho
            · cases ho
              rfl
        have hcontract := hresult outcomes hok
        obtain ⟨o, ho, rfl, rfl⟩ := storedOutcomes_mem hget
        rw [hflow.states n hn plugin hkind]
        split
        · exact hcontract.carries hc inputState_not_fed ho
        · exact Carries.empty _

theorem produceOutcomes_sound
    (hflow : FlowSolved runner.registry (planEdges ordered edges) ordered flow [])
    (hkeep : StepsKeepContract runner run ordered edges) {st : WalkState}
    (hst : FlowSound ordered flow st) {n : CanvasNode} (hn : n ∈ ordered) :
    Returns (fun r => (∀ g, r ≠ .error (.preGuard g)) ∧
        ∀ outcomes, r = .ok outcomes → Stored flow n.id (storedOutcomes outcomes))
      (produceOutcomes runner run edges st.stepOutcomes n) := by
  unfold produceOutcomes
  cases hctx : assembleInputContext edges st.stepOutcomes run n.id with
  | error message => exact .pure ⟨fun _ h => (by cases h), fun _ h => (by cases h)⟩
  | ok ctx =>
    refine (executeStep_sound hflow hkeep hn (hst.input hn hctx)
      (hst.input_not_fed hn hctx)).bind fun r hr => .pure ?_
    cases r with
    | error e => exact ⟨fun g h => hr.1 g (by cases h; rfl), fun _ h => (by cases h)⟩
    | ok outcomes =>
      refine ⟨fun _ h => (by cases h), fun seeded h name c hget => ?_⟩
      cases h
      rw [storedOutcomes_seed] at hget
      obtain ⟨c₀, hc₀, rfl⟩ := Option.map_eq_some_iff.mp hget
      exact (hr.2 outcomes rfl name c₀ hc₀).seed run.runInputs

theorem runNodeInSequence_sound
    (hflow : FlowSolved runner.registry (planEdges ordered edges) ordered flow [])
    (hkeep : StepsKeepContract runner run ordered edges) {st : WalkState}
    (hst : FlowSound ordered flow st) {n : CanvasNode} (hn : n ∈ ordered) :
    Returns (NodeRun.Sound flow n.id) (runNodeInSequence runner run edges st n) := by
  unfold runNodeInSequence
  split
  · exact .bind_any fun _ => .pure trivial
  · refine .bind_any fun _ => (produceOutcomes_sound hflow hkeep hst hn).bind fun r hr => ?_
    cases r with
    | ok outcomes => exact .bind_any fun _ => .pure (hr.2 outcomes rfl)
    | error e => exact .bind_any fun _ => .pure fun g h => hr.1 g (by rw [h])

theorem runWave_sound (hgather : Gathers (m := m) runner.gather)
    (hflow : FlowSolved runner.registry (planEdges ordered edges) ordered flow [])
    (hkeep : StepsKeepContract runner run ordered edges) {st : WalkState}
    (hst : FlowSound ordered flow st) {wave : List CanvasNode} (hwave : ∀ n ∈ wave, n ∈ ordered) :
    Returns (FlowSound ordered flow) (runWave runner run edges st wave) := by
  refine (hgather _ _ wave (runNodeInSequence runner run edges st)
    (fun n => NodeRun.Sound flow n.id) fun n hn => ?_).bind fun results hr => .pure ?_
  · exact runNodeInSequence_sound hflow hkeep hst (hwave n hn)
  · exact hst.absorbAll hwave hr

theorem walkWaves_sound {β : Type} {handOver : WalkState → List CanvasNode → Option β}
    (hgather : Gathers (m := m) runner.gather)
    (hflow : FlowSolved runner.registry (planEdges ordered edges) ordered flow [])
    (hkeep : StepsKeepContract runner run ordered edges) {waves : List (List CanvasNode)}
    (hwaves : ∀ n ∈ waves.flatten, n ∈ ordered) {st : WalkState}
    (hst : FlowSound ordered flow st) :
    Returns (fun r => FlowSound ordered flow r.1)
      (walkWaves runner run edges handOver waves st) := by
  induction waves generalizing st with
  | nil => exact .pure hst
  | cons wave waves ih =>
    have hrest : ∀ n ∈ waves.flatten, n ∈ ordered := fun n hn =>
      hwaves n (List.mem_append_right _ hn)
    unfold walkWaves
    refine .bind_any fun cancelled => ?_
    split
    · exact .bind_any fun _ => ih hrest ⟨hst.stored, hst.errors⟩
    · refine (runWave_sound hgather hflow hkeep hst fun n hn =>
        hwaves n (List.mem_append_left _ hn)).bind fun st' hst' => ?_
      split
      · exact ih hrest hst'
      · split
        · exact .pure hst'
        · exact ih hrest hst'

end Walk

section Soundness

variable {registry : PluginRegistry} {canvas : Canvas}

/-- Without a finding the plan exists and the states solve the flow equations over it. -/
theorem tier3CapabilityFlow_clean (h : tier3CapabilityFlow registry canvas = []) :
    ∃ graph ordered flow, loadExecutionGraph canvas = .ok graph ∧
      topologicalSort registry graph = .ok ordered ∧
      FlowSolved registry (planEdges ordered graph.edges) ordered flow [] := by
  unfold tier3CapabilityFlow at h
  cases hg : loadExecutionGraph canvas with
  | error e =>
    simp only [hg] at h
    cases h
  | ok graph =>
    simp only [hg, validatorGraph_eq hg] at h
    cases hs : topologicalSort registry graph with
    | error e =>
      simp only [topologicalSort] at hs
      simp only [hs] at h
      cases h
    | ok ordered =>
      obtain ⟨hsort, hids, -⟩ := topologicalSort_spec hs
      have hedges : (filterExecutableGraph registry graph).edges =
          planEdges ordered graph.edges := by
        have hsame : ∀ x, x ∈ (graph.nodes.filter (isExecutableNode registry)).map CanvasNode.id ↔
            x ∈ ordered.map CanvasNode.id := by
          intro x
          rw [hids]
          simp [and_assoc]
        simp only [filterExecutableGraph, planEdges, liveEdges, hsame]
      have hplan : Sorted ordered (planEdges ordered graph.edges) :=
        ⟨hsort.nodup, hsort.order.mono fun v _ p hp =>
          hp.mono (fun x hx => hx) fun e he _ _ => (mem_liveEdges.mp he).1⟩
      have hsolved := @visit_solved registry _ _ hplan fun e he => (mem_liveEdges.mp he).2
      have horder := hs
      unfold topologicalSort at horder
      simp only [horder] at h
      rw [hedges] at h
      rw [h] at hsolved
      exact ⟨graph, ordered, _, rfl, hs, hsolved⟩

variable {m : Type → Type u} [Monad m] [LawfulMonad m] {runner : StepRunner m} {run : RunInfo}

def CanvasKeepsContract (runner : StepRunner m) (run : RunInfo) (canvas : Canvas) : Prop :=
  ∀ graph ordered, loadExecutionGraph canvas = .ok graph →
    topologicalSort runner.registry graph = .ok ordered →
    StepsKeepContract runner run ordered graph.edges

/-- A walk that was not refused and in which no guard raised before a step. -/
def WalkEnd.NoPreGuard : WalkEnd → Prop
  | .refused _ => False
  | .finished st => ∀ p ∈ st.stepErrors, ∀ g, p.2 ≠ .preGuard g
  | _ => True

/-- The capability flow is sound: on a canvas without findings the plan of the walk exists and no
guard raises before a step, whatever the surroundings of the walk do. -/
theorem tier3CapabilityFlow_sound (hgather : Gathers (m := m) runner.gather)
    (h : tier3CapabilityFlow runner.registry canvas = [])
    (hkeep : CanvasKeepsContract runner run canvas) :
    Returns WalkEnd.NoPreGuard (executeAll runner run canvas) := by
  obtain ⟨graph, ordered, flow, hg, hs, hflow⟩ := tier3CapabilityFlow_clean h
  obtain ⟨waves, depth, hw, hwaves⟩ := topologicalGenerations_spec (topologicalSort_spec hs).1
  unfold executeAll
  simp only [hg, hs]
  refine .bind_any fun existing => ?_
  split
  · exact .pure trivial
  · refine .bind_any fun created => ?_
    split
    · unfold walkGraph
      refine (walkWaves_sound hgather hflow (hkeep graph ordered hg hs) (fun n hn => ?_)
        FlowSound.start).bind fun r hr => ?_
      · rw [generations, hw] at hn
        exact hwaves.mem_flatten.mp hn
      · obtain ⟨st, signal⟩ := r
        cases signal with
        | some signal => exact .pure trivial
        | none => exact .pure hr.errors
    · exact .pure trivial

end Soundness

section Examples

theorem LeavesFailed.same {input : WorkflowContext} {id : String} {device : DeviceContext}
    (h : input.devices.get? id = some device) : LeavesFailed input device := by
  have hv := Dict.mem_values_iff.mpr ⟨id, h⟩
  constructor
  · intro c hc
    exact of_decide_eq_true (List.all_eq_true.mp hc.2 device hv)
  · intro key hk
    exact of_decide_eq_true (List.all_eq_true.mp (Bool.and_eq_true_iff.mp hk).2 device hv)

theorem LeavesHealthy.of_empty {plugin : PluginDefinition} {config : Dict Json}
    {input : WorkflowContext} {device : DeviceContext} (h : input.devices.isEmpty = true)
    (hp : ∀ c ∈ effectiveProduces (capabilitySpecFromPlugin plugin) plugin.id config,
      c ∈ device.capabilities) (hk : plugin.producesParsed = []) :
    LeavesHealthy plugin config input device := by
  constructor
  · intro c hc
    have hne := hc.1
    rw [h] at hne
    cases hne
  · exact hp
  · intro key hkey
    rw [WorkflowContext.providesParsedKey, h, hk] at hkey
    rcases hkey with hkey | hkey <;> cases hkey

def flowRegistry : PluginRegistry where
  plugins := [
    { id := "label", executable := false }, { id := "background", executable := false },
    { id := "funnel", executable := false }, { id := "step-group", executable := false },
    { id := "get-from-list", produces := [.identity], outcomes := ["success"] },
    { id := "render-jinja-template", requires := [.identity], produces := [.parsed],
      outcomes := ["success", "failure"] },
    { id := "config-to-attributes", requires := [.identity, .parsed], produces := [.attributes],
      outcomes := ["success", "failure"] }]
  unique := by decide
  allEnabled := by decide
  executable_iff := by decide
  declared := by decide
  named := by decide

def addListed : Executor Id := fun _ ctx _ _ =>
  .ok [⟨"success", { ctx with devices := ctx.devices.insert "d1" (listedDevice "d1") }⟩]

/-- Every device leaves by `success` with one more capability, or as it came by `failure`. -/
def addOrFail (added : Capability) : Executor Id := fun config ctx _ _ =>
  if "fails" ∈ config.keys then .ok [⟨"success", { ctx with devices := ∅ }⟩, ⟨"failure", ctx⟩]
  else
    let enriched := ctx.devices.mapValues fun d =>
      { d with capabilities := insert added d.capabilities }
    .ok [⟨"success", { ctx with devices := enriched }⟩, ⟨"failure", { ctx with devices := ∅ }⟩]

def flowExecutors : Executors := fun stepType =>
  if stepType = "get-from-list" then some addListed
  else if stepType = "render-jinja-template" then some (addOrFail .parsed)
  else if stepType = "config-to-attributes" then some (addOrFail .attributes)
  else none

def renderedFlow : Canvas where
  nodes := [⟨"A", { kind := some "get-from-list" }⟩,
    ⟨"B", { kind := some "render-jinja-template" }⟩,
    ⟨"D", { kind := some "config-to-attributes" }⟩]
  edges := [{ source := "A", target := "B" }, { source := "B", target := "D" }]

def failingConfig : Dict Json := Dict.ofPairs [("fails", .bool true)]

def relistedFlow : Canvas where
  nodes := [⟨"A", { kind := some "get-from-list" }⟩,
    ⟨"B", { kind := some "render-jinja-template", pluginConfig := failingConfig }⟩,
    ⟨"C", { kind := some "get-from-list" }⟩, ⟨"D", { kind := some "config-to-attributes" }⟩]
  edges := [{ source := "A", target := "B" }, { source := "B", target := "C" },
    { source := "C", target := "D" }]

/-- Every executor that was called in the run kept the contract of its step on its input. -/
def RunKeepsContract (registry : PluginRegistry) (executors : Executors) (run : RunInfo)
    (canvas : Canvas) (st : WalkState) : Prop :=
  ∀ n ∈ canvas.nodes, n.id ∈ st.stepOutcomes.keys → ∀ plugin executor input outcomes,
    registry.getPlugin n.stepType = some plugin → executors n.stepType = some executor →
    assembleInputContext canvas.edges st.stepOutcomes run n.id = .ok input →
    executor n.data.pluginConfig input run n.id = .ok outcomes →
    StepContract plugin n.data.pluginConfig False input outcomes

theorem addListed_contract {plugin : PluginDefinition} {config : Dict Json} {fed : Prop}
    {run : RunInfo} {nodeId : String} {input : WorkflowContext} {outcomes : List StepOutcome}
    (hinput : input.devices.isEmpty = true) (hfed : ¬ fed)
    (hp : effectiveProduces (capabilitySpecFromPlugin plugin) plugin.id config = [.identity])
    (hk : plugin.producesParsed = []) (h : addListed config input run nodeId = .ok outcomes) :
    StepContract plugin config fed input outcomes := by
  obtain rfl := Except.ok.inj h
  have hname : isFailureClassOutcome "success" = false := by decide
  constructor
  · intro o ho _ id device hd
    rw [List.mem_singleton.mp ho] at hd
    refine .of_empty hinput (fun c hc => ?_) hk
    rw [hp, List.mem_singleton] at hc
    simp only [Dict.get?_insert, Dict.isEmpty_iff.mp hinput] at hd
    split at hd
    · cases hd
      rw [hc]
      decide
    · cases hd
  · intro o ho hclass
    rw [List.mem_singleton.mp ho, hname] at hclass
    cases hclass
  · intro hf
    exact absurd hf hfed

theorem addOrFail_contract_failing {plugin : PluginDefinition} {config : Dict Json} {fed : Prop}
    {run : RunInfo} {nodeId : String} {added : Capability} {input : WorkflowContext}
    {outcomes : List StepOutcome} (hfails : "fails" ∈ config.keys)
    (h : addOrFail added config input run nodeId = .ok outcomes) :
    StepContract plugin config fed input outcomes := by
  rw [addOrFail, if_pos hfails] at h
  obtain rfl := Except.ok.inj h
  have hfailure : isFailureClassOutcome "failure" = true := by decide
  constructor
  · intro o ho hclass id device hd
    rcases List.mem_cons.mp ho with rfl | ho
    · cases hd
    · rw [List.mem_singleton.mp ho, hfailure] at hclass
      cases hclass
  · intro o ho _ id device hd
    rcases List.mem_cons.mp ho with rfl | ho
    · cases hd
    · rw [List.mem_singleton.mp ho] at hd
      exact .same hd
  · intro _ hempty o ho
    rcases List.mem_cons.mp ho with rfl | ho
    · rfl
    · rw [List.mem_singleton.mp ho]
      exact hempty

/-- A step that enriches every device keeps its contract. -/
theorem addOrFail_contract {plugin : PluginDefinition} {config : Dict Json} {fed : Prop}
    {run : RunInfo} {nodeId : String} {added : Capability} {input : WorkflowContext}
    {outcomes : List StepOutcome} (hfails : "fails" ∉ config.keys)
    (hp : effectiveProduces (capabilitySpecFromPlugin plugin) plugin.id config = [added])
    (hk : plugin.producesParsed = [])
    (h : addOrFail added config input run nodeId = .ok outcomes) :
    StepContract plugin config fed input outcomes := by
  rw [addOrFail, if_neg hfails] at h
  obtain rfl := Except.ok.inj h
  have hsuccess : isFailureClassOutcome "success" = false := by decide
  constructor
  · intro o ho hclass id device hd
    rcases List.mem_cons.mp ho with rfl | ho
    · rw [Dict.get?_mapValues] at hd
      obtain ⟨d, hget, rfl⟩ := Option.map_eq_some_iff.mp hd
      have hsame := LeavesFailed.same hget
      refine ⟨fun c hc _ => Finset.mem_insert_of_mem (hsame.kept c hc), fun c hc => ?_,
        fun key hkey => ?_⟩
      · rw [hp, List.mem_singleton] at hc
        rw [hc]
        exact Finset.mem_insert_self _ _
      · rw [hk] at hkey
        rcases hkey with hkey | hkey
        · exact hsame.parsed key hkey
        · cases hkey
    · rw [List.mem_singleton.mp ho] at hd
      cases hd
  · intro o ho hclass id device hd
    rcases List.mem_cons.mp ho with rfl | ho
    · rw [hsuccess] at hclass
      cases hclass
    · rw [List.mem_singleton.mp ho] at hd
      cases hd
  · intro _ hempty o ho
    rcases List.mem_cons.mp ho with rfl | ho
    · refine Dict.isEmpty_iff.mpr fun k => ?_
      rw [Dict.get?_mapValues, Dict.isEmpty_iff.mp hempty]
      rfl
    · rw [List.mem_singleton.mp ho]
      rfl

/-- When the template step loses every device, the second list starts from nothing, and the guard
raises before the last step although the validator found nothing. -/
theorem relistedFlow_raises :
    tier3CapabilityFlow flowRegistry relistedFlow = [] ∧
    ∃ st, executeAll (pureRunner flowRegistry flowExecutors) demoRun relistedFlow = .finished st ∧
      RunKeepsContract flowRegistry flowExecutors demoRun relistedFlow st ∧
      ("D", .preGuard (.missingCapabilities "config-to-attributes" [.parsed])) ∈ st.stepErrors := by
  refine ⟨by decide, _, rfl, ?_, by decide⟩
  intro n hn hran plugin executor input outcomes hp hx hinput hout
  simp only [relistedFlow, List.mem_cons, List.not_mem_nil, or_false] at hn
  rcases hn with rfl | rfl | rfl | rfl
  · obtain rfl := Option.some.inj hp
    obtain rfl := Option.some.inj hx
    obtain rfl := Except.ok.inj hinput
    exact addListed_contract rfl not_false rfl rfl hout
  · obtain rfl := Option.some.inj hx
    exact addOrFail_contract_failing (by decide) hout
  · obtain rfl := Option.some.inj hp
    obtain rfl := Option.some.inj hx
    obtain rfl := Except.ok.inj hinput
    exact addListed_contract rfl not_false rfl rfl hout
  · exact absurd hran (by decide)

theorem gathers_pure : Gathers (m := Id) fun runs => runs := by
  intro ι α l f p h
  refine Returns.id_iff.mpr ?_
  induction l with
  | nil => exact .nil
  | cons i l ih =>
    exact .cons (Returns.id_iff.mp (h i List.mem_cons_self))
      (ih fun j hj => h j (List.mem_cons_of_mem _ hj))

/-- A canvas on which every step keeps its contract. -/
theorem renderedFlow_sound :
    WalkEnd.NoPreGuard
      (executeAll (pureRunner flowRegistry flowExecutors) demoRun renderedFlow) := by
  refine Returns.id_iff.mp (tier3CapabilityFlow_sound gathers_pure (by decide) ?_)
  intro graph ordered hg hs n hn plugin executor hp hx input hempty
  obtain rfl := Except.ok.inj hg
  obtain rfl := Except.ok.inj hs
  refine Returns.id_iff.mpr fun outcomes hout => ?_
  replace hn : n ∈ renderedFlow.nodes := hn
  simp only [renderedFlow, List.mem_cons, List.not_mem_nil, or_false] at hn
  rcases hn with rfl | rfl | rfl
  · have hfed : ¬ Fed renderedFlow.nodes renderedFlow.edges "A" := by
      rintro ⟨e, he, ht⟩
      revert e
      decide
    obtain rfl := Option.some.inj hp
    obtain rfl := Option.some.inj hx
    exact addListed_contract (hempty hfed) hfed rfl rfl hout
  · obtain rfl := Option.some.inj hp
    obtain rfl := Option.some.inj hx
    exact addOrFail_contract (by decide) rfl rfl hout
  · obtain rfl := Option.some.inj hp
    obtain rfl := Option.some.inj hx
    exact addOrFail_contract (by decide) rfl rfl hout

end Examples

end Manus
