import Manus.Runner.Settled
import Manus.Canvas.FanOutTopology

/-! # Transparency of fan-out

For steps that treat every device on its own, running the branch below a
fan-out step group by group and merging the results gives each node the devices
that the plain walk gives it, unless they hold a secret that a child masks.
-/

namespace Manus

/-- What of a routed device leaves by the given outcome. -/
def leavesBy (name : String) (routed : Option (String × DeviceContext)) : Option DeviceContext :=
  routed.bind fun r => if r.1 = name then some r.2 else none

/-- The executor never raises, answers every input, and sends each device where `route` sends it
on its own. -/
def RoutesBy (executor : Executor Id) (run : RunInfo) (node : CanvasNode)
    (route : DeviceContext → Option (String × DeviceContext)) : Prop :=
  ∀ ctx, ∃ outcomes, executor node.data.pluginConfig ctx run node.id = .ok outcomes ∧
    outcomes ≠ [] ∧
    ∀ name deviceId, ((storedOutcomes outcomes).get? name).bind
        (fun c => c.devices.get? deviceId) =
      (ctx.devices.get? deviceId).bind fun d => leavesBy name (route d)

/-- An executor whose result is computed device by device. -/
def DeviceLocal (executor : Executor Id) (run : RunInfo) (node : CanvasNode) : Prop :=
  ∃ route, RoutesBy executor run node route

section Equation

variable {registry : PluginRegistry} {executors : Executors} {run : RunInfo}
  {edges : List CanvasEdge} {so : StepOutcomes}

theorem executeStep_ok {node : CanvasNode} {ctx : WorkflowContext} {outcomes : List StepOutcome}
    (h : executeStep (pureRunner registry executors) run node ctx = .ok outcomes) :
    ∃ executor, executors node.stepType = some executor ∧
      executor node.data.pluginConfig ctx run node.id = .ok outcomes := by
  unfold executeStep at h
  split at h
  · cases h
  · rename_i executor hex
    refine ⟨executor, hex, ?_⟩
    split at h
    · cases h
    · dsimp only at h
      split at h
      · cases h
      · rename_i plugin hp hpre
        change checkOutcomes _ node ctx (executor node.data.pluginConfig ctx run node.id) = _ at h
        unfold checkOutcomes at h
        split at h
        · cases h
        · cases h
        · rename_i outs _ hres
          split at h
          · cases h
          · cases h
            exact hres

theorem produceOutcomes_ok {node : CanvasNode} {outcomes : List StepOutcome}
    (h : produceOutcomes (pureRunner registry executors) run edges so node = .ok outcomes) :
    ∃ ctx executor outs, assembleInputContext edges so run node.id = .ok ctx ∧
      executors node.stepType = some executor ∧
      executor node.data.pluginConfig ctx run node.id = .ok outs ∧
      outcomes = seedRunInputs run outs := by
  unfold produceOutcomes at h
  split at h
  · cases h
  · rename_i ctx hctx
    obtain ⟨outs, hstep, rfl⟩ := map_eq_ok.mp h
    obtain ⟨executor, hex, hrun⟩ := executeStep_ok hstep
    exact ⟨ctx, executor, outs, hctx, hex, hrun, rfl⟩

theorem arriving_of_blocked {blockedNodes : List String} {nodeId : String}
    (hb : blockedByUpstreamFailure edges so blockedNodes nodeId = true)
    (hnone : ∀ k ∈ blockedNodes, so.get? k = none) (id : String) :
    ∀ o ∈ arriving edges so nodeId id, o = none := by
  simp only [blockedByUpstreamFailure, Bool.and_eq_true, Bool.not_eq_true', List.any_eq_false] at hb
  intro o ho
  obtain ⟨e, he, rfl⟩ := List.mem_map.mp ho
  by_cases hs : e.source ∈ blockedNodes
  · simp [StepOutcomes.device?, StepOutcomes.at?, hnone _ hs]
  · have hd := hb.2 e he
    unfold StepOutcomes.device?
    cases hat : so.at? e.source e.outcomeName with
    | none => rfl
    | some c =>
      simp [deliversDevices, hs, hat] at hd
      exact Dict.isEmpty_iff.mp hd id

/-- In a settled walk the devices of a device-local node follow from what arrives there. -/
theorem holds_device? {flag : List StepOutcome → Bool} {st : WalkState} {node : CanvasNode}
    {route : DeviceContext → Option (String × DeviceContext)}
    (h : Holds st node.id (nodeResult registry executors run edges flag st node))
    (hf : st.failed = false) (hnone : ∀ k ∈ st.blockedNodes, st.stepOutcomes.get? k = none)
    (hroute : ∀ executor, executors node.stepType = some executor →
      RoutesBy executor run node route) (id : String) :
    ∃ found, mergeLookups (arriving edges st.stepOutcomes node.id id) = .ok found ∧
      ∀ name, st.stepOutcomes.device? node.id name id =
        (found.bind fun d => leavesBy name (route d)).map (seedDevice run.runInputs) := by
  by_cases hb : nodeBlocked (pureRunner registry executors) edges st node = true
  · rw [nodeResult, if_pos hb] at h
    simp only [nodeBlocked, Bool.and_eq_true] at hb
    refine ⟨none, mergeLookups_none (arriving_of_blocked hb.2 hnone id), fun name => ?_⟩
    simp [StepOutcomes.device?, StepOutcomes.at?, h.2]
  · rw [nodeResult, if_neg hb] at h
    cases hp : produceOutcomes (pureRunner registry executors) run edges st.stepOutcomes node with
    | error e =>
      simp only [hp] at h
      rw [Holds, hf] at h
      cases h
    | ok outcomes =>
      simp only [hp] at h
      obtain ⟨ctx, executor, outs, hctx, hex, hrun, rfl⟩ := produceOutcomes_ok hp
      refine ⟨ctx.devices.get? id, assembleInputContext_devices hctx id, fun name => ?_⟩
      obtain ⟨outs', hrun', -, hdev⟩ := hroute executor hex ctx
      rw [hrun, Except.ok.injEq] at hrun'
      subst hrun'
      have hd := congrArg (Option.map (seedDevice run.runInputs)) (hdev name id)
      rw [← hd]
      simp only [StepOutcomes.device?, StepOutcomes.at?, h.2, Option.bind_some,
        storedOutcomes_seed, Option.bind_map, Function.comp_def, seedRunInputBag_devices,
        Option.map_bind]

end Equation

section Comparison

variable {registry : PluginRegistry} {executors executors' : Executors} {run : RunInfo}
  {edges : List CanvasEdge} {nodes nodes' ordered : List CanvasNode}
  {start start' st st' : WalkState} {flag flag' : List StepOutcome → Bool}

theorem Settled.blocked_none {f : WalkState → CanvasNode → NodeRun}
    (h : Settled f nodes start st) (hs : start.blockedNodes = []) :
    ∀ k ∈ st.blockedNodes, st.stepOutcomes.get? k = none := by
  intro k hk
  by_cases hmem : k ∈ nodes.map CanvasNode.id
  · obtain ⟨n, hn, rfl⟩ := List.mem_map.mp hmem
    have hholds := h.holds n hn
    cases hr : f st n with
    | blocked => rw [hr] at hholds; exact hholds.2
    | ran outcomes row => rw [hr] at hholds; exact absurd hk hholds.1
    | raised e => rw [hr, Holds, h.failed] at hholds; cases hholds
  · have := (h.frame k hmem).2.mpr hk
    rw [hs] at this
    cases this

/-- Two walks over a common branch that agree on a device where the branch begins, or one of which
has lost it there, do so in the whole branch. -/
theorem branch_device? {branch : List String} {id : String} (p : Prop) [Decidable p]
    (hsorted : Sorted ordered edges)
    (h : Settled (nodeResult registry executors run edges flag) nodes start st)
    (h' : Settled (nodeResult registry executors' run edges flag') nodes' start' st')
    (hs : start.blockedNodes = []) (hs' : start'.blockedNodes = [])
    (hnodes : ∀ n ∈ ordered, n.id ∈ branch → n ∈ nodes ∧ n ∈ nodes')
    (hlocal : ∀ n ∈ ordered, n.id ∈ branch → ∃ route,
      (∀ executor, executors n.stepType = some executor → RoutesBy executor run n route) ∧
        ∀ executor, executors' n.stepType = some executor → RoutesBy executor run n route)
    (hsource : ∀ n ∈ ordered, n.id ∈ branch → ∀ e ∈ edges, e.target = n.id →
      (e.source ∈ branch ∧ e.source ∈ ordered.map CanvasNode.id) ∨
        ∀ name, st'.stepOutcomes.device? e.source name id =
          if p then st.stepOutcomes.device? e.source name id else none) :
    ∀ n ∈ ordered, n.id ∈ branch → ∀ name, st'.stepOutcomes.device? n.id name id =
      if p then st.stepOutcomes.device? n.id name id else none := by
  obtain ⟨waves, depth, -, hwaves⟩ := topologicalGenerations_spec hsorted
  have hdepth : ∀ n ∈ ordered, ∃ d, depth n.id = some d := fun n hn =>
    Option.isSome_iff_exists.mp ((hwaves.dom n.id).mpr (List.mem_map_of_mem hn))
  have key : ∀ d, ∀ n ∈ ordered, depth n.id = some d → n.id ∈ branch →
      ∀ name, st'.stepOutcomes.device? n.id name id =
        if p then st.stepOutcomes.device? n.id name id else none := by
    intro d
    induction d using Nat.strong_induction_on with
    | _ d ih =>
      intro n hn hd hb name
      obtain ⟨hn₁, hn₂⟩ := hnodes n hn hb
      have harrive : ∀ e ∈ edges.filter (fun e => e.target == n.id),
          st'.stepOutcomes.device? e.source e.outcomeName id =
            if p then st.stepOutcomes.device? e.source e.outcomeName id else none := by
        intro e he
        obtain ⟨hm, ht⟩ := List.mem_filter.mp he
        have ht : e.target = n.id := by simpa using ht
        rcases hsource n hn hb e hm ht with ⟨hsb, hso⟩ | hout
        · obtain ⟨m, hmo, hid⟩ := List.mem_map.mp hso
          obtain ⟨ds, dn, hds, hdn, hlt⟩ := hwaves.below e.source n.id
            ⟨e, hm, rfl, ht, hso, List.mem_map_of_mem hn⟩
          rw [hd, Option.some.injEq] at hdn
          rw [← hid] at hds hsb ⊢
          exact ih ds (by omega) m hmo hds hsb e.outcomeName
        · exact hout e.outcomeName
      obtain ⟨route, hroute, hroute'⟩ := hlocal n hn hb
      obtain ⟨found, hfound, hdev⟩ := holds_device? (h.holds n hn₁) h.failed
        (h.blocked_none hs) hroute id
      obtain ⟨found', hfound', hdev'⟩ := holds_device? (h'.holds n hn₂) h'.failed
        (h'.blocked_none hs') hroute' id
      rw [hdev, hdev']
      by_cases hp : p
      · have heq :
            arriving edges st'.stepOutcomes n.id id = arriving edges st.stepOutcomes n.id id :=
          List.map_congr_left fun e he => by rw [harrive e he, if_pos hp]
        rw [heq, hfound, Except.ok.injEq] at hfound'
        rw [if_pos hp, hfound']
      · have hnone : ∀ o ∈ arriving edges st'.stepOutcomes n.id id, o = none := by
          intro o ho
          obtain ⟨e, he, rfl⟩ := List.mem_map.mp ho
          rw [harrive e he, if_neg hp]
        rw [mergeLookups_none hnone, Except.ok.injEq] at hfound'
        rw [if_neg hp, ← hfound']
        rfl
  intro n hn hb name
  obtain ⟨d, hd⟩ := hdepth n hn
  exact key d n hn hd hb name

end Comparison

section Groups

variable {signal : FanOutSignal} {plan : FanOutDispatchPlan}

theorem mem_groups (h : parseFanOutDispatch signal = .ok plan) {id : String} :
    (∃ g ∈ plan.groups, id ∈ g) ↔ id ∈ signal.inventoryOutcome.devices.keys := by
  rw [← groups_flatten h, List.mem_flatten]

end Groups

section Aggregation

variable {signal : FanOutSignal} {graph : Canvas} {results : List StepOutcomes}

theorem foldl_collect (pairs : List (String × WorkflowContext))
    (acc : Dict (List WorkflowContext)) (name : String) :
    ((pairs.foldl (fun acc p => acc.insert p.1 ((acc.get? p.1).getD [] ++ [p.2])) acc).get?
      name).getD [] = (acc.get? name).getD [] ++ (pairs.filter (·.1 == name)).map Prod.snd := by
  induction pairs generalizing acc with
  | nil => simp
  | cons p pairs ih =>
    obtain ⟨k, c⟩ := p
    rw [List.foldl_cons, ih]
    by_cases hk : name = k
    · subst hk
      simp
    · simp [hk, Ne.symm hk]

theorem filter_entries {α : Type} (d : Dict α) (k : String) :
    (d.entries.filter (·.1 == k)).map Prod.snd = (d.get? k).toList := by
  obtain ⟨l, hl⟩ := d
  simp only [Dict.get?]
  induction l with
  | nil => rfl
  | cons e l ih =>
    obtain ⟨k₀, v₀⟩ := e
    obtain ⟨hk₀, hl⟩ := List.nodup_cons.mp hl
    rw [Dict.lookup_pair_cons]
    by_cases h : k = k₀
    · subst h
      have hnil : l.filter (·.1 == k) = [] := List.filter_eq_nil_iff.mpr fun p hp he =>
        hk₀ (List.mem_map.mpr ⟨p, hp, by simpa using he⟩)
      simp [hnil]
    · rw [if_neg h, ← ih hl, List.filter_cons_of_neg (by simpa using Ne.symm h)]

theorem childContexts_getD (results : List StepOutcomes) (nodeId name : String) :
    ((childContexts results nodeId).get? name).getD [] =
      results.filterMap fun so => so.at? nodeId name := by
  rw [childContexts, foldl_collect, Dict.get?_empty, Option.getD_none, List.nil_append]
  induction results with
  | nil => rfl
  | cons so results ih =>
    rw [List.flatMap_cons, List.filter_append, List.map_append, ih]
    cases hso : so.get? nodeId with
    | none =>
      rw [List.filterMap_cons_none (by simp [StepOutcomes.at?, hso])]
      simp
    | some outcomes =>
      simp only [Option.map_some, Option.getD_some, filter_entries]
      cases hat : outcomes.get? name with
      | none =>
        rw [List.filterMap_cons_none (by simp [StepOutcomes.at?, hso, hat])]
        simp
      | some c =>
        rw [List.filterMap_cons_some (b := c) (by simp [StepOutcomes.at?, hso, hat])]
        simp

/-- The last of the values that are there. -/
def lastFound (found : List (Option DeviceContext)) : Option DeviceContext :=
  found.foldl (fun acc o => o.or acc) none

theorem lastFound_filter (found : List (Option DeviceContext)) :
    lastFound (found.filter Option.isSome) = lastFound found := by
  unfold lastFound
  generalize (none : Option DeviceContext) = start
  induction found generalizing start with
  | nil => rfl
  | cons o found ih =>
    cases o with
    | none => rw [List.filter_cons_of_neg (by simp), ih, List.foldl_cons, Option.none_or]
    | some d => rw [List.filter_cons_of_pos (by simp), List.foldl_cons, List.foldl_cons, ih]

/-- The merged device of a child-branch node is one of those the children stored there. -/
theorem mergeChildOutcomes_device? {merged : StepOutcomes} {nodeId : String}
    (h : mergeChildOutcomes signal graph results = .ok merged)
    (hn : nodeId ∈ childNodeIds signal.inventoryNodeId signal.joinNodeId graph.nodes graph.edges)
    (name id : String) :
    merged.device? nodeId name id =
      lastFound (results.map fun so => so.device? nodeId name id) := by
  have hstored : ∀ so : StepOutcomes, so ∈ results → so.at? nodeId name = none →
      so.device? nodeId name id = none := fun so _ hat => by
    rw [StepOutcomes.device?, hat, Option.bind_none]
  -- no child stored this outcome
  have hnone : (childContexts results nodeId).get? name = none →
      lastFound (results.map fun so => so.device? nodeId name id) = none := by
    intro hget
    have hcoll := childContexts_getD results nodeId name
    rw [hget, Option.getD_none, eq_comm, List.filterMap_eq_nil_iff] at hcoll
    rw [← lastFound_filter, List.filter_eq_nil_iff.mpr fun o ho => ?_]
    · rfl
    · obtain ⟨so, hso, rfl⟩ := List.mem_map.mp ho
      simp [hstored so hso (hcoll so hso)]
  unfold mergeChildOutcomes at h
  obtain ⟨hout, hin⟩ := Dict.get?_traverse h nodeId
  rw [Dict.get?_restrict, Dict.get?_ofPairs_map hn] at hout hin
  by_cases hempty : (childContexts results nodeId).isEmpty = true
  · rw [hnone (Dict.isEmpty_iff.mp hempty name), StepOutcomes.device?, StepOutcomes.at?,
      hout (by simp [hempty])]
    rfl
  · obtain ⟨outcomes, htrav, hget⟩ := hin (childContexts results nodeId) (by simp [hempty])
    obtain ⟨hout', hin'⟩ := Dict.get?_traverse htrav name
    rw [StepOutcomes.device?, StepOutcomes.at?, hget, Option.bind_some]
    cases hctx : (childContexts results nodeId).get? name with
    | none =>
      rw [hnone hctx, hout' hctx]
      rfl
    | some contexts =>
      obtain ⟨ctx, hmerge, hget'⟩ := hin' contexts hctx
      have hcoll := childContexts_getD results nodeId name
      rw [hctx, Option.getD_some] at hcoll
      rw [hget', Option.bind_some, mergeFanOutContexts_devices hmerge id, hcoll]
      exact (lastFound_filter _).symm.trans
        ((congrArg lastFound (filterMap_lookup_isSome _ _ _)).trans (lastFound_filter _))

theorem lastFound_eq {found : List (Option DeviceContext)} {v : Option DeviceContext}
    (hall : ∀ o ∈ found, o = v ∨ o = none) (hsome : v.isSome → v ∈ found) :
    lastFound found = v := by
  have key : ∀ (found : List (Option DeviceContext)) (start : Option DeviceContext),
      (∀ o ∈ found, o = v ∨ o = none) → (v ∈ found ∨ start = v) → (start = v ∨ start = none) →
      found.foldl (fun acc o => o.or acc) start = v := by
    intro found
    induction found with
    | nil => intro start _ hmem _; simpa using hmem
    | cons o found ih =>
      intro start hall hmem hstart
      refine ih _ (fun o' ho' => hall o' (List.mem_cons_of_mem _ ho')) ?_ ?_
      · rcases hall o List.mem_cons_self with rfl | rfl
        · cases o with
          | none => right; simpa using hstart
          | some d => right; rfl
        · rcases hmem with hmem | rfl
          · rcases List.mem_cons.mp hmem with rfl | hmem
            · right; simpa using hstart
            · exact .inl hmem
          · right; rfl
      · rcases hall o List.mem_cons_self with rfl | rfl
        · cases o with
          | none => simpa using hstart
          | some d => left; rfl
        · simpa using hstart
  refine key found none hall ?_ (.inr rfl)
  cases hv : v with
  | none => exact .inr rfl
  | some d => exact .inl (hv ▸ hsome (by simp [hv]))

end Aggregation

section Transparency

variable {registry : PluginRegistry} {executors : Executors} {run : RunInfo}
  {canvas graph : Canvas} {signal : FanOutSignal} {st : WalkState}

/-- The fan-out of a run: the children, one for each group, with what they returned, and the merged
outcomes. -/
structure FanOutRun where
  groups : List (List String)
  children : List (WalkState × StepOutcomes)
  merged : StepOutcomes

/-- The executors with fan-out turned off at one node. -/
def withoutFanOut (inventory : String) (executors : Executors) : Executors := fun stepType =>
  (executors stepType).map fun executor config ctx run nodeId =>
    executor (if nodeId = inventory then config.restrict (· != "fan_out") else config)
      ctx run nodeId

theorem withoutFanOut_routesBy {inventory : String} {n : CanvasNode} {executor : Executor Id}
    {route : DeviceContext → Option (String × DeviceContext)}
    (hroute : ∀ executor, executors n.stepType = some executor → RoutesBy executor run n route)
    (hne : n.id ≠ inventory) (h : withoutFanOut inventory executors n.stepType = some executor) :
    RoutesBy executor run n route := by
  obtain ⟨original, ho, rfl⟩ := Option.map_eq_some_iff.mp h
  simpa only [RoutesBy, if_neg hne] using hroute original ho

/-- A step of the child branch has its parents in the branch, at the fan-out step, or among what
never runs. -/
theorem childNodeIds_source {inventory : String} (hv : validateFanOutTopology canvas = [])
    (hi : inventory ∈ fanOutSteps registry canvas)
    (ht : BranchThroughSteps registry canvas inventory)
    (hg : loadExecutionGraph canvas = .ok graph) {n m : CanvasNode} {e : CanvasEdge}
    (hn : n ∈ graph.nodes) (hx : isExecutableNode registry n = true)
    (hc : n.id ∈ childNodeIds inventory (findJoinNodeId inventory graph.nodes graph.edges)
      graph.nodes graph.edges)
    (he : e ∈ graph.edges) (htarget : e.target = n.id)
    (hm : m ∈ graph.nodes) (hmx : isExecutableNode registry m = true) (hsource : e.source = m.id) :
    e.source = inventory ∨ e.source ∈ childNodeIds inventory
      (findJoinNodeId inventory graph.nodes graph.edges) graph.nodes graph.edges := by
  obtain ⟨graph', ordered, hg', hs, hthrough⟩ := ht
  obtain rfl : graph = graph' := by rw [hg] at hg'; exact Except.ok.inj hg'
  obtain ⟨waves, -, hw, -⟩ := topologicalGenerations_spec (topologicalSort_spec hs).1
  have haccepted := validateFanOutTopology_accepted hv hg hs hw hi
  obtain ⟨hchild, -⟩ := mem_child_or_postJoin inventory graph n.id
  obtain ⟨hdown, hpost⟩ := hchild.mp hc
  have hlive : e ∈ (filterExecutableGraph registry graph).edges := by
    refine mem_liveEdges.mpr ⟨he, ?_, ?_⟩
    · rw [hsource]; exact List.mem_map_of_mem (List.mem_filter.mpr ⟨hm, hmx⟩)
    · rw [htarget]; exact List.mem_map_of_mem (List.mem_filter.mpr ⟨hn, hx⟩)
  rcases haccepted.inward e hlive (htarget ▸ hthrough n hn hx hdown) with hregion | hinv
  · right
    obtain ⟨hchild', -⟩ := mem_child_or_postJoin inventory graph e.source
    refine hchild'.mpr ⟨downstream_executable_subset hregion, fun hjoin => hpost ?_⟩
    -- a parent from the fan-in node on would put the step there as well
    have hwire : Wire (nodeMap graph.nodes).keys graph.edges e.source n.id :=
      ⟨e, he, rfl, htarget, mem_nodeMap_keys.mpr ⟨m, hm, hsource.symm⟩,
        mem_nodeMap_keys.mpr ⟨n, hn, rfl⟩⟩
    cases hj : findJoinNodeId inventory graph.nodes graph.edges with
    | none => rw [hj] at hjoin; cases hjoin
    | some j =>
      rw [hj] at hjoin
      refine List.mem_cons_of_mem _ (mem_downstreamNodeIds.mpr ?_)
      rcases List.mem_cons.mp hjoin with hjs | hbelow
      · exact hjs ▸ .single hwire
      · exact (mem_downstreamNodeIds.mp hbelow).tail hwire
  · exact .inl hinv

def runChild (registry : PluginRegistry) (executors : Executors) (run : RunInfo)
    (canvas graph : Canvas) (signal : FanOutSignal) (group : List String) :
    Except GraphError WalkState :=
  Id.run (runSubgraph (pureRunner registry executors) run canvas (groupContext signal group)
    signal.inventoryNodeId
    (childNodeIds signal.inventoryNodeId signal.joinNodeId graph.nodes graph.edges))

/-- Dispatch the groups of the inventory step, walk the child branch for each, merge what the
children return; each has registered the given secrets. -/
def runFanOut (registry : PluginRegistry) (executors : Executors) (run : RunInfo)
    (canvas graph : Canvas) (signal : FanOutSignal) (known : List String → List String) :
    Except String FanOutRun := do
  let plan ← parseFanOutDispatch signal
  let children ← plan.groups.mapM fun group => do
    let child ←
      (runChild registry executors run canvas graph signal group).mapError GraphError.message
    let result ← deviceGroupResult (known group) signal.inventoryNodeId child.stepOutcomes
    return (child, result)
  let merged ← mergeChildOutcomes signal graph (children.map Prod.snd)
  return ⟨plan.groups, children, merged⟩

theorem runFanOut_ok {fanOut : FanOutRun} {known : List String → List String}
    (h : runFanOut registry executors run canvas graph signal known = .ok fanOut) :
    (∀ id, (∃ g ∈ fanOut.groups, id ∈ g) ↔ id ∈ signal.inventoryOutcome.devices.keys) ∧
      (∀ child ∈ fanOut.children, ∃ g ∈ fanOut.groups,
        runChild registry executors run canvas graph signal g = .ok child.1 ∧
          deviceGroupResult (known g) signal.inventoryNodeId child.1.stepOutcomes = .ok child.2) ∧
      (∀ g ∈ fanOut.groups, ∃ child ∈ fanOut.children,
        runChild registry executors run canvas graph signal g = .ok child.1 ∧
          deviceGroupResult (known g) signal.inventoryNodeId child.1.stepOutcomes = .ok child.2) ∧
      mergeChildOutcomes signal graph (fanOut.children.map Prod.snd) = .ok fanOut.merged := by
  simp only [runFanOut, bind_eq_ok] at h
  obtain ⟨plan, hplan, children, hchildren, merged, hmerged, hf⟩ := h
  cases hf
  obtain ⟨hfrom, hto⟩ := mapM_eq_ok hchildren
  have hpair : ∀ (g : List String) (child : WalkState × StepOutcomes),
      (do
        let walked ←
          (runChild registry executors run canvas graph signal g).mapError GraphError.message
        let result ← deviceGroupResult (known g) signal.inventoryNodeId walked.stepOutcomes
        return (walked, result)) = Except.ok child →
      runChild registry executors run canvas graph signal g = .ok child.1 ∧
        deviceGroupResult (known g) signal.inventoryNodeId child.1.stepOutcomes = .ok child.2 := by
    intro g child h
    simp only [bind_eq_ok, mapError_eq_ok] at h
    obtain ⟨walked, hwalked, result, hresult, hc⟩ := h
    cases hc
    exact ⟨hwalked, hresult⟩
  refine ⟨fun id => mem_groups hplan, fun child hchild => ?_, fun g hg => ?_, hmerged⟩
  · obtain ⟨g, hg, hrun⟩ := hfrom child hchild
    exact ⟨g, hg, hpair g child hrun⟩
  · obtain ⟨child, hchild, hrun⟩ := hto g hg
    exact ⟨child, hchild, hpair g child hrun⟩

/-- A child returns the devices it has where masking changes nothing. -/
theorem deviceGroupResult_device? {known : List String} {startNodeId nodeId : String}
    {outcomes result : StepOutcomes}
    (h : deviceGroupResult known startNodeId outcomes = .ok result) (hne : nodeId ≠ startNodeId)
    (hkept : ∀ name ctx, outcomes.at? nodeId name = some ctx →
      scrubKnownSecrets known ctx = .ok ctx) (name id : String) :
    result.device? nodeId name id = outcomes.device? nodeId name id := by
  suffices hat : result.at? nodeId name = outcomes.at? nodeId name by
    rw [StepOutcomes.device?, hat, StepOutcomes.device?]
  obtain ⟨hnone, hsome⟩ := Dict.get?_traverse h nodeId
  rw [Dict.get?_restrict, if_pos (by simpa using hne)] at hnone hsome
  cases hnode : outcomes.get? nodeId with
  | none => rw [StepOutcomes.at?, StepOutcomes.at?, hnone hnode, hnode]
  | some stored =>
    obtain ⟨returned, htraverse, hget⟩ := hsome stored hnode
    obtain ⟨hnone', hsome'⟩ := Dict.get?_traverse htraverse name
    rw [StepOutcomes.at?, StepOutcomes.at?, hget, hnode, Option.bind_some, Option.bind_some]
    cases hctx : stored.get? name with
    | none => exact hnone' hctx
    | some ctx =>
      obtain ⟨ctx', hscrub, hget'⟩ := hsome' ctx hctx
      have hat : outcomes.at? nodeId name = some ctx := by
        rw [StepOutcomes.at?, hnode, Option.bind_some, hctx]
      rw [hkept name ctx hat] at hscrub
      cases hscrub
      exact hget'

theorem inventory_not_mem_childNodeIds {inventory : String}
    (hi : inventory ∈ fanOutSteps registry canvas)
    (ht : BranchThroughSteps registry canvas inventory)
    (hg : loadExecutionGraph canvas = .ok graph) (join : Option String) :
    inventory ∉ childNodeIds inventory join graph.nodes graph.edges := by
  intro hc
  have hdown : inventory ∈ downstreamNodeIds inventory graph.nodes graph.edges := by
    cases join with
    | none => exact hc
    | some j => exact (List.mem_filter.mp hc).1
  obtain ⟨graph', ordered, hg', hs, hthrough⟩ := ht
  obtain rfl : graph = graph' := by rw [hg] at hg'; exact Except.ok.inj hg'
  obtain ⟨n, hn, hx, rfl⟩ := fanOutSteps_mem hg hi
  obtain ⟨waves, depth, -, hwaves⟩ := topologicalGenerations_spec (topologicalSort_spec hs).1
  exact lt_irrefl _ (hwaves.lt_of_downstream hs (hthrough n hn hx hdown))

theorem child_start_device? {f : WalkState → CanvasNode → NodeRun} {nodes : List CanvasNode}
    {child : WalkState} {inventory : String} {group : List String}
    (h : Settled f nodes (childStart inventory (groupContext signal group)) child)
    {k : String} (hk : k ∉ nodes.map CanvasNode.id) (name id : String) :
    child.stepOutcomes.device? k name id =
      if k = inventory ∧ name = "success" ∧ id ∈ group then
        signal.inventoryOutcome.devices.get? id else none := by
  rw [StepOutcomes.device?, StepOutcomes.at?, ← (h.frame k hk).1]
  by_cases hkI : k = inventory
  · by_cases hname : name = "success"
    · by_cases hid : id ∈ group <;>
        simp [childStart, Dict.get?_ofPairs, hkI, hname, groupContext, hid]
    · simp [childStart, Dict.get?_ofPairs, Dict.lookup_pair_cons, hkI, hname]
  · simp [childStart, Dict.get?_ofPairs, Dict.lookup_pair_cons, hkI]

/-- The plain walk with fan-out turned off at the inventory step, and the branch below that step:
where the parents of its nodes are, what its steps do, and what the inventory step emits. -/
structure PlainWalk (registry : PluginRegistry) (executors : Executors) (run : RunInfo)
    (graph : Canvas) (signal : FanOutSignal) (branch : List String) (ordered : List CanvasNode)
    (st : WalkState) : Prop where
  sort : topologicalSort registry graph = .ok ordered
  settled : Settled (nodeResult registry (withoutFanOut signal.inventoryNodeId executors) run
    graph.edges failedRow) ordered {} st
  inventory : signal.inventoryNodeId ∈ ordered.map CanvasNode.id
  outside : signal.inventoryNodeId ∉ branch
  routes : ∀ n ∈ ordered, n.id ∈ branch → ∃ route,
    (∀ executor, withoutFanOut signal.inventoryNodeId executors n.stepType = some executor →
      RoutesBy executor run n route) ∧
    ∀ executor, executors n.stepType = some executor → RoutesBy executor run n route
  source : ∀ n ∈ ordered, n.id ∈ branch → ∀ e ∈ graph.edges, e.target = n.id →
    (e.source ∈ branch ∧ e.source ∈ ordered.map CanvasNode.id) ∨
      e.source = signal.inventoryNodeId ∨ e.source ∉ ordered.map CanvasNode.id
  emits : ∀ name id, st.stepOutcomes.device? signal.inventoryNodeId name id =
    if name = "success" then signal.inventoryOutcome.devices.get? id else none

namespace PlainWalk

variable {branch : List String} {ordered : List CanvasNode}

theorem of_executeAll
    (hv : validateFanOutTopology canvas = [])
    (hi : signal.inventoryNodeId ∈ fanOutSteps registry canvas)
    (ht : BranchThroughSteps registry canvas signal.inventoryNodeId)
    (hg : loadExecutionGraph canvas = .ok graph)
    (hj : signal.joinNodeId = findJoinNodeId signal.inventoryNodeId graph.nodes graph.edges)
    (hplain : executeAll (pureRunner registry (withoutFanOut signal.inventoryNodeId executors))
      run canvas = .finished st) (hst : st.failed = false)
    (hemit : ∀ id, st.stepOutcomes.device? signal.inventoryNodeId "success" id =
      signal.inventoryOutcome.devices.get? id)
    (honly : ∀ name id, name ≠ "success" →
      st.stepOutcomes.device? signal.inventoryNodeId name id = none)
    (hlocal : ∀ n ∈ graph.nodes, n.id ∈ childNodeIds signal.inventoryNodeId signal.joinNodeId
      graph.nodes graph.edges → ∀ executor, executors n.stepType = some executor →
      DeviceLocal executor run n) :
    ∃ ordered, PlainWalk registry executors run graph signal
      (childNodeIds signal.inventoryNodeId signal.joinNodeId graph.nodes graph.edges)
      ordered st := by
  obtain ⟨ordered, hs, hsettled⟩ := executeAll_settled hg hplain hst
  obtain ⟨-, hids, hmem⟩ := topologicalSort_spec hs
  have hnot := inventory_not_mem_childNodeIds hi ht hg signal.joinNodeId
  refine ⟨ordered, hs, hsettled, (hids _).mpr (fanOutSteps_mem hg hi), hnot, fun n hn hb => ?_,
    fun n hn hb e he htarget => ?_, fun name id => ?_⟩
  · have hne : n.id ≠ signal.inventoryNodeId := fun he => hnot (he ▸ hb)
    obtain ⟨route, hroute⟩ : ∃ route, ∀ executor, executors n.stepType = some executor →
        RoutesBy executor run n route := by
      cases hex : executors n.stepType with
      | none => exact ⟨fun _ => none, fun _ he => by cases he⟩
      | some executor =>
        obtain ⟨route, hr⟩ := hlocal n (hmem n hn).1 hb executor hex
        exact ⟨route, fun _ he => by cases he; exact hr⟩
    exact ⟨route, fun executor => withoutFanOut_routesBy hroute hne, hroute⟩
  · by_cases ho : e.source ∈ ordered.map CanvasNode.id
    · obtain ⟨m, hm, hmx, hid⟩ := (hids e.source).mp ho
      obtain ⟨hn', hx⟩ := hmem n hn
      rw [hj] at hb ⊢
      rcases childNodeIds_source hv hi ht hg hn' hx hb he htarget hm hmx hid.symm with h | h
      · exact .inr (.inl h)
      · exact .inl ⟨h, ho⟩
    · exact .inr (.inr ho)
  · split
    · rename_i hname
      rw [hname, hemit]
    · rename_i hname
      exact honly name id hname

theorem frame (h : PlainWalk registry executors run graph signal branch ordered st) {k : String}
    (hk : k ∉ ordered.map CanvasNode.id) (name id : String) :
    st.stepOutcomes.device? k name id = none := by
  rw [StepOutcomes.device?, StepOutcomes.at?, ← (h.settled.frame k hk).1]
  rfl

/-- A child sees of its devices what the plain walk sees, and of the others nothing. -/
theorem child_device? (h : PlainWalk registry executors run graph signal branch ordered st)
    (hg : loadExecutionGraph canvas = .ok graph) {group : List String} {child : WalkState}
    (hrun : runSubgraph (pureRunner registry executors) run canvas (groupContext signal group)
      signal.inventoryNodeId branch = .ok child) (hf : child.failed = false) {nodeId : String}
    (hn : nodeId ∈ branch) (name id : String) :
    child.stepOutcomes.device? nodeId name id =
      if id ∈ group then st.stepOutcomes.device? nodeId name id else none := by
  have hset := runSubgraph_settled hg h.sort h.outside hrun hf
  have hfilter : ∀ k, k ∈ (ordered.filter fun n => n.id ∈ branch).map CanvasNode.id →
      k ∈ branch ∧ k ∈ ordered.map CanvasNode.id := by
    intro k hk
    obtain ⟨m, hm, rfl⟩ := List.mem_map.mp hk
    obtain ⟨hmo, hmb⟩ := List.mem_filter.mp hm
    exact ⟨of_decide_eq_true hmb, List.mem_map_of_mem hmo⟩
  have hframe : ∀ k, k ∉ ordered.map CanvasNode.id → ∀ name,
      child.stepOutcomes.device? k name id = none := by
    intro k hk name
    have hne : k ≠ signal.inventoryNodeId := fun he => hk (he ▸ h.inventory)
    rw [child_start_device? hset fun hmem => hk (hfilter k hmem).2]
    simp [hne]
  by_cases ho : nodeId ∈ ordered.map CanvasNode.id
  · obtain ⟨n, hno, rfl⟩ := List.mem_map.mp ho
    refine branch_device? (id ∈ group) (topologicalSort_spec h.sort).1 h.settled hset rfl rfl
      (fun n hn hb => ?_) h.routes (fun n hn hb e he htarget => ?_) n hno hn name
    · exact ⟨hn, List.mem_filter.mpr ⟨hn, by simpa using hb⟩⟩
    · rcases h.source n hn hb e he htarget with hs | hs | hs
      · exact .inl hs
      · right
        intro name
        rw [hs, child_start_device? hset fun hk => h.outside (hfilter _ hk).1, h.emits]
        by_cases hname : name = "success" <;> simp [hname]
      · right
        intro name
        rw [hframe _ hs, h.frame hs, ite_self]
  · rw [hframe _ ho, h.frame ho, ite_self]

/-- What the inventory step has not emitted is nowhere in the branch. -/
theorem lost (h : PlainWalk registry executors run graph signal branch ordered st) {id : String}
    (hkey : id ∉ signal.inventoryOutcome.devices.keys) {nodeId : String} (hn : nodeId ∈ branch)
    (name : String) : st.stepOutcomes.device? nodeId name id = none := by
  by_cases ho : nodeId ∈ ordered.map CanvasNode.id
  · obtain ⟨n, hno, rfl⟩ := List.mem_map.mp ho
    have hnone := branch_device? False (topologicalSort_spec h.sort).1 h.settled h.settled rfl rfl
      (fun m hm _ => ⟨hm, hm⟩)
      (fun m hm hb => by
        obtain ⟨route, hroute, -⟩ := h.routes m hm hb
        exact ⟨route, hroute, hroute⟩)
      (fun m hm hb e he htarget => by
        rcases h.source m hm hb e he htarget with hs | hs | hs
        · exact .inl hs
        · right
          intro name
          rw [hs, h.emits, Dict.not_mem_keys_iff.mp hkey, ite_self, ite_self]
        · right
          intro name
          rw [h.frame hs, ite_self])
      n hno hn name
    rwa [if_neg not_false] at hnone
  · exact h.frame ho name id

end PlainWalk

/-- Fan-out is transparent for device-local steps, as long as no node of either walk raises and the
masking of secrets changes nothing in what the children return. -/
theorem fanOut_transparent {fanOut : FanOutRun} {known : List String → List String}
    (hv : validateFanOutTopology canvas = [])
    (hi : signal.inventoryNodeId ∈ fanOutSteps registry canvas)
    (ht : BranchThroughSteps registry canvas signal.inventoryNodeId)
    (hg : loadExecutionGraph canvas = .ok graph)
    (hj : signal.joinNodeId = findJoinNodeId signal.inventoryNodeId graph.nodes graph.edges)
    (hplain : executeAll (pureRunner registry (withoutFanOut signal.inventoryNodeId executors))
      run canvas = .finished st) (hst : st.failed = false)
    (hemit : ∀ id, st.stepOutcomes.device? signal.inventoryNodeId "success" id =
      signal.inventoryOutcome.devices.get? id)
    (honly : ∀ name id, name ≠ "success" →
      st.stepOutcomes.device? signal.inventoryNodeId name id = none)
    (hlocal : ∀ n ∈ graph.nodes, n.id ∈ childNodeIds signal.inventoryNodeId signal.joinNodeId
      graph.nodes graph.edges → ∀ executor, executors n.stepType = some executor →
      DeviceLocal executor run n)
    (hfan : runFanOut registry executors run canvas graph signal known = .ok fanOut)
    (hchildren : ∀ child ∈ fanOut.children, child.1.failed = false)
    (hkept : ∀ g child, runChild registry executors run canvas graph signal g = .ok child →
      ∀ nodeId ∈ childNodeIds signal.inventoryNodeId signal.joinNodeId graph.nodes graph.edges,
        ∀ name ctx, child.stepOutcomes.at? nodeId name = some ctx →
          scrubKnownSecrets (known g) ctx = .ok ctx) :
    ∀ nodeId ∈ childNodeIds signal.inventoryNodeId signal.joinNodeId graph.nodes graph.edges,
      ∀ name id, fanOut.merged.device? nodeId name id =
        st.stepOutcomes.device? nodeId name id := by
  obtain ⟨ordered, h⟩ :=
    PlainWalk.of_executeAll hv hi ht hg hj hplain hst hemit honly hlocal
  obtain ⟨hgroups, hchildOf, hgroupOf, hmerge⟩ := runFanOut_ok hfan
  intro nodeId hn name id
  have hreturned : ∀ child ∈ fanOut.children, ∀ g,
      runChild registry executors run canvas graph signal g = .ok child.1 →
      deviceGroupResult (known g) signal.inventoryNodeId child.1.stepOutcomes = .ok child.2 →
      child.2.device? nodeId name id =
        if id ∈ g then st.stepOutcomes.device? nodeId name id else none := by
    intro child hc g hrun hresult
    have hne : nodeId ≠ signal.inventoryNodeId := fun he => h.outside (he ▸ hn)
    rw [deviceGroupResult_device? hresult hne (hkept g child.1 hrun nodeId hn) name id]
    exact h.child_device? hg hrun (hchildren child hc) hn name id
  rw [mergeChildOutcomes_device? hmerge hn, List.map_map]
  refine lastFound_eq (fun o hmem => ?_) fun hsome => ?_
  · obtain ⟨child, hc, rfl⟩ := List.mem_map.mp hmem
    obtain ⟨g, -, hrun, hresult⟩ := hchildOf child hc
    rw [Function.comp_apply, hreturned child hc g hrun hresult]
    by_cases hid : id ∈ g
    · exact .inl (if_pos hid)
    · exact .inr (if_neg hid)
  · -- the device was emitted, so some child has it
    have hkey : id ∈ signal.inventoryOutcome.devices.keys := by
      by_contra hkey
      rw [h.lost hkey hn name] at hsome
      cases hsome
    obtain ⟨g, hg', hid⟩ := (hgroups id).mpr hkey
    obtain ⟨child, hc, hrun, hresult⟩ := hgroupOf g hg'
    refine List.mem_map.mpr ⟨child, hc, ?_⟩
    rw [Function.comp_apply, hreturned child hc g hrun hresult, if_pos hid]

end Transparency

section Examples

/-- An executor that changes every device on its own and lets it leave by `success`. -/
def mapDevices (f : Dict Json → DeviceContext → DeviceContext) : Executor Id :=
  fun config ctx _ _ =>
    .ok [⟨"success", { ctx with devices := ctx.devices.mapValues (f config) }⟩]

theorem mapDevices_deviceLocal (f : Dict Json → DeviceContext → DeviceContext) (run : RunInfo)
    (node : CanvasNode) : DeviceLocal (mapDevices f) run node := by
  refine ⟨fun d => some ("success", f node.data.pluginConfig d), fun ctx =>
    ⟨_, rfl, by simp, fun name id => ?_⟩⟩
  by_cases h : name = "success"
  · simp [storedOutcomes, Dict.get?_ofPairs, h, leavesBy, Option.map_eq_bind]
  · simp [storedOutcomes, Dict.get?_ofPairs, Dict.lookup_pair_cons, h, leavesBy, Ne.symm h]

def listedDevice (id : String) : DeviceContext :=
  { id, name := id, hostname := id, capabilities := {.identity} }

def listedDevices : Dict DeviceContext :=
  Dict.ofPairs [("d1", listedDevice "d1"), ("d2", listedDevice "d2")]

/-- Write the configured value under the parser key `k` of the first device. -/
def writeOnFirst (config : Dict Json) (device : DeviceContext) : DeviceContext :=
  if device.id = "d1" then
    { device with parsed := device.parsed.insert "k" ((config.get? "value").getD .null) }
  else device

/-- The inventory step lists two devices, or one of them as failed when it is told to. -/
def listDevices : Executor Id := fun config ctx _ _ =>
  if "split" ∈ config.keys then
    .ok [⟨"success", { ctx with devices := listedDevices.restrict (· == "d1") }⟩,
      ⟨"failure", { ctx with devices := listedDevices.restrict (· == "d2") }⟩]
  else .ok [⟨"success", { ctx with devices := listedDevices }⟩]

def demoExecutors : Executors := fun stepType =>
  if stepType = "get-from-list" then some listDevices
  else if stepType = "run-command" then some (mapDevices writeOnFirst)
  else none

def demoRun : RunInfo := { uuid := "run", workflowId := "1" }

def demoSignal (devices : Dict DeviceContext) : FanOutSignal where
  inventoryNodeId := "I"
  fanOutConfig := Dict.ofPairs [("enabled", .bool true), ("mode", .str "per_device")]
  inventoryOutcome := { runId := "run", workflowId := "1", devices }
  stepOutcomes := ∅
  joinNodeId := none

theorem demo_deviceLocal {canvas : Canvas} {branch : List String}
    (h : ∀ n ∈ canvas.nodes, n.id ∈ branch → n.stepType ≠ "get-from-list") :
    ∀ n ∈ canvas.nodes, n.id ∈ branch → ∀ executor, demoExecutors n.stepType = some executor →
      DeviceLocal executor demoRun n := by
  intro n hn hb executor he
  rw [demoExecutors, if_neg (h n hn hb)] at he
  split at he
  · cases he
    exact mapDevices_deviceLocal _ _ _
  · cases he

/-- The plain walk and the fan-out of a canvas disagree on a device of a child-branch step, on
whether it is there or on what is under its parser key `k`. -/
def FanOutDiffers (canvas : Canvas) (devices : Dict DeviceContext) (nodeId id : String)
    (known : List String) : Prop :=
  validateFanOutTopology canvas = [] ∧ "I" ∈ fanOutSteps smallRegistry canvas ∧
  loadExecutionGraph canvas = .ok canvas ∧
  (∀ n ∈ canvas.nodes, n.id ∈ childNodeIds "I" none canvas.nodes canvas.edges →
    ∀ executor, demoExecutors n.stepType = some executor → DeviceLocal executor demoRun n) ∧
  nodeId ∈ childNodeIds "I" none canvas.nodes canvas.edges ∧
  ∃ st fanOut,
    executeAll (pureRunner smallRegistry (withoutFanOut "I" demoExecutors)) demoRun canvas =
      .finished st ∧
    runFanOut smallRegistry demoExecutors demoRun canvas canvas (demoSignal devices)
      (fun _ => known) = .ok fanOut ∧
    (st.stepOutcomes.at? "I" "success").map (fun ctx => ctx.devices.keys) = some devices.keys ∧
    (fanOut.merged.device? nodeId "success" id).map (fun d => d.parsed.get? "k") ≠
      (st.stepOutcomes.device? nodeId "success" id).map fun d => d.parsed.get? "k"

/-- Two branches that write different values for the first device, and a step that joins them. -/
def conflictingDiamond : Canvas where
  nodes := [⟨"I", { kind := some "get-from-list", pluginConfig := fanOutConfig }⟩,
    ⟨"A", { kind := some "run-command", pluginConfig := Dict.ofPairs [("value", .int 1)] }⟩,
    ⟨"B", { kind := some "run-command", pluginConfig := Dict.ofPairs [("value", .int 2)] }⟩,
    ⟨"D", { kind := some "run-command" }⟩]
  edges := [{ source := "I", target := "A" }, { source := "I", target := "B" },
    { source := "A", target := "D" }, { source := "B", target := "D" }]

def splitConfig : Dict Json := Dict.insert fanOutConfig "split" (.bool true)

/-- A step wired to the failure outcome of the fan-out step. -/
def failureBranch : Canvas where
  nodes := [⟨"I", { kind := some "get-from-list", pluginConfig := splitConfig }⟩,
    ⟨"X", { kind := some "run-command" }⟩]
  edges := [{ source := "I", target := "X", sourceHandle := some "failure" }]

/-- A step below the fan-out step by a label only, fed by another list. -/
def labelledBranch : Canvas where
  nodes := [⟨"P", { kind := some "get-from-list" }⟩, ⟨"A", { kind := some "get-from-list" }⟩,
    ⟨"I", { kind := some "get-from-list", pluginConfig := fanOutConfig }⟩,
    ⟨"L", { kind := some "label" }⟩, ⟨"X", { kind := some "run-command" }⟩]
  edges := [{ source := "P", target := "I" }, { source := "I", target := "L" },
    { source := "L", target := "X" }, { source := "A", target := "X" }]

/-- A step that writes a secret into a device. -/
def secretBranch : Canvas where
  nodes := [⟨"I", { kind := some "get-from-list", pluginConfig := fanOutConfig }⟩,
    ⟨"X", { kind := some "run-command"
            pluginConfig := Dict.ofPairs [("value", .str "key hunter22")] }⟩]
  edges := [{ source := "I", target := "X" }]

/-- Fan-out shows: a merge that fails for one device ends the plain walk for all of them but only
its own child; the failure outcome of the fan-out step is not fanned out; a child does not see
the devices another list feeds to a step that a label alone puts into the branch; and a secret that
a child has registered is masked in what it returns. -/
theorem fanOut_not_transparent :
    FanOutDiffers conflictingDiamond listedDevices "D" "d2" [] ∧
    FanOutDiffers failureBranch (listedDevices.restrict (· == "d1")) "X" "d2" [] ∧
    FanOutDiffers labelledBranch listedDevices "X" "d1" [] ∧
    FanOutDiffers secretBranch listedDevices "X" "d1" ["hunter22"] := by
  refine ⟨?_, ?_, ?_, ?_⟩
  all_goals
    refine ⟨by decide, by decide, rfl, demo_deviceLocal (by decide), by decide, _, _, rfl, rfl, ?_⟩
    decide +kernel

/-- On the canvas with one step behind the fan-out step the two walks agree. -/
theorem directBranch_transparent :
    ∃ st fanOut,
      executeAll (pureRunner smallRegistry (withoutFanOut "I" demoExecutors)) demoRun
        directBranch = .finished st ∧
      runFanOut smallRegistry demoExecutors demoRun directBranch directBranch
        (demoSignal listedDevices) (fun _ => []) = .ok fanOut ∧
      ∀ name id, fanOut.merged.device? "X" name id = st.stepOutcomes.device? "X" name id := by
  refine ⟨_, _, rfl, rfl, @fanOut_transparent smallRegistry demoExecutors demoRun directBranch
    directBranch (demoSignal listedDevices) _ _ (fun _ => []) (by decide) (by decide)
    ⟨directBranch, [directBranch.nodes[0], directBranch.nodes[2]], rfl, rfl, by decide⟩ rfl rfl rfl
    (by decide) (fun id => rfl) (fun name id h => ?_) (demo_deviceLocal (by decide)) rfl
    (by decide) (fun _ _ _ _ _ _ _ _ => rfl) "X" (by decide)⟩
  change ((Dict.ofPairs [("success", _)]).get? name).bind _ = none
  simp [Dict.get?_ofPairs, Dict.lookup_pair_cons, h]

end Examples

end Manus
