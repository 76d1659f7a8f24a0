import Manus.Runs.Rights
import Mathlib.Data.List.Flatten

/-! # The rights of a run through its phases

Phase one takes all rights of the run with its first row and keeps those of the
nodes it does not walk. The orchestrator leaves the rights of the child branch,
group by group, with the engine, and resumes with what is left.
-/

namespace Manus

variable {ω : Type}

section PhaseOne

structure RunOf (runId workflowId : ℕ) (canvas : Canvas) (w : World) : Prop where
  row : ∀ row, w.runs runId = some row → row.workflowId = workflowId
  stored : ∀ stored, w.canvases workflowId = some stored → stored = canvas

/-- No step that is walked before the fan-out lies below the fan-out step. -/
def PhasesApart (registry : PluginRegistry) (canvas : Canvas) (inventory : String) : Prop :=
  ∀ graph ordered waves, loadExecutionGraph canvas = .ok graph →
    topologicalSort registry graph = .ok ordered →
    topologicalGenerations ordered graph.edges = some waves →
    ∀ id ∈ phaseOneIds waves inventory, id ∉ downstreamNodeIds inventory graph.nodes graph.edges

/-- What a task may do to the rights of the run. A run that fans out at a step whose phases are not
apart is not followed further. -/
def usageMoves (d : Deployment ω) (runId : ℕ) (canvas : Canvas) :
    Prog.Move World (Set (String × String)) := fun i g w g' w' =>
  (ledger d.registry runId canvas).Spends g w g' w' ∨
  (ledger d.registry runId canvas).Takes none g w g' w' ∨
  ∃ inventory stored, w'.log = w.log ++ [(i, .loaded runId (.capture inventory) stored)] ∧
    ¬ PhasesApart d.registry canvas inventory

variable {d : Deployment ω} {runId workflowId : ℕ} {canvas graph : Canvas}
  {ordered : List CanvasNode} {run : RunInfo} {g : Set (String × String)}

def OwnsRest (registry : PluginRegistry) (canvas : Canvas) (signal : FanOutSignal)
    (g : Set (String × String)) : Prop :=
  ∃ graph ordered waves, loadExecutionGraph canvas = .ok graph ∧
    topologicalSort registry graph = .ok ordered ∧
    topologicalGenerations ordered graph.edges = some waves ∧
    signal.joinNodeId = findJoinNodeId signal.inventoryNodeId graph.nodes graph.edges ∧
    ∀ x : String × String, x.1 ∉ phaseOneIds waves signal.inventoryNodeId → x ∈ g

theorem fanOutRequested_spec {st : WalkState} {wave : List CanvasNode} {signal : FanOutSignal}
    (h : fanOutRequested graph st wave = some signal) :
    (∃ n ∈ wave, n.id = signal.inventoryNodeId) ∧
      signal.joinNodeId = findJoinNodeId signal.inventoryNodeId graph.nodes graph.edges := by
  obtain ⟨node, hn, h⟩ := List.exists_of_findSome?_eq_some h
  simp only [Option.bind_eq_bind, Option.bind_eq_some_iff] at h
  obtain ⟨success, -, config, -, h⟩ := h
  split at h
  · split at h
    · cases h
      exact ⟨⟨node, hn, rfl⟩, rfl⟩
    · cases h
  · cases h

theorem createPending_idle {I : World → Prop} (nodes : List CanvasNode) :
    MovesNone d.registry runId canvas I _
      (createPendingStepResults (workerRunner d runId) nodes) := by
  induction nodes with
  | nil => exact .pure _
  | cons node nodes ih =>
    refine .bind (stepOps_movesNone.createStepResult runId node) fun created => ?_
    split
    · exact ih
    · exact .pure _

theorem createStepResult_takes {I : World → Prop} {node : CanvasNode}
    (hfirst : firstNode d.registry canvas = some node.id) :
    (createStepResult (ω := ω) runId node).Spec I (usageMoves d runId canvas) g
      fun created g' => created = true → g' = Set.univ := by
  intro t w x w' _ h
  have hcases := Option.some.inj h
  dsimp only at hcases
  split at hcases
  · cases hcases
    exact ⟨g, .inl ((ledger_idles_refl w).spends g), fun h => by cases h⟩
  · rename_i hex
    cases hcases
    refine ⟨Set.univ, .inr (.inl ⟨rfl, ?_, ?_, ?_⟩), fun _ => rfl⟩
    · intro x _
      refine .inr fun id hid hmem => hex ?_
      rw [hfirst, Option.some.injEq] at hid
      obtain ⟨row, hrow, rfl⟩ := List.mem_map.mp hmem
      exact List.any_eq_true.mpr ⟨row, hrow, by simp [hid]⟩
    · refine Set.eq_empty_iff_forall_notMem.mpr fun x hx => hx node.id hfirst ?_
      simp [World.setSteps]
    · rintro (_ | k) hq
      · exact absurd rfl hq
      · exact subset_rfl

theorem createPending_takes {I : World → Prop} {node : CanvasNode} {nodes : List CanvasNode}
    (hfirst : firstNode d.registry canvas = some node.id) :
    (createPendingStepResults (workerRunner d runId) (node :: nodes)).Spec I
      (usageMoves d runId canvas) g fun created g' => created = true → g' = Set.univ := by
  refine (createStepResult_takes hfirst).bind fun created g' hg' => ?_
  split
  · rw [hg' ‹_›]
    refine (((createPending_idle nodes).spends _).mono (fun _ h => h)
      fun _ _ _ _ _ _ hm => .inl hm).imp fun _ _ he _ => he
  · intro h
    cases h

theorem walkGraph_uses {I : World → Prop} (hgraph : loadExecutionGraph canvas = .ok graph)
    (hsort : topologicalSort d.registry graph = .ok ordered)
    (hg : ∀ n ∈ ordered, ∀ id, (n.id, id) ∈ g) (hall : ordered ≠ [] → g = Set.univ) :
    (walkGraph (workerRunner d runId) run graph ordered).Spec I (spending d runId canvas) g
      fun ended g' => ∀ signal, ended = .fanOut signal →
        OwnsRest d.registry canvas signal g' := by
  obtain ⟨hsorted, -⟩ := topologicalSort_spec hsort
  obtain ⟨waves, depth, hwaves, hw⟩ := topologicalGenerations_spec hsorted
  have hgen : generations ordered graph.edges = waves := by rw [generations, hwaves]; rfl
  rw [walkGraph, hgen]
  refine (walkWaves_uses hw.layered fun n hn => hg n (hw.mem_flatten.mp hn)).bind
    fun r g' hr => ?_
  obtain ⟨st, signal⟩ := r
  cases signal with
  | none => rintro signal ⟨⟩
  | some signal =>
    rintro signal' ⟨⟩
    obtain ⟨k, st', wave, hk, hover, hrest⟩ := hr signal rfl
    obtain ⟨⟨n, hn, hid⟩, hjoin⟩ := fanOutRequested_spec hover
    refine ⟨graph, ordered, waves, hgraph, hsort, hwaves, hjoin, fun x hx => ?_⟩
    have hmem : n ∈ waves.getD k [] := by
      rw [List.getD_eq_getElem?_getD, hk]
      exact hn
    obtain ⟨hno, hdepth⟩ := (hw.mem n k).mp hmem
    refine hrest x ?_ ?_
    · rw [hall (List.ne_nil_of_mem hno)]
      trivial
    · rwa [phaseOneIds, ← hid, hw.depthOf_eq hdepth] at hx

theorem executeAll_uses {I : World → Prop} :
    (executeAll (workerRunner d runId) run canvas).Spec I (usageMoves d runId canvas) g
      fun ended g' => ∀ signal, ended = .fanOut signal →
        OwnsRest d.registry canvas signal g' := by
  have hwalk : ∀ {p : Run ω WalkEnd} {g : Set (String × String)} {Q : WalkEnd → _ → Prop},
      p.Spec I (spending d runId canvas) g Q → p.Spec I (usageMoves d runId canvas) g Q :=
    fun h => h.mono (fun _ h => h) fun _ _ _ _ _ _ hm => .inl hm
  unfold executeAll
  split
  · rintro signal ⟨⟩
  · rename_i graph hgraph
    have hnodes : (workerRunner d runId).stepResultNodes.Spec I (usageMoves d runId canvas) g
        fun _ g' => g' = g :=
      ((stepOps_movesNone.get _ fun _ _ => rfl).spends g).mono
        (fun _ h => h) fun _ _ _ _ _ _ hm => .inl hm
    refine hnodes.bind fun existing g' _ => ?_
    split
    · rintro signal ⟨⟩
    · split
      · rintro signal ⟨⟩
      · rename_i ordered hsort
        cases ordered with
        | nil => exact hwalk (walkGraph_uses hgraph hsort (by simp) (by simp))
        | cons node nodes =>
          have hfirst : firstNode d.registry canvas = some node.id := by
            simp [firstNode, hgraph, show topologicalSort d.registry graph = _ from hsort]
          refine (createPending_takes hfirst).bind fun created g'' hg'' => ?_
          split
          · rw [hg'' ‹_›]
            exact hwalk (walkGraph_uses hgraph hsort (fun _ _ _ => trivial) fun _ => rfl)
          · rintro signal ⟨⟩

theorem getRun_uses :
    (getRun (ω := ω) runId).Spec (RunOf runId workflowId canvas) (spending d runId canvas) g
      fun row g' => g' = g ∧ ∀ r, row = some r → r.workflowId = workflowId := by
  intro t w x w' hw h
  cases h
  exact ⟨g, (ledger_idles_refl w).spends g, rfl, hw.row⟩

theorem loadWorkflow_uses (phase : Phase) :
    (loadWorkflow (ω := ω) runId workflowId phase).Spec (RunOf runId workflowId canvas)
      (spending d runId canvas) g fun stored g' => g' = g ∧ ∀ c, stored = some c → c = canvas := by
  intro t w x w' hw h
  dsimp only at h
  split at h
  · cases h
    exact ⟨g, (ledger_idles_refl w).spends g, rfl, fun c hc => by cases hc⟩
  · rename_i stored hs
    cases h
    refine ⟨g, (ledger_idles_note w _ fun _ _ => Note.noConfusion).spends g, rfl, ?_⟩
    rintro c ⟨⟩
    exact hw.stored stored hs

theorem capture_uses (inventory : String) :
    (loadWorkflow (ω := ω) runId workflowId (.capture inventory)).Spec
      (RunOf runId workflowId canvas) (usageMoves d runId canvas) g
      fun stored g' => ∀ c, stored = some c → c = canvas ∧
        (PhasesApart d.registry canvas inventory ∧ g' = g ∨ g' = Set.univ) := by
  by_cases hapart : PhasesApart d.registry canvas inventory
  · refine ((loadWorkflow_uses _).mono (fun _ h => h) fun _ _ _ _ _ _ hm => .inl hm).imp ?_
    rintro stored g' ⟨rfl, hc⟩ c he
    exact ⟨hc c he, .inl ⟨hapart, rfl⟩⟩
  · intro t w x w' hw h
    dsimp only at h
    split at h
    · cases h
      exact ⟨g, .inl ((ledger_idles_refl w).spends g), fun c hc => by cases hc⟩
    · rename_i stored hs
      cases h
      refine ⟨Set.univ, .inr (.inr ⟨inventory, stored, rfl, hapart⟩), ?_⟩
      rintro c ⟨⟩
      exact ⟨hw.stored stored hs, .inr rfl⟩

structure OwnsBelow (canvas : Canvas) (signal : FanOutSignal) (graph : Canvas)
    (g : Set (String × String)) : Prop where
  loads : loadExecutionGraph canvas = .ok graph
  join : signal.joinNodeId = findJoinNodeId signal.inventoryNodeId graph.nodes graph.edges
  owns : ∀ x : String × String,
    x.1 ∈ downstreamNodeIds signal.inventoryNodeId graph.nodes graph.edges → x ∈ g

theorem phaseOne_uses :
    (phaseOne d runId).Spec (RunOf runId workflowId canvas) (usageMoves d runId canvas) g
      fun r g' => ∀ uuid signal graph, r = .ok (.fanOut uuid signal graph) →
        OwnsBelow canvas signal graph g' := by
  refine (getRun_uses.mono (fun _ h => h) fun _ _ _ _ _ _ hm => .inl hm).bind fun row g' hrow => ?_
  cases row with
  | none => rintro uuid signal graph ⟨⟩
  | some row =>
    dsimp only
    rw [hrow.2 row rfl]
    split
    · rintro uuid signal graph ⟨⟩
    · refine ((loadWorkflow_uses _).mono (fun _ h => h) fun _ _ _ _ _ _ hm => .inl hm).bind
        fun stored g'' hstored => ?_
      cases stored with
      | none => rintro uuid signal graph ⟨⟩
      | some stored =>
        dsimp only
        rw [hstored.2 stored rfl]
        refine executeAll_uses.bind fun ended g₁ hended => ?_
        cases ended with
        | refused e => rintro uuid signal graph ⟨⟩
        | alreadyStarted => rintro uuid signal graph ⟨⟩
        | finished st =>
          refine (((stepOps_movesNone.updateRunStatus _ _ _ st.finalStatus_ne).spends g₁).mono
            (fun _ h => h) fun _ _ _ _ _ _ hm => .inl hm).bind fun _ _ _ => ?_
          rintro uuid signal graph ⟨⟩
        | fanOut signal =>
          refine (capture_uses _).bind fun captured g₂ hcaptured => ?_
          split
          · rename_i graph hmap
            rintro uuid signal' graph' ⟨⟩
            obtain ⟨c, rfl, hgraph⟩ := Option.map_eq_some_iff.mp hmap
            obtain ⟨rfl, hg₂⟩ := hcaptured c rfl
            obtain ⟨graph₁, ordered, waves, hgraph₁, hsort, hwaves, hjoin, hrest⟩ :=
              hended signal rfl
            rw [hgraph, Except.ok.injEq] at hgraph₁
            subst hgraph₁
            refine ⟨hgraph, hjoin, fun x hx => ?_⟩
            rcases hg₂ with ⟨hapart, rfl⟩ | rfl
            · exact hrest x fun hx' => hapart _ _ _ hgraph hsort hwaves _ hx' hx
            · trivial
          · rintro uuid signal graph ⟨⟩

end PhaseOne

section Children

variable {d : Deployment ω} {runId : ℕ} {canvas graph : Canvas} {I : World → Prop}
  {signal : FanOutSignal} {g : Set (String × String)}

theorem groups_nodup {plan : FanOutDispatchPlan} (h : parseFanOutDispatch signal = .ok plan) :
    plan.groups.flatten.Nodup := by
  rw [groups_flatten h]
  exact signal.inventoryOutcome.devices.keys_nodup

theorem mem_buildChildInputs {groups : List (List String)} {offset : ℕ} {input : DeviceGroupInput}
    (h : input ∈ buildChildInputs runId signal groups offset) :
    ∃ group ∈ groups, input.context = groupContext signal group ∧
      input.startNodeId = signal.inventoryNodeId ∧ input.joinNodeId = signal.joinNodeId := by
  obtain ⟨i, hi, rfl⟩ := List.mem_mapIdx.mp h
  exact ⟨_, List.getElem_mem hi, rfl, rfl, rfl⟩

theorem groupContext_keys {group : List String} {id : String}
    (h : id ∈ (groupContext signal group).devices.keys) : id ∈ group := by
  rw [Dict.mem_keys_iff, groupContext, Dict.get?_restrict] at h
  split at h
  · rename_i hmem
    exact of_decide_eq_true hmem
  · cases h

/-- Asking for a child leaves its rights with the engine. -/
theorem requestChild_uses {input : DeviceGroupInput}
    (hg : ∀ x ∈ childRights canvas input, x ∈ g) :
    (requestChild (ω := ω) input).Spec I (spending d runId canvas) g fun _ _ => True := by
  intro t w x w' _ h
  cases h
  refine ⟨g \ childRights canvas input,
    ⟨[], childRights canvas input, some w.groupTasks.length, ?_⟩,
    trivial⟩
  constructor
  · exact (List.append_nil _).symm
  · exact List.nodup_nil
  · rintro x ⟨⟩
  · exact Set.sdiff_subset
  · exact hg
  · exact fun x hx hx' => hx'.2 hx
  · rintro x ⟨task, hk, -, -, hx⟩
    rw [List.getElem?_append_right le_rfl, Nat.sub_self] at hk
    cases hk
    exact .inr hx
  · rintro (_ | k) hk x hx
    · exact hx
    · obtain ⟨task, htask, hrest⟩ := hx
      rw [List.getElem?_append] at htask
      split at htask
      · exact ⟨task, htask, hrest⟩
      · rename_i hlt
        have hlt' := (List.getElem?_eq_some_iff.mp htask).1
        simp only [List.length_singleton] at hlt'
        exact absurd (congrArg some (show k = w.groupTasks.length by omega)) hk

/-- The children of some groups, each with the rights on its group. -/
theorem runGroups_uses {groups : List (List String)} {offset : ℕ}
    (hgraph : loadExecutionGraph canvas = .ok graph) (hn : groups.flatten.Nodup)
    (hg : ∀ x : String × String, x.1 ∈ childNodeIds signal.inventoryNodeId signal.joinNodeId
      graph.nodes graph.edges → x.2 ∈ groups.flatten → x ∈ g) :
    (runGroups (ω := ω) runId signal groups offset).Spec I (spending d runId canvas) g
      fun _ g' => ∀ x ∈ g, ¬ (x.1 ∈ childNodeIds signal.inventoryNodeId signal.joinNodeId
        graph.nodes graph.edges ∧ x.2 ∈ groups.flatten) → x ∈ g' := by
  set inputs := buildChildInputs runId signal groups offset with hinputs
  have hright : ∀ input ∈ inputs, ∀ x, x ∈ childRights canvas input →
      x.1 ∈ childNodeIds signal.inventoryNodeId signal.joinNodeId graph.nodes graph.edges ∧
        x.2 ∈ groups.flatten := by
    rintro input hi x ⟨hx, hx'⟩
    obtain ⟨group, hgroup, hctx, hstart, hjoin⟩ := mem_buildChildInputs hi
    rw [childBranch, hgraph] at hx
    dsimp only at hx
    rw [hstart, hjoin] at hx
    rw [hctx] at hx'
    exact ⟨hx, List.mem_flatten.mpr ⟨group, hgroup, groupContext_keys hx'⟩⟩
  have hdis : inputs.Pairwise fun i j => ∀ x ∈ childRights canvas i, x ∉ childRights canvas j := by
    have hgroups := (List.nodup_flatten.mp hn).2
    rw [List.pairwise_iff_getElem] at hgroups ⊢
    intro i j hi hj hij x hx hx'
    simp only [hinputs, buildChildInputs, List.length_mapIdx] at hi hj
    simp only [hinputs, buildChildInputs, List.getElem_mapIdx] at hx hx'
    exact hgroups i j hi hj hij (groupContext_keys hx.2) (groupContext_keys hx'.2)
  have hall : (runGroups (ω := ω) runId signal groups offset).Spec I (spending d runId canvas)
      {x | ∃ input ∈ inputs, x ∈ childRights canvas input} fun _ _ => True := by
    refine (Prog.Spec.gather (Q := fun _ _ => True) Ledger.spends_splits
      (Ledger.splitAll_parts (fun _ => Iff.rfl) hdis) fun input hi => ?_).imp fun _ _ _ => trivial
    refine (requestChild_uses fun x hx => hx).bind fun index g' _ => ?_
    exact ((stepOps_movesNone.awaitChild index).spends g').imp fun _ _ _ => trivial
  have hsub : g = {x | ∃ input ∈ inputs, x ∈ childRights canvas input} ∪
      {x ∈ g | ¬ ∃ input ∈ inputs, x ∈ childRights canvas input} := by
    ext x
    constructor
    · intro hx
      by_cases hr : ∃ input ∈ inputs, x ∈ childRights canvas input
      · exact .inl hr
      · exact .inr ⟨hx, hr⟩
    · rintro (⟨input, hi, hx⟩ | hx)
      · obtain ⟨hx, hx'⟩ := hright input hi x hx
        exact hg x hx hx'
      · exact hx.1
  refine (Prog.Spec.left Ledger.spends_splits ⟨hsub, fun x hx hx' => hx'.2 hx⟩ hall).imp ?_
  rintro results g' ⟨g₁', hg', -⟩ x hx hnot
  rw [hg'.1]
  refine .inr ⟨hx, ?_⟩
  rintro ⟨input, hi, hx'⟩
  exact hnot (hright input hi x hx')

theorem taskOps_movesNone (d : Deployment ω) :
    TaskOps d (fun id => id ≠ runId) (MovesNone d.registry runId canvas I) :=
  stepOps_movesNone.tasks d

theorem passGate_uses {uuid : String} {plan : FanOutDispatchPlan} {firstBatchAuto : Bool}
    {totalBatches batchIndex : ℕ} {batch : List (List String)} {st : BatchState} :
    (passGate (ω := ω) runId signal uuid plan firstBatchAuto totalBatches batchIndex batch st).Spec
      I (spending d runId canvas) g fun _ g' => g' = g := by
  unfold passGate
  split
  · exact ((taskOps_movesNone d).waitAndResumeBatchApproval _ _ _ _).spends g
  · rfl

theorem dispatchBatches_uses {uuid : String} {plan : FanOutDispatchPlan} {firstBatchAuto : Bool}
    {totalBatches : ℕ} (hgraph : loadExecutionGraph canvas = .ok graph)
    {batches : List (List (List String))} {batchIndex : ℕ} {st : BatchState}
    (hn : batches.flatten.flatten.Nodup)
    (hg : ∀ x : String × String, x.1 ∈ childNodeIds signal.inventoryNodeId signal.joinNodeId
      graph.nodes graph.edges → x.2 ∈ batches.flatten.flatten → x ∈ g) :
    (dispatchBatches (ω := ω) runId signal uuid graph plan firstBatchAuto totalBatches batches
      batchIndex st).Spec I (spending d runId canvas) g fun _ g' =>
        ∀ x ∈ g, x.1 ∉ childNodeIds signal.inventoryNodeId signal.joinNodeId graph.nodes
          graph.edges → x ∈ g' := by
  induction batches generalizing batchIndex st g with
  | nil => exact fun x hx _ => hx
  | cons batch batches ih =>
    rw [List.flatten_cons, List.flatten_append, List.nodup_append'] at hn
    obtain ⟨hbatch, hrest, hdis⟩ := hn
    refine passGate_uses.bind fun gate g' hg' => ?_
    subst hg'
    cases gate with
    | error e => exact fun x hx _ => hx
    | ok auto =>
      refine (runGroups_uses hgraph hbatch fun x hx hx' => hg x hx ?_).bind fun results g₁ hg₁ => ?_
      · rw [List.flatten_cons, List.flatten_append]
        exact List.mem_append_left _ hx'
      · refine (((taskOps_movesNone d).aggregateAndPersist _ _ _ _ _).spends g₁).bind
          fun aggregated g₂ hg₂ => ?_
        subst hg₂
        cases aggregated with
        | error e => exact fun x hx hnot => hg₁ x hx fun h => hnot h.1
        | ok aggregated =>
          refine (ih hrest fun x hx hx' => hg₁ x (hg x hx ?_) fun h => ?_).imp
            fun _ g₃ hg₃ x hx hnot => hg₃ x (hg₁ x hx fun h => hnot h.1) hnot
          · rw [List.flatten_cons, List.flatten_append]
            exact List.mem_append_right _ hx'
          · exact hdis h.2 hx'

theorem dispatchChildren_uses {uuid : String} (hgraph : loadExecutionGraph canvas = .ok graph)
    (hg : ∀ x : String × String, x.1 ∈ childNodeIds signal.inventoryNodeId signal.joinNodeId
      graph.nodes graph.edges → x ∈ g) :
    (dispatchChildren (ω := ω) runId signal uuid graph).Spec I (spending d runId canvas) g
      fun _ g' => ∀ x ∈ g, x.1 ∉ childNodeIds signal.inventoryNodeId signal.joinNodeId graph.nodes
        graph.edges → x ∈ g' := by
  unfold dispatchChildren
  split
  · exact fun x hx _ => hx
  · rename_i plan hplan
    have hn := groups_nodup hplan
    split
    · exact fun x hx _ => hx
    · split
      · exact (runGroups_uses hgraph hn fun x hx _ => hg x hx).map fun _ g' h x hx hnot =>
          h x hx fun h => hnot h.1
      · split
        · exact fun x hx _ => hx
        · refine dispatchBatches_uses hgraph ?_ fun x hx _ => hg x hx
          rwa [chunks_flatten (by omega) le_rfl]

end Children

section Resume

variable {d : Deployment ω} {runId workflowId : ℕ} {canvas graph : Canvas} {run : RunInfo}
  {g : Set (String × String)}

theorem resumeAfterJoin_uses {I : World → Prop} {merged : StepOutcomes} {joinNodeId : String}
    (hgraph : loadExecutionGraph canvas = .ok graph)
    (hg : ∀ x : String × String, x.1 ∈ postJoinIds (some joinNodeId) graph → x ∈ g) :
    (resumeAfterJoin (workerRunner d runId) run canvas merged joinNodeId).Spec I
      (spending d runId canvas) g fun _ _ => True := by
  unfold resumeAfterJoin
  rw [hgraph]
  dsimp only
  split
  · trivial
  · rename_i ordered hsort
    refine ((stepOps_movesNone.get _ fun _ _ => rfl).spends g).bind fun existing g' hg' => ?_
    subst hg'
    refine ((createPending_idle _).spends g').bind fun created g'' hg'' => ?_
    subst hg''
    split
    · obtain ⟨hsorted, -⟩ := topologicalSort_spec hsort
      obtain ⟨waves, depth, hwaves, hw⟩ := topologicalGenerations_spec (hsorted.filter fun id =>
        decide (id ∈ joinNodeId :: downstreamNodeIds joinNodeId graph.nodes graph.edges))
      rw [generations, hwaves]
      refine (walkWaves_uses hw.layered fun n hn id => hg _ ?_).bind fun _ _ _ => trivial
      have := (List.mem_filter.mp (hw.mem_flatten.mp hn)).2
      exact of_decide_eq_true this
    · trivial

theorem finalizeFanOutParent_uses {signal : FanOutSignal}
    {results : List (Except String ChildResult)} (hgraph : loadExecutionGraph canvas = .ok graph)
    (hg : ∀ x : String × String, x.1 ∈ postJoinIds signal.joinNodeId graph → x ∈ g) :
    (finalizeFanOutParent d runId signal graph results).Spec (RunOf runId workflowId canvas)
      (spending d runId canvas) g fun _ _ => True := by
  have hstatus : ∀ {I : World → Prop} {g status}, status ≠ RunStatus.pending →
      (do let _ ← updateRunStatus (ω := ω) runId status; return Except.ok () :
        Run ω (Except TaskError Unit)).Spec I (spending d runId canvas) g fun _ _ => True :=
    fun hs => ((stepOps_movesNone.updateRunStatus _ _ _ hs).spends _).bind fun _ _ _ => trivial
  refine getRun_uses.bind fun row g' hrow => ?_
  obtain ⟨rfl, hrow⟩ := hrow
  cases row with
  | none => trivial
  | some row =>
    dsimp only
    rw [hrow row rfl]
    refine (((taskOps_movesNone d).aggregateAndPersist _ _ _ _ _).spends g').bind
      fun aggregated g₁ hg₁ => ?_
    subst hg₁
    cases aggregated with
    | error e => trivial
    | ok aggregated =>
      dsimp only
      split
      · exact hstatus (by split <;> decide)
      · rename_i joinNodeId hjoin
        refine (loadWorkflow_uses _).bind fun stored g₂ hstored => ?_
        obtain ⟨rfl, hstored⟩ := hstored
        cases stored with
        | none => trivial
        | some stored =>
          dsimp only
          rw [hstored stored rfl]
          rw [hjoin] at hg
          refine (resumeAfterJoin_uses hgraph hg).bind fun walked g₃ _ => ?_
          cases walked with
          | finished st => exact hstatus (by split <;> decide)
          | alreadyStarted => trivial
          | refused e => trivial
          | fanOut signal => trivial

/-- The orchestrating task of the run, from whatever it owns. -/
theorem executeSteps_uses :
    (executeSteps d runId).Spec (RunOf runId workflowId canvas) (usageMoves d runId canvas) g
      fun _ _ => True := by
  have hspend : ∀ {α : Type} {p : Run ω α} {g : Set (String × String)} {Q : α → _ → Prop},
      p.Spec (RunOf runId workflowId canvas) (spending d runId canvas) g Q →
      p.Spec (RunOf runId workflowId canvas) (usageMoves d runId canvas) g Q :=
    fun h => h.mono (fun _ h => h) fun _ _ _ _ _ _ hm => .inl hm
  have hfinal : ∀ {g : Set (String × String)} (message : String),
      (do let _ ← failInterrupted (ω := ω) runId message : Run ω Unit).Spec
        (RunOf runId workflowId canvas) (usageMoves d runId canvas) g fun _ _ => True :=
    fun message => (hspend ((stepOps_movesNone.finalise runId message).spends _)).imp
      fun _ _ _ => trivial
  refine Prog.Spec.bind (Q := fun _ _ => True) ?_ fun ended g' _ => ?_
  · refine phaseOne_uses.bind fun walked g₁ hwalked => ?_
    cases walked with
    | error e => trivial
    | ok walked =>
      cases walked with
      | done => trivial
      | fanOut uuid signal graph =>
        obtain ⟨hgraph, hjoin, howns⟩ := hwalked uuid signal graph rfl
        have hphases := mem_child_or_postJoin signal.inventoryNodeId graph
        rw [← hjoin] at hphases
        refine (hspend (dispatchChildren_uses hgraph fun x hx => howns x
          ((hphases x.1).1.mp hx).1)).bind fun results g₂ hg₂ => ?_
        cases results with
        | error e => trivial
        | ok results =>
          refine hspend (finalizeFanOutParent_uses hgraph fun x hx => ?_)
          exact hg₂ x (howns x ((hphases x.1).2 hx)) fun hx' => ((hphases x.1).1.mp hx').2 hx
  · cases ended with
    | ok _ => trivial
    | error e => cases e <;> exact hfinal _

end Resume

theorem mem_of_storedOutcomes {outcomes : List StepOutcome} {name : String}
    {ctx : WorkflowContext} (h : (storedOutcomes outcomes).get? name = some ctx) :
    ∃ o ∈ outcomes, o.context = ctx := by
  rw [storedOutcomes, Dict.get?_ofPairs] at h
  obtain ⟨l₁, l₂, hl, -⟩ := List.lookup_eq_some_iff.mp h
  have hm : (name, ctx) ∈ (outcomes.map fun o => (o.name, o.context)).reverse := by
    rw [hl]
    simp
  obtain ⟨o, ho, he⟩ := List.mem_map.mp (List.mem_reverse.mp hm)
  exact ⟨o, ho, (Prod.mk.inj he).2⟩

section ChildWalk

variable {d : Deployment ω} {runId workflowId : ℕ} {canvas : Canvas} {run : RunInfo}
  {edges : List CanvasEdge} {g : Set (String × String)} {devices : List String}

def KeepsDevices (d : Deployment ω) (canvas : Canvas) (input : DeviceGroupInput) : Prop :=
  ∀ graph, loadExecutionGraph canvas = .ok graph → ∀ n ∈ graph.nodes,
    n.id ∈ childBranch canvas input → ∀ behave, d.executors n.stepType = some behave →
    ∀ ctx run seed outcomes, behave n.data.pluginConfig ctx run n.id seed = .ok outcomes →
    ∀ o ∈ outcomes, ∀ id ∈ o.context.devices.keys, id ∈ ctx.devices.keys

def Within (devices : List String) (so : StepOutcomes) : Prop :=
  ∀ nodeId name ctx, so.at? nodeId name = some ctx → ∀ id ∈ ctx.devices.keys, id ∈ devices

theorem Within.insert {so : StepOutcomes} (h : Within devices so) (nodeId : String)
    {outcomes : Dict WorkflowContext}
    (ho : ∀ name ctx, outcomes.get? name = some ctx → ∀ id ∈ ctx.devices.keys, id ∈ devices) :
    Within devices (so.insert nodeId outcomes) := by
  intro nodeId' name ctx hat
  rw [StepOutcomes.at?, Dict.get?_insert] at hat
  split at hat
  · exact ho name ctx hat
  · exact h nodeId' name ctx hat

theorem Within.input {so : StepOutcomes} (h : Within devices so) {nodeId : String}
    {ctx : WorkflowContext} (hctx : assembleInputContext edges so run nodeId = .ok ctx) :
    ∀ id ∈ ctx.devices.keys, id ∈ devices := by
  intro id hid
  by_contra hnot
  have hnone : ∀ o ∈ arriving edges so nodeId id, o = none := by
    intro o ho
    obtain ⟨e, -, rfl⟩ := List.mem_map.mp ho
    cases hat : so.at? e.source e.outcomeName with
    | none => simp [StepOutcomes.device?, hat]
    | some c =>
      rw [StepOutcomes.device?, hat, Option.bind_some]
      exact Dict.not_mem_keys_iff.mp fun hk => hnot (h _ _ c hat id hk)
  have hdev := assembleInputContext_devices hctx id
  rw [mergeLookups_none hnone, Except.ok.injEq] at hdev
  exact Dict.not_mem_keys_iff.mpr hdev.symm hid

def NodeWithin (devices : List String) : NodeRun → Prop
  | .ran outcomes _ =>
    ∀ name ctx, outcomes.get? name = some ctx → ∀ id ∈ ctx.devices.keys, id ∈ devices
  | _ => True

theorem absorbChild_within {initialContext : WorkflowContext} {st : WalkState} {nodeId : String}
    {r : NodeRun} (h : Within devices st.stepOutcomes)
    (hi : ∀ id ∈ initialContext.devices.keys, id ∈ devices) (hr : NodeWithin devices r) :
    Within devices (st.absorbChild initialContext nodeId r).stepOutcomes := by
  cases r with
  | blocked => exact h
  | ran outcomes failedRow => exact h.insert nodeId hr
  | raised e =>
    refine h.insert nodeId fun name ctx hget => ?_
    rw [Dict.get?_ofPairs, List.reverse_singleton, Dict.lookup_pair_cons] at hget
    split at hget
    · cases hget
      exact hi
    · cases hget

theorem foldl_absorbChild_within {initialContext : WorkflowContext} {wave : List CanvasNode}
    {results : List NodeRun} (hr : List.Forall₂ (fun _ r => NodeWithin devices r) wave results)
    (hi : ∀ id ∈ initialContext.devices.keys, id ∈ devices) {st : WalkState}
    (h : Within devices st.stepOutcomes) :
    Within devices ((wave.zip results).foldl (fun st r => st.absorbChild initialContext r.1.id r.2)
      st).stepOutcomes := by
  induction hr generalizing st with
  | nil => exact h
  | cons hr _ ih => exact ih (absorbChild_within h hi hr)

theorem runSubgraphNode_uses {I : World → Prop} {st : WalkState} {node : CanvasNode}
    (hst : Within devices st.stepOutcomes) (hg : ∀ id ∈ devices, (node.id, id) ∈ g)
    (hkeep : ∀ behave, d.executors node.stepType = some behave → ∀ ctx run seed outcomes,
      behave node.data.pluginConfig ctx run node.id seed = .ok outcomes →
      ∀ o ∈ outcomes, ∀ id ∈ o.context.devices.keys, id ∈ ctx.devices.keys) :
    (runSubgraphNode (workerRunner d runId) run edges st node).Spec I (spending d runId canvas) g
      fun r _ => NodeWithin devices r := by
  unfold runSubgraphNode
  split
  · trivial
  · refine (produceOutcomes_uses fun ctx hctx id hid => hg id (hst.input hctx id hid)).bind
      fun result g' hresult => ?_
    cases result with
    | error e => trivial
    | ok outcomes =>
      obtain ⟨ctx, behave, seed, raw, hctx, hb, hraw, rfl⟩ := hresult outcomes rfl
      intro name out hout id hid
      rw [storedOutcomes_seed] at hout
      obtain ⟨o, ho, rfl⟩ := Option.map_eq_some_iff.mp hout
      obtain ⟨outcome, hmem, rfl⟩ := mem_of_storedOutcomes ho
      refine hst.input hctx id (hkeep behave hb ctx run seed raw hraw outcome hmem id ?_)
      rw [Dict.mem_keys_iff, seedRunInputBag_devices, Option.isSome_map] at hid
      exact Dict.mem_keys_iff.mpr hid

theorem walkChild_uses {I : World → Prop} {initialContext : WorkflowContext}
    (hi : ∀ id ∈ initialContext.devices.keys, id ∈ devices) {waves : List (List CanvasNode)}
    (hl : Layered edges waves) {st : WalkState} (hst : Within devices st.stepOutcomes)
    (hg : ∀ n ∈ waves.flatten, ∀ id ∈ devices, (n.id, id) ∈ g)
    (hkeep : ∀ n ∈ waves.flatten, ∀ behave, d.executors n.stepType = some behave →
      ∀ ctx run seed outcomes, behave n.data.pluginConfig ctx run n.id seed = .ok outcomes →
      ∀ o ∈ outcomes, ∀ id ∈ o.context.devices.keys, id ∈ ctx.devices.keys) :
    (walkChild (workerRunner d runId) run edges initialContext waves st).Spec I
      (spending d runId canvas) g fun _ _ => True := by
  induction waves generalizing st g with
  | nil => trivial
  | cons wave waves ih =>
    obtain ⟨hnd, hdis, -, hl⟩ := hl
    have hlater := fun n hn => hkeep n (List.mem_append_right _ hn)
    refine (stopRequested_uses st).bind fun stop g' hg' => ?_
    subst hg'
    split
    · exact ih hl hst (fun n hn => hg n (List.mem_append_right _ hn)) hlater
    · refine (gather_uses hnd fun n hn => runSubgraphNode_uses hst (fun id hid => ⟨?_, rfl⟩)
        (hkeep n (List.mem_append_left _ hn))).bind fun results g'' h => ?_
      · exact hg n (List.mem_append_left _ hn) id hid
      · refine ih hl (foldl_absorbChild_within h.1 hi hst) (fun n hn id hid => ?_) hlater
        refine h.2 _ (hg n (List.mem_append_right _ hn) id hid) fun hmem => ?_
        obtain ⟨m, hm, he⟩ := List.mem_map.mp hmem
        exact hdis m hm n hn he

/-- A child with the rights on its branch and its devices. -/
theorem runDeviceGroup_uses {input : DeviceGroupInput} (hp : input.parentRunId = runId)
    (hkeep : KeepsDevices d canvas input) :
    (runDeviceGroup d input).Spec (RunOf runId workflowId canvas) (spending d runId canvas)
      (childRights canvas input) fun _ _ => True := by
  subst hp
  refine getRun_uses.bind fun row g' hrow => ?_
  obtain ⟨rfl, hrow⟩ := hrow
  cases row with
  | none => trivial
  | some row =>
    dsimp only
    rw [hrow row rfl]
    refine (loadWorkflow_uses _).bind fun stored g₁ hstored => ?_
    obtain ⟨rfl, hstored⟩ := hstored
    cases stored with
    | none => trivial
    | some stored =>
      dsimp only
      rw [hstored stored rfl]
      split
      · trivial
      · rename_i graph hgraph
        have hbranch : childBranch canvas input =
            childNodeIds input.startNodeId input.joinNodeId graph.nodes graph.edges := by
          rw [childBranch, hgraph]
        refine Prog.Spec.bind (Q := fun _ _ => True) ?_ fun walked g₂ _ => ?_
        · unfold runSubgraph
          rw [hgraph]
          dsimp only
          split
          · trivial
          · rename_i ordered hsort
            obtain ⟨hsorted, -, hnodes⟩ := topologicalSort_spec hsort
            obtain ⟨waves, depth, hwaves, hw⟩ := topologicalGenerations_spec (hsorted.filter
              fun id => decide (id ∈ childNodeIds input.startNodeId input.joinNodeId graph.nodes
                graph.edges))
            have hin : ∀ n ∈ waves.flatten, n ∈ graph.nodes ∧ n.id ∈ childBranch canvas input := by
              intro n hn
              obtain ⟨ho, hb⟩ := List.mem_filter.mp (hw.mem_flatten.mp hn)
              exact ⟨(hnodes n ho).1, hbranch ▸ of_decide_eq_true hb⟩
            have hrights : ∀ n ∈ waves.flatten, ∀ id ∈ input.context.devices.keys,
                (n.id, id) ∈ childRights canvas input := fun n hn id hid => ⟨(hin n hn).2, hid⟩
            rw [generations, hwaves]
            refine (walkChild_uses (fun id hid => hid) hw.layered ?_ hrights
              fun n hn => hkeep graph hgraph n (hin n hn).1 (hin n hn).2).bind
                fun _ _ _ => trivial
            intro nodeId name ctx hat
            simp only [StepOutcomes.at?, childStart, Dict.get?_ofPairs, List.reverse_singleton,
              Dict.lookup_pair_cons, List.lookup_nil] at hat
            split at hat
            · rw [Option.bind_some, Dict.get?_ofPairs, List.reverse_singleton,
                Dict.lookup_pair_cons] at hat
              split at hat
              · cases hat
                exact fun id hid => hid
              · cases hat
            · cases hat
        · cases walked <;> trivial

end ChildWalk

end Manus
