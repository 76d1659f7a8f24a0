import Manus.Runner.Phases

/-! # Undisturbed walks

A walk that nobody cancels, with executors that are functions of their input.
When no node raises, every node ends up with exactly what it computes from the
final outcomes of its parents, whatever the division into waves was.
-/

namespace Manus

abbrev Executors := String → Option (Executor Id)

def pureRunner (registry : PluginRegistry) (executors : Executors) : StepRunner Id where
  registry := registry
  stepRegistry := executors
  cancelRequested := false
  stepResultNodes := []
  createStepResult := fun _ => true
  persistStepResult := fun _ status => status
  gather := fun runs => runs

section Nodes

variable (registry : PluginRegistry) (executors : Executors) (run : RunInfo)
  (edges : List CanvasEdge)

/-- What a node computes; `flag` says which outcomes count as a failed row. -/
def nodeResult (flag : List StepOutcome → Bool) (st : WalkState) (node : CanvasNode) : NodeRun :=
  if nodeBlocked (pureRunner registry executors) edges st node then .blocked
  else
    match produceOutcomes (pureRunner registry executors) run edges st.stepOutcomes node with
    | .ok outcomes => .ran (storedOutcomes outcomes) (flag outcomes)
    | .error e => .raised e

def failedRow (outcomes : List StepOutcome) : Bool := deriveStepResultStatus outcomes = .failed

theorem runNodeInSequence_pure (st : WalkState) (node : CanvasNode) :
    runNodeInSequence (pureRunner registry executors) run edges st node =
      nodeResult registry executors run edges failedRow st node := by
  unfold runNodeInSequence nodeResult
  split
  · rfl
  · cases produceOutcomes (pureRunner registry executors) run edges st.stepOutcomes node <;> rfl

theorem runSubgraphNode_pure (st : WalkState) (node : CanvasNode) :
    runSubgraphNode (pureRunner registry executors) run edges st node =
      nodeResult registry executors run edges (fun _ => false) st node := by
  unfold runSubgraphNode nodeResult
  split
  · rfl
  · cases produceOutcomes (pureRunner registry executors) run edges st.stepOutcomes node <;> rfl

variable {registry executors run edges}

def SameAt (st st' : WalkState) (k : String) : Prop :=
  st.stepOutcomes.get? k = st'.stepOutcomes.get? k ∧
    (k ∈ st.blockedNodes ↔ k ∈ st'.blockedNodes)

theorem SameAt.symm {st st' : WalkState} {k : String} (h : SameAt st st' k) : SameAt st' st k :=
  ⟨h.1.symm, h.2.symm⟩

theorem SameAt.trans {st st' st'' : WalkState} {k : String} (h : SameAt st st' k)
    (h' : SameAt st' st'' k) : SameAt st st'' k :=
  ⟨h.1.trans h'.1, h.2.trans h'.2⟩

theorem SameAt.at? {st st' : WalkState} {k : String} (h : SameAt st st' k) (name : String) :
    st.stepOutcomes.at? k name = st'.stepOutcomes.at? k name := by
  rw [StepOutcomes.at?, StepOutcomes.at?, h.1]

section Parents

variable {st st' : WalkState} {node : CanvasNode}

theorem parentContexts_congr (h : ∀ e ∈ edges, e.target = node.id → SameAt st st' e.source) :
    parentContexts edges st.stepOutcomes node.id =
      parentContexts edges st'.stepOutcomes node.id := by
  refine List.filterMap_congr fun e he => ?_
  obtain ⟨hm, ht⟩ := List.mem_filter.mp he
  exact (h e hm (by simpa using ht)).at? _

theorem nodeBlocked_congr {runner : StepRunner Id}
    (h : ∀ e ∈ edges, e.target = node.id → SameAt st st' e.source) :
    nodeBlocked runner edges st node = nodeBlocked runner edges st' node := by
  have hany : ∀ p q : CanvasEdge → Bool, (∀ e, SameAt st st' e.source → p e = q e) →
      (edges.filter fun e => e.target == node.id).any p =
        (edges.filter fun e => e.target == node.id).any q := by
    intro p q hpq
    rw [Bool.eq_iff_iff, List.any_eq_true, List.any_eq_true]
    refine exists_congr fun e => and_congr_right fun he => ?_
    obtain ⟨hm, ht⟩ := List.mem_filter.mp he
    rw [hpq e (h e hm (by simpa using ht))]
  have hdevices := hany (deliversDevices st.stepOutcomes st.blockedNodes)
    (deliversDevices st'.stepOutcomes st'.blockedNodes) fun e he => by
      simp only [deliversDevices, he.at?, he.2]
  have hfailure := hany (showsFailure st.stepOutcomes st.blockedNodes)
    (showsFailure st'.stepOutcomes st'.blockedNodes) fun e he => by
      simp only [showsFailure, he.at?, he.2]
  simp only [nodeBlocked, blockedByUpstreamFailure, hdevices, hfailure]

theorem assembleInputContext_congr (h : ∀ e ∈ edges, e.target = node.id → SameAt st st' e.source) :
    assembleInputContext edges st.stepOutcomes run node.id =
      assembleInputContext edges st'.stepOutcomes run node.id := by
  unfold assembleInputContext
  rw [parentContexts_congr h]

theorem nodeResult_congr {flag : List StepOutcome → Bool}
    (h : ∀ e ∈ edges, e.target = node.id → SameAt st st' e.source) :
    nodeResult registry executors run edges flag st node =
      nodeResult registry executors run edges flag st' node := by
  unfold nodeResult produceOutcomes
  rw [nodeBlocked_congr h, assembleInputContext_congr h]

end Parents

end Nodes

section Stages

variable {edges : List CanvasEdge}

/-- Run the waves one after another, every node on the state before its wave. -/
def stages (f : WalkState → CanvasNode → NodeRun) : List (List CanvasNode) → WalkState → WalkState
  | [], st => st
  | wave :: waves, st => stages f waves (st.absorbAll (wave.map fun n => (n, f st n)))

/-- No edge leads from a wave to itself or to an earlier wave, and no id occurs twice. -/
def Layered (edges : List CanvasEdge) : List (List CanvasNode) → Prop
  | [] => True
  | wave :: waves =>
    (wave.map CanvasNode.id).Nodup ∧
    (∀ n ∈ wave, ∀ m ∈ waves.flatten, n.id ≠ m.id) ∧
    (∀ n ∈ wave, ∀ e ∈ edges, e.target = n.id → ∀ m ∈ wave ++ waves.flatten, e.source ≠ m.id) ∧
    Layered edges waves

/-- The state holds under a node what the node left behind, and nothing else. -/
def Holds (st : WalkState) (nodeId : String) : NodeRun → Prop
  | .blocked => nodeId ∈ st.blockedNodes ∧ st.stepOutcomes.get? nodeId = none
  | .ran outcomes _ => nodeId ∉ st.blockedNodes ∧ st.stepOutcomes.get? nodeId = some outcomes
  | .raised _ => st.failed = true

theorem Holds.congr {st st' : WalkState} {nodeId : String} {r : NodeRun} (h : Holds st nodeId r)
    (hs : SameAt st st' nodeId) (hf : st.failed = true → st'.failed = true) :
    Holds st' nodeId r := by
  cases r with
  | blocked => exact ⟨hs.2.mp h.1, hs.1 ▸ h.2⟩
  | ran outcomes row => exact ⟨fun hb => h.1 (hs.2.mpr hb), hs.1 ▸ h.2⟩
  | raised e => exact hf h

theorem absorb_sameAt {st : WalkState} {nodeId k : String} {r : NodeRun} (hk : k ≠ nodeId) :
    SameAt st (st.absorb nodeId r) k := by
  cases r <;> simp [SameAt, WalkState.absorb, hk]

theorem absorb_holds {st : WalkState} {nodeId : String} {r : NodeRun}
    (hb : nodeId ∉ st.blockedNodes) (ho : st.stepOutcomes.get? nodeId = none) :
    Holds (st.absorb nodeId r) nodeId r := by
  cases r <;> simp [Holds, WalkState.absorb, hb, ho]

theorem absorb_failed {st : WalkState} {nodeId : String} {r : NodeRun} (h : st.failed = true) :
    (st.absorb nodeId r).failed = true := by
  cases r <;> simp [WalkState.absorb, h]

theorem absorbAll_failed {results : List (CanvasNode × NodeRun)} {st : WalkState}
    (h : st.failed = true) : (st.absorbAll results).failed = true := by
  induction results generalizing st with
  | nil => exact h
  | cons r results ih => exact ih (absorb_failed h)

theorem absorbAll_sameAt {results : List (CanvasNode × NodeRun)} {st : WalkState} {k : String}
    (hk : ∀ r ∈ results, k ≠ r.1.id) : SameAt st (st.absorbAll results) k := by
  induction results generalizing st with
  | nil => exact ⟨rfl, Iff.rfl⟩
  | cons r results ih =>
    have hr := hk r List.mem_cons_self
    exact (absorb_sameAt hr).trans (ih fun r' hr' => hk r' (List.mem_cons_of_mem _ hr'))

theorem absorbAll_holds {results : List (CanvasNode × NodeRun)} {st : WalkState}
    (hn : (results.map fun r => r.1.id).Nodup)
    (hb : ∀ r ∈ results, r.1.id ∉ st.blockedNodes ∧ st.stepOutcomes.get? r.1.id = none) :
    ∀ r ∈ results, Holds (st.absorbAll results) r.1.id r.2 := by
  induction results generalizing st with
  | nil => intro r hr; cases hr
  | cons r₀ results ih =>
    obtain ⟨hn₀, hn⟩ := List.nodup_cons.mp hn
    have hne : ∀ r ∈ results, r.1.id ≠ r₀.1.id := fun r hr he =>
      hn₀ (List.mem_map.mpr ⟨r, hr, he⟩)
    intro r hr
    rcases List.mem_cons.mp hr with rfl | hr
    · obtain ⟨hb₀, ho₀⟩ := hb r List.mem_cons_self
      exact (absorb_holds hb₀ ho₀).congr (absorbAll_sameAt fun r' hr' he => hne r' hr' he.symm)
        absorbAll_failed
    · refine ih hn (fun r' hr' => ?_) r hr
      obtain ⟨hb', ho'⟩ := hb r' (List.mem_cons_of_mem _ hr')
      have hs : SameAt st (st.absorb r₀.1.id r₀.2) r'.1.id := absorb_sameAt (hne r' hr')
      exact ⟨fun h => hb' (hs.2.mpr h), hs.1 ▸ ho'⟩

theorem stages_failed {f : WalkState → CanvasNode → NodeRun} {waves : List (List CanvasNode)}
    {st : WalkState} (h : st.failed = true) : (stages f waves st).failed = true := by
  induction waves generalizing st with
  | nil => exact h
  | cons wave waves ih => exact ih (absorbAll_failed h)

theorem stages_sameAt {f : WalkState → CanvasNode → NodeRun} {waves : List (List CanvasNode)}
    {st : WalkState} {k : String} (hk : ∀ n ∈ waves.flatten, k ≠ n.id) :
    SameAt st (stages f waves st) k := by
  induction waves generalizing st with
  | nil => exact ⟨rfl, Iff.rfl⟩
  | cons wave waves ih =>
    rw [List.flatten_cons] at hk
    have hwave : ∀ r ∈ wave.map fun n => (n, f st n), k ≠ r.1.id := by
      intro r hr
      obtain ⟨n, hn, rfl⟩ := List.mem_map.mp hr
      exact hk n (List.mem_append_left _ hn)
    exact (absorbAll_sameAt hwave).trans (ih fun n hn => hk n (List.mem_append_right _ hn))

/-- After all waves every node holds what it computes from the final state, when the computation
reads nothing but the entries of the node's parents. -/
theorem stages_holds {f : WalkState → CanvasNode → NodeRun} {waves : List (List CanvasNode)}
    {st : WalkState} (hl : Layered edges waves)
    (hread : ∀ st st' n, (∀ e ∈ edges, e.target = n.id → SameAt st st' e.source) →
      f st n = f st' n)
    (hb : ∀ n ∈ waves.flatten, n.id ∉ st.blockedNodes ∧ st.stepOutcomes.get? n.id = none) :
    ∀ n ∈ waves.flatten, Holds (stages f waves st) n.id (f (stages f waves st) n) := by
  induction waves generalizing st with
  | nil => intro n hn; cases hn
  | cons wave waves ih =>
    obtain ⟨hnodup, hdisj, hsrc, hl⟩ := hl
    rw [List.flatten_cons] at hb ⊢
    set st₁ := st.absorbAll (wave.map fun n => (n, f st n)) with hst₁
    have hafter : ∀ k, (∀ m ∈ wave, k ≠ m.id) → SameAt st st₁ k := by
      intro k hk
      refine absorbAll_sameAt fun r hr => ?_
      obtain ⟨m, hm, rfl⟩ := List.mem_map.mp hr
      exact hk m hm
    intro n hn
    rcases List.mem_append.mp hn with hn | hn
    · have hres : Holds st₁ n.id (f st n) := by
        refine absorbAll_holds (by simpa [Function.comp_def] using hnodup) (fun r hr => ?_)
          (n, f st n) (List.mem_map_of_mem (f := fun n => (n, f st n)) hn)
        obtain ⟨m, hm, rfl⟩ := List.mem_map.mp hr
        exact hb m (List.mem_append_left _ hm)
      -- the parents of a node of this wave are in earlier waves: they do not change any more
      have hparents : ∀ e ∈ edges, e.target = n.id →
          SameAt st (stages f waves st₁) e.source := fun e he ht =>
        (hafter _ fun m hm => hsrc n hn e he ht m (List.mem_append_left _ hm)).trans
          (stages_sameAt fun m hm => hsrc n hn e he ht m (List.mem_append_right _ hm))
      rw [show stages f (wave :: waves) st = stages f waves st₁ from rfl,
        ← hread st _ n hparents]
      exact hres.congr (stages_sameAt fun m hm => hdisj n hn m hm) stages_failed
    · refine ih hl (fun m hm => ?_) n hn
      obtain ⟨hbm, hom⟩ := hb m (List.mem_append_right _ hm)
      have hs := hafter m.id fun m' hm' he => hdisj m' hm' m hm he.symm
      exact ⟨fun h => hbm (hs.2.mpr h), hs.1 ▸ hom⟩

variable {ordered : List CanvasNode} {waves : List (List CanvasNode)} {depth : String → Option ℕ}

theorem Waves.mem_flatten (h : Waves ordered edges waves depth) {n : CanvasNode} :
    n ∈ waves.flatten ↔ n ∈ ordered := by
  constructor
  · intro hn
    obtain ⟨wave, hw, hn⟩ := List.mem_flatten.mp hn
    obtain ⟨i, hi, rfl⟩ := List.mem_iff_getElem.mp hw
    rw [← List.getD_eq_getElem _ [] hi] at hn
    exact ((h.mem n i).mp hn).1
  · intro hn
    obtain ⟨d, hd⟩ := Option.isSome_iff_exists.mp ((h.dom n.id).mpr (List.mem_map_of_mem hn))
    have hw := (h.mem n d).mpr ⟨hn, hd⟩
    have hlt := h.bound _ _ hd
    rw [List.getD_eq_getElem _ _ hlt] at hw
    exact List.mem_flatten.mpr ⟨_, List.getElem_mem hlt, hw⟩

/-- The waves of a sorted plan are layered. -/
theorem Waves.layered (h : Waves ordered edges waves depth) : Layered edges waves := by
  have hdepth : ∀ i wave rest, waves.drop i = wave :: rest → ∀ n ∈ wave,
      n ∈ ordered ∧ depth n.id = some i := by
    intro i wave rest hd n hn
    have hi : waves[i]? = some wave := by rw [← List.head?_drop, hd]; rfl
    refine (h.mem n i).mp ?_
    rw [List.getD_eq_getElem?_getD, hi]
    exact hn
  have hlater : ∀ rest i, waves.drop i = rest → ∀ m ∈ rest.flatten,
      m ∈ ordered ∧ ∃ d, depth m.id = some d ∧ i ≤ d := by
    intro rest
    induction rest with
    | nil => intro i _ m hm; cases hm
    | cons wave rest ih =>
      intro i hd m hm
      rcases List.mem_append.mp hm with hm | hm
      · obtain ⟨ho, hdm⟩ := hdepth i wave rest hd m hm
        exact ⟨ho, i, hdm, le_rfl⟩
      · have hd' : waves.drop (i + 1) = rest := by rw [← List.tail_drop, hd]; rfl
        obtain ⟨ho, d, hdm, hle⟩ := ih (i + 1) hd' m hm
        exact ⟨ho, d, hdm, by omega⟩
  have hall : ∀ ws i, waves.drop i = ws → Layered edges ws := by
    intro ws
    induction ws with
    | nil => intro i _; trivial
    | cons wave rest ih =>
      intro i hd
      have hd' : waves.drop (i + 1) = rest := by rw [← List.tail_drop, hd]; rfl
      refine ⟨?_, fun n hn m hm he => ?_, fun n hn e he ht m hm hsrc => ?_, ih (i + 1) hd'⟩
      · exact h.nodup wave (List.mem_of_mem_drop (hd ▸ List.mem_cons_self))
      · obtain ⟨-, hdn⟩ := hdepth i wave rest hd n hn
        obtain ⟨-, d, hdm, hle⟩ := hlater rest (i + 1) hd' m hm
        rw [← he, hdn, Option.some.injEq] at hdm
        omega
      · obtain ⟨hno, hdn⟩ := hdepth i wave rest hd n hn
        obtain ⟨hmo, d, hdm, hle⟩ := hlater (wave :: rest) i hd m hm
        obtain ⟨dm, dn, hm', hn', hlt⟩ := h.below m.id n.id
          ⟨e, he, hsrc, ht, List.mem_map_of_mem hmo, List.mem_map_of_mem hno⟩
        rw [hdm, Option.some.injEq] at hm'
        rw [hdn, Option.some.injEq] at hn'
        omega
  exact hall waves 0 rfl

end Stages

section PureWalks

variable {registry : PluginRegistry} {executors : Executors} {run : RunInfo}
  {edges : List CanvasEdge}

theorem zip_map_self {α β : Type} (l : List α) (f : α → β) :
    l.zip (l.map f) = l.map fun a => (a, f a) := by
  induction l with
  | nil => rfl
  | cons a l ih => simp [ih]

theorem runWave_pure (st : WalkState) (wave : List CanvasNode) :
    runWave (pureRunner registry executors) run edges st wave =
      st.absorbAll (wave.map fun n => (n, nodeResult registry executors run edges failedRow st n))
      := by
  have hmap : (wave.map (runNodeInSequence (pureRunner registry executors) run edges st)) =
      wave.map (nodeResult registry executors run edges failedRow st) :=
    List.map_congr_left fun n _ => runNodeInSequence_pure registry executors run edges st n
  rw [← zip_map_self, ← hmap]
  rfl

theorem walkWaves_pure_cons {β : Type} {handOver : WalkState → List CanvasNode → Option β}
    (wave : List CanvasNode) (waves : List (List CanvasNode)) (st : WalkState) :
    walkWaves (pureRunner registry executors) run edges handOver (wave :: waves) st =
      if st.failed then
        walkWaves (pureRunner registry executors) run edges handOver waves
          { st with failed := true }
      else
        let st₁ := st.absorbAll
          (wave.map fun n => (n, nodeResult registry executors run edges failedRow st n))
        if st₁.failed then
          walkWaves (pureRunner registry executors) run edges handOver waves st₁
        else
          match handOver st₁ wave with
          | some signal => (st₁, some signal)
          | none => walkWaves (pureRunner registry executors) run edges handOver waves st₁ := by
  rw [← runWave_pure]
  by_cases hf : st.failed = true
  · rw [if_pos hf]
    simp only [walkWaves, stopRequested, hf, if_true]
    rfl
  · rw [if_neg hf]
    simp only [walkWaves, stopRequested, hf]
    rfl

theorem walkWaves_pure_failed {β : Type} {handOver : WalkState → List CanvasNode → Option β}
    {waves : List (List CanvasNode)} {st st' : WalkState} {signal : Option β}
    (h : walkWaves (pureRunner registry executors) run edges handOver waves st = (st', signal))
    (hf : st.failed = true) : st'.failed = true := by
  induction waves generalizing st with
  | nil => cases h; exact hf
  | cons wave waves ih =>
    rw [walkWaves_pure_cons, if_pos hf] at h
    exact ih h rfl

theorem walkWaves_pure {β : Type} {handOver : WalkState → List CanvasNode → Option β}
    {waves : List (List CanvasNode)} {st st' : WalkState}
    (h : walkWaves (pureRunner registry executors) run edges handOver waves st = (st', none))
    (hf : st'.failed = false) :
    st' = stages (nodeResult registry executors run edges failedRow) waves st := by
  induction waves generalizing st with
  | nil => cases h; rfl
  | cons wave waves ih =>
    rw [walkWaves_pure_cons] at h
    split at h
    · have := walkWaves_pure_failed h rfl
      rw [hf] at this
      cases this
    · simp only at h
      split at h
      · rename_i h₁
        have := walkWaves_pure_failed h h₁
        rw [hf] at this
        cases this
      · split at h
        · cases h
        · exact ih h

theorem absorbChild_of_not_failed {initialContext : WorkflowContext} {st : WalkState}
    {nodeId : String} {r : NodeRun} (hf : (st.absorbChild initialContext nodeId r).failed = false) :
    st.absorbChild initialContext nodeId r = st.absorb nodeId r := by
  cases r with
  | blocked => rfl
  | ran outcomes row => rfl
  | raised e => cases hf

theorem foldl_absorbChild_failed {initialContext : WorkflowContext}
    {results : List (CanvasNode × NodeRun)} {st : WalkState} (h : st.failed = true) :
    (results.foldl (fun st r => st.absorbChild initialContext r.1.id r.2) st).failed = true := by
  induction results generalizing st with
  | nil => exact h
  | cons r results ih =>
    obtain ⟨n, r⟩ := r
    refine ih ?_
    cases r with
    | blocked => exact h
    | ran outcomes row => exact h
    | raised e => rfl

theorem foldl_absorbChild {initialContext : WorkflowContext}
    {results : List (CanvasNode × NodeRun)} {st : WalkState}
    (hf : (results.foldl (fun st r => st.absorbChild initialContext r.1.id r.2) st).failed =
      false) :
    results.foldl (fun st r => st.absorbChild initialContext r.1.id r.2) st =
      st.absorbAll results := by
  induction results generalizing st with
  | nil => rfl
  | cons r results ih =>
    have h₁ : (st.absorbChild initialContext r.1.id r.2).failed = false := by
      by_contra h
      rw [List.foldl_cons, foldl_absorbChild_failed (by simpa using h)] at hf
      cases hf
    rw [List.foldl_cons, absorbChild_of_not_failed h₁] at hf ⊢
    exact ih hf

theorem walkChild_pure_cons (initialContext : WorkflowContext) (wave : List CanvasNode)
    (waves : List (List CanvasNode)) (st : WalkState) :
    walkChild (pureRunner registry executors) run edges initialContext (wave :: waves) st =
      if st.failed then
        walkChild (pureRunner registry executors) run edges initialContext waves
          { st with failed := true }
      else
        walkChild (pureRunner registry executors) run edges initialContext waves
          ((wave.map fun n =>
              (n, nodeResult registry executors run edges (fun _ => false) st n)).foldl
            (fun st r => st.absorbChild initialContext r.1.id r.2) st) := by
  have hmap : (wave.map (runSubgraphNode (pureRunner registry executors) run edges st)) =
      wave.map (nodeResult registry executors run edges (fun _ => false) st) :=
    List.map_congr_left fun n _ => runSubgraphNode_pure registry executors run edges st n
  rw [← zip_map_self, ← hmap]
  by_cases hf : st.failed = true
  · rw [if_pos hf]
    simp only [walkChild, stopRequested, hf, if_true]
    rfl
  · rw [if_neg hf]
    simp only [walkChild, stopRequested, hf]
    rfl

theorem walkChild_pure_failed {initialContext : WorkflowContext}
    {waves : List (List CanvasNode)} {st : WalkState} (hf : st.failed = true) :
    (walkChild (pureRunner registry executors) run edges initialContext waves st).failed =
      true := by
  induction waves generalizing st with
  | nil => exact hf
  | cons wave waves ih =>
    rw [walkChild_pure_cons, if_pos hf]
    exact ih rfl

theorem walkChild_pure {initialContext : WorkflowContext} {waves : List (List CanvasNode)}
    {st st' : WalkState}
    (h : walkChild (pureRunner registry executors) run edges initialContext waves st = st')
    (hf : st'.failed = false) :
    st' = stages (nodeResult registry executors run edges fun _ => false) waves st := by
  subst h
  induction waves generalizing st with
  | nil => rfl
  | cons wave waves ih =>
    rw [walkChild_pure_cons] at hf ⊢
    split at hf
    · rw [walkChild_pure_failed rfl] at hf
      cases hf
    · rename_i hst
      rw [if_neg hst]
      have h₁ : ((wave.map fun n =>
          (n, nodeResult registry executors run edges (fun _ => false) st n)).foldl
            (fun st r => st.absorbChild initialContext r.1.id r.2) st).failed = false := by
        by_contra h
        rw [walkChild_pure_failed (by simpa using h)] at hf
        cases hf
      rw [foldl_absorbChild h₁] at hf ⊢
      exact ih hf

/-- The final state of a walk over the given nodes, where it started from `start`. -/
structure Settled (f : WalkState → CanvasNode → NodeRun) (nodes : List CanvasNode)
    (start st : WalkState) : Prop where
  holds : ∀ n ∈ nodes, Holds st n.id (f st n)
  frame : ∀ k, k ∉ nodes.map CanvasNode.id → SameAt start st k
  failed : st.failed = false

theorem stages_settled {flag : List StepOutcome → Bool} {nodes : List CanvasNode}
    {start : WalkState} (hs : Sorted nodes edges)
    (hb : ∀ n ∈ nodes, n.id ∉ start.blockedNodes ∧ start.stepOutcomes.get? n.id = none)
    (hf : (stages (nodeResult registry executors run edges flag) (generations nodes edges)
      start).failed = false) :
    Settled (nodeResult registry executors run edges flag) nodes start
      (stages (nodeResult registry executors run edges flag) (generations nodes edges) start) := by
  obtain ⟨waves, depth, hw, hwaves⟩ := topologicalGenerations_spec hs
  have hgen : generations nodes edges = waves := by simp [generations, hw]
  rw [hgen] at hf ⊢
  refine ⟨fun n hn => ?_, fun k hk => ?_, hf⟩
  · exact stages_holds (f := nodeResult registry executors run edges flag) hwaves.layered
      (fun _ _ _ h => nodeResult_congr h) (fun m hm => hb m (hwaves.mem_flatten.mp hm)) n
      (hwaves.mem_flatten.mpr hn)
  · exact stages_sameAt fun n hn he => hk (he ▸ List.mem_map_of_mem (hwaves.mem_flatten.mp hn))

theorem executeAll_settled {canvas graph : Canvas} {st : WalkState}
    (hg : loadExecutionGraph canvas = .ok graph)
    (h : executeAll (pureRunner registry executors) run canvas = .finished st)
    (hf : st.failed = false) :
    ∃ ordered, topologicalSort registry graph = .ok ordered ∧
      Settled (nodeResult registry executors run graph.edges failedRow) ordered {} st := by
  simp only [executeAll, hg] at h
  cases hs : topologicalSort registry graph with
  | error e =>
    simp only [pureRunner, hs] at h
    cases h
  | ok ordered =>
    refine ⟨ordered, rfl, ?_⟩
    have hcreate : createPendingStepResults (pureRunner registry executors) ordered = true := by
      clear hs h
      induction ordered with
      | nil => rfl
      | cons n rest ih => exact ih
    have hwalk : walkGraph (pureRunner registry executors) run graph ordered = .finished st := by
      rw [← h]
      simp only [pureRunner] at hs hcreate ⊢
      simp only [hs, bind, hcreate]
      rfl
    obtain ⟨hsort, -, -⟩ := topologicalSort_spec hs
    cases hw : walkWaves (pureRunner registry executors) run graph.edges (fanOutRequested graph)
      (generations ordered graph.edges) {} with
    | mk st' signal =>
      simp only [walkGraph, hw, bind, pure] at hwalk
      cases signal with
      | some signal => cases hwalk
      | none =>
        cases hwalk
        have hstages := walkWaves_pure hw hf
        rw [hstages] at hf ⊢
        exact stages_settled hsort (fun n _ => ⟨by simp, rfl⟩) hf

theorem runSubgraph_settled {canvas graph : Canvas} {initialContext : WorkflowContext}
    {inventory : String} {allowed : List String} {ordered : List CanvasNode} {st : WalkState}
    (hg : loadExecutionGraph canvas = .ok graph)
    (hs : topologicalSort registry graph = .ok ordered) (hi : inventory ∉ allowed)
    (h : runSubgraph (pureRunner registry executors) run canvas initialContext inventory allowed =
      .ok st) (hf : st.failed = false) :
    Settled (nodeResult registry executors run graph.edges fun _ => false)
      (ordered.filter fun n => n.id ∈ allowed) (childStart inventory initialContext) st := by
  obtain ⟨hsort, -, -⟩ := topologicalSort_spec hs
  have hwalk : walkChild (pureRunner registry executors) run graph.edges initialContext
      (generations (ordered.filter fun n => n.id ∈ allowed) graph.edges)
      (childStart inventory initialContext) = st := by
    simp only [runSubgraph, hg] at h
    simp only [pureRunner] at hs h
    simp only [hs] at h
    exact Except.ok.inj h
  have hstages := walkChild_pure hwalk hf
  rw [hstages] at hf ⊢
  refine stages_settled
    (hsort.filter fun id => id ∈ allowed) (fun n hn => ⟨by simp [childStart], ?_⟩) hf
  have hne : n.id ≠ inventory := fun he =>
    hi (he ▸ of_decide_eq_true (List.mem_filter.mp hn).2)
  simp [childStart, Dict.get?_ofPairs, Dict.lookup_pair_cons, hne]

end PureWalks

end Manus
