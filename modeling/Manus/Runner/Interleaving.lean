import Manus.Runner.Settled
import Manus.Lib.Steps

/-! # Interleavings of a walk

The nodes of a wave run concurrently on shared maps without a lock. Here every
read and write of a node is a move of its own, and the moves of siblings come in
any order. Whatever the order, the walk ends as if each wave had been run at
once on the state before it.
-/

namespace Manus

open Function

section Tasks

/-- What the nodes of a walk share: the two maps and the step rows. -/
structure SharedState where
  stepOutcomes : StepOutcomes := ∅
  blockedNodes : List String := []
  rows : String → StepStatus := fun _ => .pending

def SharedState.walk (s : SharedState) : WalkState where
  stepOutcomes := s.stepOutcomes
  blockedNodes := s.blockedNodes

/-- How far a node has come: before each of these it has read or written the shared state. -/
inductive NodeTask where
  | start
  | skipping
  | skipped
  | starting
  | assembling
  | executing (context : WorkflowContext)
  | storing (outcomes : List StepOutcome)
  | reporting (outcomes : List StepOutcome)
  | failing (error : StepError)
  | finished (result : NodeRun) (row : StepStatus)

variable (registry : PluginRegistry) (executors : Executors) (run : RunInfo)
  (edges : List CanvasEdge)

def SharedState.write (s : SharedState) (nodeId : String) (status : StepStatus) : SharedState :=
  { s with rows := update s.rows nodeId status }

/-- The next move of a node. -/
def taskStep (node : CanvasNode) (s : SharedState) : NodeTask → Option (SharedState × NodeTask)
  | .start =>
    if nodeBlocked (pureRunner registry executors) edges s.walk node then some (s, .skipping)
    else some (s, .starting)
  | .skipping => some (s.write node.id .skipped, .skipped)
  | .skipped =>
    some ({ s with blockedNodes := node.id :: s.blockedNodes }, .finished .blocked .skipped)
  | .starting => some (s.write node.id .running, .assembling)
  | .assembling =>
    match assembleInputContext edges s.stepOutcomes run node.id with
    | .error message => some (s, .failing (.merge message))
    | .ok context => some (s, .executing context)
  | .executing context =>
    match executeStep (pureRunner registry executors) run node context with
    | .error e => some (s, .failing e)
    | .ok outcomes => some (s, .storing (seedRunInputs run outcomes))
  | .storing outcomes =>
    some ({ s with stepOutcomes := s.stepOutcomes.insert node.id (storedOutcomes outcomes) },
      .reporting outcomes)
  | .reporting outcomes =>
    let row := deriveStepResultStatus outcomes
    some (s.write node.id row, .finished (.ran (storedOutcomes outcomes) (row = .failed)) row)
  | .failing e => some (s.write node.id .failed, .finished (.raised e) .failed)
  | .finished _ _ => none

/-- What the node stored so far. -/
def NodeTask.stored : NodeTask → Option (Dict WorkflowContext)
  | .reporting outcomes => some (storedOutcomes outcomes)
  | .finished (.ran outcomes _) _ => some outcomes
  | _ => none

/-- The node has put itself among the blocked ones. -/
def NodeTask.blocks : NodeTask → Prop
  | .finished .blocked _ => True
  | _ => False

/-- The status the node last wrote to its row. -/
def NodeTask.row : NodeTask → Option StepStatus
  | .skipped => some .skipped
  | .assembling | .executing _ | .storing _ | .reporting _ | .failing _ => some .running
  | .finished _ row => some row
  | _ => none

/-- How a node ends that reads the given state throughout. -/
def nodeEnd (s : SharedState) (node : CanvasNode) : NodeRun × StepStatus :=
  if nodeBlocked (pureRunner registry executors) edges s.walk node then (.blocked, .skipped)
  else
    match produceOutcomes (pureRunner registry executors) run edges s.stepOutcomes node with
    | .ok outcomes => (.ran (storedOutcomes outcomes) (failedRow outcomes),
        deriveStepResultStatus outcomes)
    | .error e => (.raised e, .failed)

/-- A point a node comes to that reads the given state throughout. -/
def OnPath (s : SharedState) (node : CanvasNode) : NodeTask → Prop
  | .start => True
  | .skipping | .skipped => nodeBlocked (pureRunner registry executors) edges s.walk node = true
  | .starting | .assembling => nodeBlocked (pureRunner registry executors) edges s.walk node = false
  | .executing context => nodeBlocked (pureRunner registry executors) edges s.walk node = false ∧
      assembleInputContext edges s.stepOutcomes run node.id = .ok context
  | .storing outcomes | .reporting outcomes =>
    nodeBlocked (pureRunner registry executors) edges s.walk node = false ∧
      produceOutcomes (pureRunner registry executors) run edges s.stepOutcomes node = .ok outcomes
  | .failing e => nodeBlocked (pureRunner registry executors) edges s.walk node = false ∧
      produceOutcomes (pureRunner registry executors) run edges s.stepOutcomes node = .error e
  | .finished result row => nodeEnd registry executors run edges s node = (result, row)

/-- The two states agree on what is stored under a node id, and on its row. -/
def AlikeAt (s s' : SharedState) (k : String) : Prop :=
  SameAt s.walk s'.walk k ∧ s.rows k = s'.rows k

variable {registry executors run edges}

theorem AlikeAt.refl (s : SharedState) (k : String) : AlikeAt s s k := ⟨⟨rfl, Iff.rfl⟩, rfl⟩

theorem AlikeAt.trans {s s' s'' : SharedState} {k : String} (h : AlikeAt s s' k)
    (h' : AlikeAt s' s'' k) : AlikeAt s s'' k := ⟨h.1.trans h'.1, h.2.trans h'.2⟩

theorem AlikeAt.symm {s s' : SharedState} {k : String} (h : AlikeAt s s' k) : AlikeAt s' s k :=
  ⟨h.1.symm, h.2.symm⟩

variable {s₀ s s' : SharedState} {node : CanvasNode} {t t' : NodeTask}

theorem nodeEnd_congr (h : ∀ e ∈ edges, e.target = node.id → SameAt s.walk s'.walk e.source) :
    nodeEnd registry executors run edges s node = nodeEnd registry executors run edges s' node := by
  have hinput : assembleInputContext edges s.stepOutcomes run node.id =
      assembleInputContext edges s'.stepOutcomes run node.id := assembleInputContext_congr h
  unfold nodeEnd produceOutcomes
  rw [nodeBlocked_congr h, hinput]

/-- A move keeps a node on its path, as long as its parents' entries are those the path starts
from. -/
theorem taskStep_onPath (h : taskStep registry executors run edges node s t = some (s', t'))
    (hread : ∀ e ∈ edges, e.target = node.id → SameAt s₀.walk s.walk e.source)
    (hp : OnPath registry executors run edges s₀ node t) :
    OnPath registry executors run edges s₀ node t' := by
  have hblocked := @nodeBlocked_congr edges _ _ node (pureRunner registry executors) hread
  have hinput : assembleInputContext edges s₀.stepOutcomes run node.id =
      assembleInputContext edges s.stepOutcomes run node.id := assembleInputContext_congr hread
  cases t with
  | start =>
    simp only [taskStep] at h
    split at h
    · rename_i hb
      cases h
      exact hblocked.trans hb
    · rename_i hb
      cases h
      exact hblocked.trans (by simpa using hb)
  | skipping =>
    cases h
    exact hp
  | skipped =>
    cases h
    have hb : nodeBlocked (pureRunner registry executors) edges s₀.walk node = true := hp
    simp [OnPath, nodeEnd, hb]
  | starting =>
    cases h
    exact hp
  | assembling =>
    simp only [taskStep, ← hinput] at h
    split at h
    · rename_i hm
      cases h
      refine ⟨hp, ?_⟩
      simp only [produceOutcomes, hm]
      rfl
    · rename_i hc
      cases h
      exact ⟨hp, hc⟩
  | executing context =>
    obtain ⟨hb, hc⟩ := hp
    simp only [taskStep] at h
    split at h
    · rename_i he
      cases h
      refine ⟨hb, ?_⟩
      simp only [produceOutcomes, hc, bind, pure, he]
      rfl
    · rename_i ho
      cases h
      refine ⟨hb, ?_⟩
      simp only [produceOutcomes, hc, bind, pure, ho]
      rfl
  | storing outcomes =>
    cases h
    exact hp
  | reporting outcomes =>
    obtain ⟨hb, ho⟩ := hp
    cases h
    simp [OnPath, nodeEnd, hb, ho, failedRow]
  | failing e =>
    obtain ⟨hb, he⟩ := hp
    cases h
    simp [OnPath, nodeEnd, hb, he]
  | finished result row => cases h

/-- What a move writes: nothing but the node's own entries, as its point on the path says. -/
structure Writes (node : CanvasNode) (s s' : SharedState) (t t' : NodeTask) : Prop where
  frame : ∀ k, k ≠ node.id → AlikeAt s s' k
  stored : ∀ x, s.stepOutcomes.get? node.id = t.stored.or x →
    s'.stepOutcomes.get? node.id = t'.stored.or x
  blocked : ∀ b : Prop, (node.id ∈ s.blockedNodes ↔ t.blocks ∨ b) →
    (node.id ∈ s'.blockedNodes ↔ t'.blocks ∨ b)
  row : ∀ r, s.rows node.id = t.row.getD r → s'.rows node.id = t'.row.getD r

theorem taskStep_writes (h : taskStep registry executors run edges node s t = some (s', t')) :
    Writes node s s' t t' := by
  have hframe : ∀ status, ∀ k, k ≠ node.id → AlikeAt s (s.write node.id status) k := by
    intro status k hk
    simp [AlikeAt, SameAt, SharedState.walk, SharedState.write, hk]
  cases t with
  | start =>
    simp only [taskStep] at h
    split at h <;>
    · cases h
      exact ⟨fun k _ => .refl s k, fun _ h => h, fun _ h => h, fun _ h => h⟩
  | skipping =>
    cases h
    refine ⟨hframe _, fun _ h => h, fun _ h => h, fun _ _ => ?_⟩
    simp [SharedState.write, NodeTask.row]
  | skipped =>
    cases h
    refine ⟨fun k hk => ?_, fun _ h => h, fun b _ => ?_, fun _ h => h⟩
    · simp [AlikeAt, SameAt, SharedState.walk, hk]
    · simp [NodeTask.blocks]
  | starting =>
    cases h
    refine ⟨hframe _, fun _ h => h, fun _ h => h, fun _ _ => ?_⟩
    simp [SharedState.write, NodeTask.row]
  | assembling =>
    simp only [taskStep] at h
    split at h <;>
    · cases h
      exact ⟨fun k _ => .refl s k, fun _ h => h, fun _ h => h, fun _ h => h⟩
  | executing context =>
    simp only [taskStep] at h
    split at h <;>
    · cases h
      exact ⟨fun k _ => .refl s k, fun _ h => h, fun _ h => h, fun _ h => h⟩
  | storing outcomes =>
    cases h
    refine ⟨fun k hk => ?_, fun _ _ => ?_, fun _ h => h, fun _ h => h⟩
    · simp [AlikeAt, SameAt, SharedState.walk, hk]
    · simp [NodeTask.stored]
  | reporting outcomes =>
    cases h
    refine ⟨hframe _, fun _ h => h, fun _ h => h, fun _ _ => ?_⟩
    simp [SharedState.write, NodeTask.row]
  | failing e =>
    cases h
    refine ⟨hframe _, fun _ h => h, fun _ h => h, fun _ _ => ?_⟩
    simp [SharedState.write, NodeTask.row]
  | finished result row => cases h

end Tasks

section Wave

variable (registry : PluginRegistry) (executors : Executors) (run : RunInfo)
  (edges : List CanvasEdge)

/-- The ids of a wave are distinct, and no edge leads from the wave to itself. -/
structure IsWave (edges : List CanvasEdge) (wave : List CanvasNode) : Prop where
  nodup : (wave.map CanvasNode.id).Nodup
  sources : ∀ n ∈ wave, ∀ e ∈ edges, e.target = n.id → ∀ m ∈ wave, e.source ≠ m.id

/-- The nodes of a wave are each on their path from the state before the wave, and their entries
say how far they are. -/
structure WaveInv (s₀ : SharedState) (wave : List CanvasNode) (tasks : List (CanvasNode × NodeTask))
    (s : SharedState) : Prop where
  nodes : tasks.map Prod.fst = wave
  path : ∀ p ∈ tasks, OnPath registry executors run edges s₀ p.1 p.2
  stored : ∀ p ∈ tasks, s.stepOutcomes.get? p.1.id =
    p.2.stored.or (s₀.stepOutcomes.get? p.1.id)
  blocked : ∀ p ∈ tasks, p.1.id ∈ s.blockedNodes ↔ p.2.blocks ∨ p.1.id ∈ s₀.blockedNodes
  row : ∀ p ∈ tasks, s.rows p.1.id = p.2.row.getD (s₀.rows p.1.id)
  frame : ∀ k, (∀ n ∈ wave, k ≠ n.id) → AlikeAt s₀ s k

variable {registry executors run edges} {wave : List CanvasNode}
  {tasks : List (CanvasNode × NodeTask)} {s₀ s s' : SharedState} {node : CanvasNode}
  {t t' : NodeTask}

theorem WaveInv.start (s₀ : SharedState) (wave : List CanvasNode) :
    WaveInv registry executors run edges s₀ wave (wave.map fun n => (n, .start)) s₀ := by
  have htask : ∀ p ∈ wave.map fun n => (n, NodeTask.start), p.2 = .start := by
    intro p hp
    obtain ⟨n, -, rfl⟩ := List.mem_map.mp hp
    rfl
  constructor
  · simp [comp_def]
  · intro p hp
    rw [htask p hp]
    trivial
  · intro p hp
    rw [htask p hp]
    rfl
  · intro p hp
    rw [htask p hp]
    simp [NodeTask.blocks]
  · intro p hp
    rw [htask p hp]
    rfl
  · exact fun k _ => .refl s₀ k

theorem mem_set_of_nodup (hn : (tasks.map fun p => p.1.id).Nodup) {i : ℕ}
    (hi : tasks[i]? = some (node, t)) {p : CanvasNode × NodeTask}
    (hp : p ∈ tasks.set i (node, t')) : p = (node, t') ∨ p ∈ tasks ∧ p.1.id ≠ node.id := by
  obtain ⟨j, hj⟩ := List.getElem?_of_mem hp
  rw [List.getElem?_set] at hj
  split at hj
  · split at hj
    · exact .inl (Option.some.inj hj).symm
    · cases hj
  · rename_i hij
    refine .inr ⟨List.mem_of_getElem? hj, fun he => hij ?_⟩
    have hlt : i < (tasks.map fun p => p.1.id).length := by
      simpa using (List.getElem?_eq_some_iff.mp hi).1
    apply (List.getElem?_inj hlt hn).mp
    simp [hi, hj, he]

/-- One move of one node. -/
theorem WaveInv.step (h : WaveInv registry executors run edges s₀ wave tasks s)
    (hw : IsWave edges wave) {i : ℕ} (hi : tasks[i]? = some (node, t))
    (hm : taskStep registry executors run edges node s t = some (s', t')) :
    WaveInv registry executors run edges s₀ wave (tasks.set i (node, t')) s' := by
  have hmem : (node, t) ∈ tasks := List.mem_of_getElem? hi
  have hnode : ∀ p ∈ tasks, p.1 ∈ wave := fun p hp => h.nodes ▸ List.mem_map_of_mem hp
  have hids : (tasks.map fun p => p.1.id).Nodup := by
    have hn := hw.nodup
    rw [← h.nodes, List.map_map] at hn
    exact hn
  have hwrites := taskStep_writes hm
  have hpath := taskStep_onPath hm (fun e he ht => (h.frame e.source fun m hmw =>
    hw.sources node (hnode _ hmem) e he ht m hmw).1) (h.path _ hmem)
  constructor
  · have hwave : wave[i]? = some node := by
      rw [← h.nodes, List.getElem?_map, hi]
      rfl
    obtain ⟨hlt, hget⟩ := List.getElem?_eq_some_iff.mp hwave
    rw [List.map_set, h.nodes, ← hget, List.set_getElem_self]
  · intro p hp
    rcases mem_set_of_nodup hids hi hp with rfl | ⟨hp, -⟩
    · exact hpath
    · exact h.path p hp
  · intro p hp
    rcases mem_set_of_nodup hids hi hp with rfl | ⟨hp, hne⟩
    · exact hwrites.stored _ (h.stored _ hmem)
    · rw [← h.stored p hp]
      exact (hwrites.frame _ hne).1.1.symm
  · intro p hp
    rcases mem_set_of_nodup hids hi hp with rfl | ⟨hp, hne⟩
    · exact hwrites.blocked _ (h.blocked _ hmem)
    · rw [← h.blocked p hp]
      exact (hwrites.frame _ hne).1.2.symm
  · intro p hp
    rcases mem_set_of_nodup hids hi hp with rfl | ⟨hp, hne⟩
    · exact hwrites.row _ (h.row _ hmem)
    · rw [← h.row p hp]
      exact (hwrites.frame _ hne).2.symm
  · intro k hk
    exact (h.frame k hk).trans (hwrites.frame k (hk node (hnode _ hmem)))

/-- Take over how one node ended. -/
def SharedState.take (s : SharedState) (node : CanvasNode) (r : NodeRun × StepStatus) :
    SharedState where
  stepOutcomes :=
    match r.1 with
    | .ran outcomes _ => s.stepOutcomes.insert node.id outcomes
    | _ => s.stepOutcomes
  blockedNodes :=
    match r.1 with
    | .blocked => node.id :: s.blockedNodes
    | _ => s.blockedNodes
  rows := update s.rows node.id r.2

/-- The state after a wave whose nodes all read the state before it. -/
def SharedState.afterWave (registry : PluginRegistry) (executors : Executors) (run : RunInfo)
    (edges : List CanvasEdge) (s : SharedState) (wave : List CanvasNode) : SharedState :=
  wave.foldl (fun acc n => acc.take n (nodeEnd registry executors run edges s n)) s

/-- The same maps and rows. -/
def SharedState.Alike (s s' : SharedState) : Prop := ∀ k, AlikeAt s s' k

theorem take_writes (s : SharedState) (r : NodeRun × StepStatus) :
    (∀ k, k ≠ node.id → AlikeAt s (s.take node r) k) ∧
    (s.take node r).stepOutcomes.get? node.id =
      (NodeTask.finished r.1 r.2).stored.or (s.stepOutcomes.get? node.id) ∧
    (node.id ∈ (s.take node r).blockedNodes ↔
      (NodeTask.finished r.1 r.2).blocks ∨ node.id ∈ s.blockedNodes) ∧
    (s.take node r).rows node.id = r.2 := by
  obtain ⟨result, row⟩ := r
  refine ⟨fun k hk => ?_, ?_, ?_, ?_⟩
  · cases result <;> simp [AlikeAt, SameAt, SharedState.walk, SharedState.take, hk]
  · cases result <;> simp [SharedState.take, NodeTask.stored]
  · cases result <;> simp [SharedState.take, NodeTask.blocks]
  · simp [SharedState.take]

/-- A fold over nodes with distinct ids takes over every end. -/
theorem foldl_take {f : CanvasNode → NodeRun × StepStatus} (hn : (wave.map CanvasNode.id).Nodup)
    (s : SharedState) :
    (∀ k, (∀ n ∈ wave, k ≠ n.id) →
      AlikeAt s (wave.foldl (fun acc n => acc.take n (f n)) s) k) ∧
    ∀ n ∈ wave, AlikeAt (s.take n (f n)) (wave.foldl (fun acc n => acc.take n (f n)) s) n.id := by
  induction wave generalizing s with
  | nil => exact ⟨fun k _ => .refl s k, by simp⟩
  | cons m wave ih =>
    rw [List.map_cons, List.nodup_cons] at hn
    obtain ⟨hframe, hat⟩ := ih hn.2 (s.take m (f m))
    have hm : ∀ n ∈ wave, n.id ≠ m.id := fun n hw he => hn.1 (he ▸ List.mem_map_of_mem hw)
    constructor
    · intro k hk
      exact ((take_writes s (f m)).1 k (hk m List.mem_cons_self)).trans
        (hframe k fun n hw => hk n (List.mem_cons_of_mem m hw))
    · intro n hw
      rcases List.mem_cons.mp hw with rfl | hw
      · exact hframe n.id fun n' hw' he => hm n' hw' he.symm
      · refine AlikeAt.trans ?_ (hat n hw)
        have hbefore := (take_writes s (f m)).1 n.id (hm n hw)
        obtain ⟨-, hs, hb, hr⟩ := @take_writes n s (f n)
        obtain ⟨-, hs', hb', hr'⟩ := @take_writes n (s.take m (f m)) (f n)
        have hsame := hbefore.1.1
        simp only [SharedState.walk] at hsame
        refine ⟨⟨hs.trans ?_, hb.trans ?_⟩, hr.trans hr'.symm⟩
        · rw [hsame]
          exact hs'.symm
        · rw [show n.id ∈ s.blockedNodes ↔ n.id ∈ (s.take m (f m)).blockedNodes from hbefore.1.2]
          exact hb'.symm

/-- When all nodes of a wave have finished, in whatever order, it is as if each had run alone. -/
theorem WaveInv.done (h : WaveInv registry executors run edges s₀ wave tasks s)
    (hw : IsWave edges wave) (hf : ∀ p ∈ tasks, ∃ result row, p.2 = .finished result row) :
    s.Alike (s₀.afterWave registry executors run edges wave) ∧
      tasks = wave.map fun n => (n, .finished (nodeEnd registry executors run edges s₀ n).1
        (nodeEnd registry executors run edges s₀ n).2) := by
  have htask : ∀ p ∈ tasks, p.2 = .finished (nodeEnd registry executors run edges s₀ p.1).1
      (nodeEnd registry executors run edges s₀ p.1).2 := by
    intro p hp
    obtain ⟨result, row, he⟩ := hf p hp
    have hpath := h.path p hp
    rw [he] at hpath
    have hend : nodeEnd registry executors run edges s₀ p.1 = (result, row) := hpath
    rw [he, hend]
  obtain ⟨hframe, hat⟩ := @foldl_take wave (nodeEnd registry executors run edges s₀) hw.nodup s₀
  constructor
  · intro k
    by_cases hk : ∃ p ∈ tasks, p.1.id = k
    · obtain ⟨p, hp, rfl⟩ := hk
      have hmem : p.1 ∈ wave := h.nodes ▸ List.mem_map_of_mem hp
      refine AlikeAt.trans ?_ (hat p.1 hmem)
      obtain ⟨-, hs, hb, hr⟩ :=
        @take_writes p.1 s₀ (nodeEnd registry executors run edges s₀ p.1)
      refine ⟨⟨?_, ?_⟩, ?_⟩
      · refine (h.stored p hp).trans ?_
        rw [htask p hp]
        exact hs.symm
      · refine (h.blocked p hp).trans ?_
        rw [htask p hp]
        exact hb.symm
      · rw [h.row p hp, htask p hp]
        exact hr.symm
    · have hne : ∀ n ∈ wave, k ≠ n.id := by
        rintro n hn rfl
        rw [← h.nodes] at hn
        obtain ⟨p, hp, rfl⟩ := List.mem_map.mp hn
        exact hk ⟨p, hp, rfl⟩
      exact (h.frame k hne).symm.trans (hframe k hne)
  · rw [← h.nodes, List.map_map]
    exact (List.map_id tasks).symm.trans
      (List.map_congr_left fun p hp => Prod.ext rfl (htask p hp))

end Wave

section Walk

variable (registry : PluginRegistry) (executors : Executors) (run : RunInfo)
  (edges : List CanvasEdge) (cancelled : ℕ → Bool)
  (handOver : SharedState → List CanvasNode → Option FanOutSignal)

structure LoopState where
  shared : SharedState
  failed : Bool := false
  anyReportedFailure : Bool := false
  /-- How often the cancel flag was read. -/
  reads : ℕ := 0

inductive LoopPhase where
  | between
  | working (tasks : List (CanvasNode × NodeTask))
  | returned (signal : Option FanOutSignal)

structure WalkRun where
  loop : LoopState
  phase : LoopPhase
  rest : List (List CanvasNode)

/-- The loop goes on, or a node of the wave at work moves. -/
inductive WalkMove where
  | proceed
  | node (i : ℕ)

/-- Before a wave the cancel flag is read, unless the walk failed already. -/
def LoopState.readFlag (l : LoopState) : LoopState :=
  if l.failed then l else { l with failed := cancelled l.reads, reads := l.reads + 1 }

/-- The rows of a wave that is not run are marked. -/
def LoopState.skip (l : LoopState) (wave : List CanvasNode) : LoopState :=
  { l with shared := wave.foldl (fun s n => s.write n.id .skipped) l.shared }

def NodeRun.isRaised : NodeRun → Bool
  | .raised _ => true
  | _ => false

def NodeRun.indicatesFailure : NodeRun → Bool
  | .blocked => true
  | .ran _ failedRow => failedRow
  | .raised _ => true

/-- What the loop makes of the results of a wave. -/
def LoopState.close (l : LoopState) (results : List NodeRun) : LoopState :=
  if results.any NodeRun.isRaised then { l with failed := true }
  else { l with
    anyReportedFailure := l.anyReportedFailure || results.any NodeRun.indicatesFailure }

/-- The results of a wave, once all its nodes have finished. -/
def finishedResults (tasks : List (CanvasNode × NodeTask)) : Option (List NodeRun) :=
  tasks.mapM fun p =>
    match p.2 with
    | .finished result _ => some result
    | _ => none

def takeUp (l : LoopState) (wave : List CanvasNode) (rest : List (List CanvasNode)) : WalkRun :=
  let l := l.readFlag cancelled
  if l.failed then { loop := l.skip wave, phase := .between, rest }
  else { loop := l, phase := .working (wave.map fun n => (n, .start)), rest }

def conclude (l : LoopState) (wave : List CanvasNode) (results : List NodeRun)
    (rest : List (List CanvasNode)) : WalkRun :=
  let l := l.close results
  if l.failed then { loop := l, phase := .between, rest }
  else
    match handOver l.shared wave with
    | some signal => { loop := l, phase := .returned (some signal), rest }
    | none => { loop := l, phase := .between, rest }

/-- One move of a walk; `none` when the move cannot be made. -/
def walkStep (w : WalkRun) : WalkMove → Option WalkRun
  | .proceed =>
    match w.phase with
    | .between =>
      match w.rest with
      | [] => some { w with phase := .returned none }
      | wave :: rest => some (takeUp cancelled w.loop wave rest)
    | .working tasks =>
      (finishedResults tasks).map fun results =>
        conclude handOver w.loop (tasks.map Prod.fst) results w.rest
    | .returned _ => none
  | .node i =>
    match w.phase with
    | .working tasks => do
      let (node, t) ← tasks[i]?
      let (shared, t) ← taskStep registry executors run edges node w.loop.shared t
      return { w with
        loop := { w.loop with shared }
        phase := .working (tasks.set i (node, t)) }
    | _ => none

/-- The walk goes on after a wave, or hands over. -/
def goOn (walk : LoopState → LoopState × Option FanOutSignal) (l : LoopState)
    (wave : List CanvasNode) : LoopState × Option FanOutSignal :=
  if l.failed then walk l
  else
    match handOver l.shared wave with
    | some signal => (l, some signal)
    | none => walk l

/-- The loop after a wave whose nodes all read the state before it. -/
def LoopState.runAtOnce (l : LoopState) (wave : List CanvasNode) : LoopState :=
  { l with shared := l.shared.afterWave registry executors run edges wave }.close
    (wave.map fun n => (nodeEnd registry executors run edges l.shared n).1)

def walkAtOnce : List (List CanvasNode) → LoopState → LoopState × Option FanOutSignal
  | [], l => (l, none)
  | wave :: waves, l =>
    let l := l.readFlag cancelled
    if l.failed then walkAtOnce waves (l.skip wave)
    else goOn handOver (walkAtOnce waves) (l.runAtOnce registry executors run edges wave) wave

end Walk

section Same

/-- Two signals that say the same. -/
structure FanOutSignal.Same (a b : FanOutSignal) : Prop where
  inventoryNodeId : a.inventoryNodeId = b.inventoryNodeId
  fanOutConfig : a.fanOutConfig = b.fanOutConfig
  inventoryOutcome : a.inventoryOutcome = b.inventoryOutcome
  stepOutcomes : ∀ k, a.stepOutcomes.get? k = b.stepOutcomes.get? k
  joinNodeId : a.joinNodeId = b.joinNodeId

structure LoopState.Alike (l l' : LoopState) : Prop where
  shared : l.shared.Alike l'.shared
  failed : l.failed = l'.failed
  anyReportedFailure : l.anyReportedFailure = l'.anyReportedFailure
  reads : l.reads = l'.reads

/-- Two walks that end in the same maps, rows and flags, and hand over the same. -/
def EndsAlike (r r' : LoopState × Option FanOutSignal) : Prop :=
  r.1.Alike r'.1 ∧ Option.Rel FanOutSignal.Same r.2 r'.2

theorem FanOutSignal.Same.trans {a b c : FanOutSignal} (h : a.Same b) (h' : b.Same c) :
    a.Same c where
  inventoryNodeId := h.inventoryNodeId.trans h'.inventoryNodeId
  fanOutConfig := h.fanOutConfig.trans h'.fanOutConfig
  inventoryOutcome := h.inventoryOutcome.trans h'.inventoryOutcome
  stepOutcomes k := (h.stepOutcomes k).trans (h'.stepOutcomes k)
  joinNodeId := h.joinNodeId.trans h'.joinNodeId

theorem FanOutSignal.Same.symm {a b : FanOutSignal} (h : a.Same b) : b.Same a :=
  ⟨h.1.symm, h.2.symm, h.3.symm, fun k => (h.4 k).symm, h.5.symm⟩

theorem LoopState.Alike.refl (l : LoopState) : l.Alike l :=
  ⟨fun k => .refl _ k, rfl, rfl, rfl⟩

theorem LoopState.Alike.trans {l l' l'' : LoopState} (h : l.Alike l') (h' : l'.Alike l'') :
    l.Alike l'' :=
  ⟨fun k => (h.shared k).trans (h'.shared k), h.failed.trans h'.failed,
    h.anyReportedFailure.trans h'.anyReportedFailure, h.reads.trans h'.reads⟩

theorem LoopState.Alike.symm {l l' : LoopState} (h : l.Alike l') : l'.Alike l :=
  ⟨fun k => (h.shared k).symm, h.failed.symm, h.anyReportedFailure.symm, h.reads.symm⟩

theorem EndsAlike.refl (r : LoopState × Option FanOutSignal) : EndsAlike r r := by
  obtain ⟨l, signal⟩ := r
  cases signal with
  | none => exact ⟨.refl l, .none⟩
  | some signal => exact ⟨.refl l, .some ⟨rfl, rfl, rfl, fun _ => rfl, rfl⟩⟩

theorem EndsAlike.trans {r r' r'' : LoopState × Option FanOutSignal} (h : EndsAlike r r')
    (h' : EndsAlike r' r'') : EndsAlike r r'' := by
  obtain ⟨l, signal⟩ := r
  obtain ⟨l', signal'⟩ := r'
  obtain ⟨l'', signal''⟩ := r''
  obtain ⟨hl, hs⟩ := h
  obtain ⟨hl', hs'⟩ := h'
  refine ⟨hl.trans hl', ?_⟩
  cases hs with
  | none => exact hs'
  | some hs =>
    cases hs' with
    | some hs' => exact .some (hs.trans hs')

theorem EndsAlike.symm {r r' : LoopState × Option FanOutSignal} (h : EndsAlike r r') :
    EndsAlike r' r := by
  obtain ⟨l, signal⟩ := r
  obtain ⟨l', signal'⟩ := r'
  obtain ⟨hl, hs⟩ := h
  refine ⟨hl.symm, ?_⟩
  cases hs with
  | none => exact .none
  | some hs => exact .some hs.symm

/-- What is handed over depends on what is stored, not on how the maps are ordered. -/
def HandsOverAlike (handOver : SharedState → List CanvasNode → Option FanOutSignal) : Prop :=
  ∀ s s' wave, s.Alike s' → Option.Rel FanOutSignal.Same (handOver s wave) (handOver s' wave)

variable {registry : PluginRegistry} {executors : Executors} {run : RunInfo}
  {edges : List CanvasEdge} {cancelled : ℕ → Bool}
  {handOver : SharedState → List CanvasNode → Option FanOutSignal} {l l' : LoopState}

theorem take_alike {s s' : SharedState} (h : s.Alike s') (node : CanvasNode)
    (r : NodeRun × StepStatus) : (s.take node r).Alike (s'.take node r) := by
  intro k
  obtain ⟨⟨hs, hb⟩, hr⟩ := h k
  simp only [SharedState.walk] at hs hb
  obtain ⟨result, row⟩ := r
  by_cases hk : k = node.id
  · subst hk
    cases result <;> simp [AlikeAt, SameAt, SharedState.walk, SharedState.take, hs, hb]
  · cases result <;> simp [AlikeAt, SameAt, SharedState.walk, SharedState.take, hk, hs, hb, hr]

theorem nodeEnd_alike {s s' : SharedState} (h : s.Alike s') :
    nodeEnd registry executors run edges s = nodeEnd registry executors run edges s' :=
  funext fun _ => nodeEnd_congr fun e _ _ => (h e.source).1

theorem afterWave_alike {s s' : SharedState} (h : s.Alike s') (wave : List CanvasNode) :
    (s.afterWave registry executors run edges wave).Alike
      (s'.afterWave registry executors run edges wave) := by
  unfold SharedState.afterWave
  rw [nodeEnd_alike h]
  generalize nodeEnd registry executors run edges s' = f
  induction wave generalizing s s' with
  | nil => exact h
  | cons n wave ih => exact ih (take_alike h n (f n))

theorem LoopState.Alike.readFlag (h : l.Alike l') :
    (l.readFlag cancelled).Alike (l'.readFlag cancelled) := by
  unfold LoopState.readFlag
  rw [h.failed]
  split
  · exact h
  · exact ⟨h.shared, by rw [h.reads], h.anyReportedFailure, by rw [h.reads]⟩

theorem LoopState.Alike.skip (h : l.Alike l') (wave : List CanvasNode) :
    (l.skip wave).Alike (l'.skip wave) := by
  refine ⟨?_, h.failed, h.anyReportedFailure, h.reads⟩
  have hwave : ∀ s s' : SharedState, s.Alike s' →
      (wave.foldl (fun s n => s.write n.id .skipped) s).Alike
        (wave.foldl (fun s n => s.write n.id .skipped) s') := by
    induction wave with
    | nil => exact fun _ _ h => h
    | cons n wave ih =>
      intro s s' h
      refine ih _ _ fun k => ⟨(h k).1, ?_⟩
      by_cases hk : k = n.id
      · simp [SharedState.write, hk]
      · simp [SharedState.write, hk, (h k).2]
  exact hwave _ _ h.shared

theorem LoopState.Alike.close (h : l.Alike l') (results : List NodeRun) :
    (l.close results).Alike (l'.close results) := by
  unfold LoopState.close
  split
  · exact ⟨h.shared, rfl, h.anyReportedFailure, h.reads⟩
  · exact ⟨h.shared, h.failed, by rw [h.anyReportedFailure], h.reads⟩

theorem LoopState.Alike.runAtOnce (h : l.Alike l') (wave : List CanvasNode) :
    (l.runAtOnce registry executors run edges wave).Alike
      (l'.runAtOnce registry executors run edges wave) := by
  unfold LoopState.runAtOnce
  rw [nodeEnd_alike h.shared]
  have hafter : LoopState.Alike
      { l with shared := l.shared.afterWave registry executors run edges wave }
      { l' with shared := l'.shared.afterWave registry executors run edges wave } :=
    ⟨afterWave_alike h.shared wave, h.failed, h.anyReportedFailure, h.reads⟩
  exact hafter.close _

theorem goOn_alike (hh : HandsOverAlike handOver)
    {walk : LoopState → LoopState × Option FanOutSignal}
    (hwalk : ∀ {l l'}, l.Alike l' → EndsAlike (walk l) (walk l')) (h : l.Alike l')
    (wave : List CanvasNode) :
    EndsAlike (goOn handOver walk l wave) (goOn handOver walk l' wave) := by
  have hsignal := hh l.shared l'.shared wave h.shared
  unfold goOn
  rw [h.failed]
  split
  · exact hwalk h
  · cases hs : handOver l.shared wave with
    | none =>
      cases hs' : handOver l'.shared wave with
      | none => exact hwalk h
      | some signal' =>
        rw [hs, hs'] at hsignal
        cases hsignal
    | some signal =>
      cases hs' : handOver l'.shared wave with
      | none =>
        rw [hs, hs'] at hsignal
        cases hsignal
      | some signal' =>
        rw [hs, hs'] at hsignal
        exact ⟨h, hsignal⟩

theorem walkAtOnce_alike (hh : HandsOverAlike handOver) {waves : List (List CanvasNode)}
    (h : l.Alike l') :
    EndsAlike (walkAtOnce registry executors run edges cancelled handOver waves l)
      (walkAtOnce registry executors run edges cancelled handOver waves l') := by
  induction waves generalizing l l' with
  | nil => exact ⟨h, .none⟩
  | cons wave waves ih =>
    have hflag : (l.readFlag cancelled).Alike (l'.readFlag cancelled) := h.readFlag
    simp only [walkAtOnce]
    rw [hflag.failed]
    split
    · exact ih (hflag.skip wave)
    · exact goOn_alike hh ih (hflag.runAtOnce wave) wave

end Same

section Runs

variable {registry : PluginRegistry} {executors : Executors} {run : RunInfo}
  {edges : List CanvasEdge} {cancelled : ℕ → Bool}
  {handOver : SharedState → List CanvasNode → Option FanOutSignal}

/-- The node has stored its outcomes, or was blocked. -/
def SharedState.Done (s : SharedState) (nodeId : String) : Prop :=
  (s.stepOutcomes.get? nodeId).isSome ∨ nodeId ∈ s.blockedNodes

theorem AlikeAt.done {s s' : SharedState} {k : String} (h : AlikeAt s s' k) (hd : s.Done k) :
    s'.Done k := by
  obtain ⟨⟨hs, hb⟩, -⟩ := h
  simp only [SharedState.walk] at hs hb
  exact hd.imp (fun hd => hs ▸ hd) hb.mp

theorem Layered.at {done rest : List (List CanvasNode)} {wave : List CanvasNode}
    (h : Layered edges (done ++ wave :: rest)) : IsWave edges wave ∧
      (∀ n ∈ done.flatten, ∀ m ∈ wave, n.id ≠ m.id) ∧
      ∀ n ∈ wave, ∀ e ∈ edges, e.target = n.id → ∀ m ∈ rest.flatten, e.source ≠ m.id := by
  induction done with
  | nil =>
    obtain ⟨hn, -, hs, -⟩ := h
    refine ⟨⟨hn, fun n hw e he ht m hm => ?_⟩, by simp, fun n hw e he ht m hm => ?_⟩
    · exact hs n hw e he ht m (List.mem_append_left _ hm)
    · exact hs n hw e he ht m (List.mem_append_right _ hm)
  | cons first done ih =>
    obtain ⟨-, hd, -, h⟩ := h
    obtain ⟨hwave, hdone, hrest⟩ := ih h
    refine ⟨hwave, fun n hn m hm => ?_, hrest⟩
    rw [List.flatten_cons, List.mem_append] at hn
    rcases hn with hn | hn
    · exact hd n hn m (by simp [hm])
    · exact hdone n hn m hm

variable (registry executors run edges cancelled handOver) in
/-- Where a walk over the waves is, compared with the walk in which every wave is run at once. -/
def OnTrack (waves : List (List CanvasNode)) (start : LoopState) (w : WalkRun) : Prop :=
  let goal := walkAtOnce registry executors run edges cancelled handOver waves start
  match w.phase with
  | .between =>
    (∃ done, waves = done ++ w.rest ∧
      (w.loop.failed = false → ∀ n ∈ done.flatten, w.loop.shared.Done n.id)) ∧
    EndsAlike (walkAtOnce registry executors run edges cancelled handOver w.rest w.loop) goal
  | .working tasks => ∃ done wave, ∃ s₀ : SharedState, waves = done ++ wave :: w.rest ∧
    (∀ n ∈ done.flatten, s₀.Done n.id) ∧ w.loop.failed = false ∧
    WaveInv registry executors run edges s₀ wave tasks w.loop.shared ∧
    EndsAlike (goOn handOver (walkAtOnce registry executors run edges cancelled handOver w.rest)
      ({ w.loop with shared := s₀ }.runAtOnce registry executors run edges wave) wave) goal
  | .returned signal => EndsAlike (w.loop, signal) goal

theorem finishedResults_eq_some {tasks : List (CanvasNode × NodeTask)} {results : List NodeRun}
    (h : finishedResults tasks = some results) :
    ∀ p ∈ tasks, ∃ result row, p.2 = .finished result row := by
  unfold finishedResults at h
  induction tasks generalizing results with
  | nil => simp
  | cons p tasks ih =>
    obtain ⟨n, t⟩ := p
    simp only [List.mapM_cons, Option.bind_eq_bind, Option.bind_eq_some_iff] at h
    obtain ⟨result, hr, rest, hrest, -⟩ := h
    intro q hq
    rcases List.mem_cons.mp hq with rfl | hq
    · cases t with
      | finished result' row => exact ⟨result', row, rfl⟩
      | _ => cases hr
    · exact ih hrest q hq

theorem finishedResults_map (wave : List CanvasNode) (f : CanvasNode → NodeRun × StepStatus) :
    finishedResults (wave.map fun n => (n, .finished (f n).1 (f n).2)) =
      some (wave.map fun n => (f n).1) := by
  induction wave with
  | nil => rfl
  | cons n wave ih =>
    unfold finishedResults at ih ⊢
    simp only [List.map_cons, List.mapM_cons, ih]
    rfl

theorem close_failed (l : LoopState) (results : List NodeRun) :
    (l.close results).failed = (l.failed || results.any NodeRun.isRaised) ∧
      (l.close results).shared = l.shared := by
  unfold LoopState.close
  split <;> simp_all

theorem afterWave_done {s : SharedState} {wave : List CanvasNode} (hw : IsWave edges wave)
    (hr : (wave.map fun n => (nodeEnd registry executors run edges s n).1).any NodeRun.isRaised =
      false) : ∀ n ∈ wave, (s.afterWave registry executors run edges wave).Done n.id := by
  intro n hn
  have hat := (@foldl_take wave (nodeEnd registry executors run edges s) hw.nodup s).2 n hn
  refine hat.done ?_
  have hnot : (nodeEnd registry executors run edges s n).1.isRaised = false := by
    rw [List.any_eq_false] at hr
    simpa using hr _ (List.mem_map_of_mem hn)
  cases he : (nodeEnd registry executors run edges s n).1 with
  | blocked => simp [SharedState.Done, SharedState.take, he]
  | ran outcomes row => simp [SharedState.Done, SharedState.take, he]
  | raised e =>
    rw [he] at hnot
    cases hnot

section Step

variable {waves : List (List CanvasNode)} {start : LoopState} {loop : LoopState}
  {rest : List (List CanvasNode)} {w' : WalkRun}

theorem OnTrack.takeUp {done : List (List CanvasNode)} {wave : List CanvasNode}
    (hwaves : waves = done ++ wave :: rest)
    (hdone : loop.failed = false → ∀ n ∈ done.flatten, loop.shared.Done n.id)
    (hends : EndsAlike
      (walkAtOnce registry executors run edges cancelled handOver (wave :: rest) loop)
      (walkAtOnce registry executors run edges cancelled handOver waves start)) :
    OnTrack registry executors run edges cancelled handOver waves start
      (takeUp cancelled loop wave rest) := by
  have hshared : (loop.readFlag cancelled).shared = loop.shared := by
    unfold LoopState.readFlag
    split <;> rfl
  unfold Manus.takeUp
  simp only [walkAtOnce] at hends
  by_cases hf : (loop.readFlag cancelled).failed = true
  · rw [if_pos hf] at hends
    simp only [hf, if_true]
    refine ⟨⟨done ++ [wave], by simp [hwaves], fun hs => ?_⟩, hends⟩
    rw [show ((loop.readFlag cancelled).skip wave).failed =
      (loop.readFlag cancelled).failed from rfl, hf] at hs
    cases hs
  · rw [if_neg hf] at hends
    rw [if_neg hf]
    have hl : loop.failed = false := by
      by_contra hl
      rw [LoopState.readFlag, if_pos (by simpa using hl)] at hf
      exact hl (by simpa using hf)
    refine ⟨done, wave, (loop.readFlag cancelled).shared, hwaves, ?_, by simpa using hf, ?_, hends⟩
    · rw [hshared]
      exact hdone hl
    · exact WaveInv.start _ wave

theorem OnTrack.conclude (hh : HandsOverAlike handOver) (hl : Layered edges waves)
    {tasks : List (CanvasNode × NodeTask)} {results : List NodeRun}
    (hres : finishedResults tasks = some results)
    (h : OnTrack registry executors run edges cancelled handOver waves start
      { loop, phase := .working tasks, rest }) :
    OnTrack registry executors run edges cancelled handOver waves start
      (conclude handOver loop (tasks.map Prod.fst) results rest) := by
  obtain ⟨done, wave, s₀, hwaves, hdone, hloopf, hwave, hends⟩ := h
  obtain ⟨hw, hapart, -⟩ := (hwaves ▸ hl).at
  obtain ⟨halike, htasks⟩ := hwave.done hw (finishedResults_eq_some hres)
  obtain rfl : wave.map (fun n => (nodeEnd registry executors run edges s₀ n).1) = results := by
    rw [htasks, finishedResults_map] at hres
    exact Option.some.inj hres
  set ends := wave.map fun n => (nodeEnd registry executors run edges s₀ n).1 with hends'
  -- the loop as it is, and as it is when the wave is run at once
  have hclose : (loop.close ends).Alike
      ({ loop with shared := s₀ }.runAtOnce registry executors run edges wave) := by
    have hbefore : loop.Alike
        { loop with shared := s₀.afterWave registry executors run edges wave } :=
      ⟨halike, rfl, rfl, rfl⟩
    exact hbefore.close ends
  have hgo := (goOn_alike hh (walkAtOnce_alike hh) hclose wave).trans hends
  have hnodes : tasks.map Prod.fst = wave := hwave.nodes
  obtain ⟨hfailed, hshared⟩ := close_failed loop ends
  have hloopf : loop.failed = false := hloopf
  -- what is done stays done, and the wave joins it
  have hnext : (loop.close ends).failed = false → ∀ n ∈ (done ++ [wave]).flatten,
      (loop.close ends).shared.Done n.id := by
    intro hf n hn
    rw [hfailed, hloopf, Bool.false_or] at hf
    rw [hshared]
    refine (halike n.id).symm.done ?_
    rw [List.flatten_append, List.mem_append] at hn
    rcases hn with hn | hn
    · exact ((@foldl_take wave (nodeEnd registry executors run edges s₀) hw.nodup s₀).1 n.id
        fun m hm => hapart n hn m hm).done (hdone n hn)
    · exact afterWave_done hw hf n (by simpa using hn)
  unfold Manus.conclude
  unfold goOn at hgo
  rw [hnodes]
  by_cases hf : (loop.close ends).failed = true
  · simp only [hf, if_true] at hgo ⊢
    exact ⟨⟨done ++ [wave], by simp [hwaves], hnext⟩, hgo⟩
  · simp only [hf] at hgo ⊢
    cases hs : handOver (loop.close ends).shared wave with
    | none =>
      simp only [hs] at hgo ⊢
      exact ⟨⟨done ++ [wave], by simp [hwaves], hnext⟩, hgo⟩
    | some signal =>
      simp only [hs] at hgo ⊢
      exact hgo

theorem OnTrack.step (hh : HandsOverAlike handOver) (hl : Layered edges waves) {w : WalkRun}
    {move : WalkMove}
    (hm : walkStep registry executors run edges cancelled handOver w move = some w')
    (h : OnTrack registry executors run edges cancelled handOver waves start w) :
    OnTrack registry executors run edges cancelled handOver waves start w' := by
  obtain ⟨loop, phase, rest⟩ := w
  cases phase with
  | between =>
    obtain ⟨⟨done, hwaves, hdone⟩, hends⟩ := h
    cases move with
    | node i => cases hm
    | proceed =>
      cases rest with
      | nil =>
        cases hm
        exact hends
      | cons wave rest =>
        cases hm
        exact OnTrack.takeUp hwaves hdone hends
  | working tasks =>
    cases move with
    | proceed =>
      obtain ⟨results, hres, rfl⟩ := Option.map_eq_some_iff.mp hm
      exact OnTrack.conclude hh hl hres h
    | node i =>
      obtain ⟨done, wave, s₀, hwaves, hdone, hf, hwave, hends⟩ := h
      simp only [walkStep, Option.bind_eq_bind, Option.bind_eq_some_iff] at hm
      obtain ⟨⟨node, t⟩, hi, ⟨shared, t'⟩, ht, hm⟩ := hm
      cases hm
      exact ⟨done, wave, s₀, hwaves, hdone, hf, hwave.step (hwaves ▸ hl).at.1 hi ht, hends⟩
  | returned signal =>
    cases move with
    | proceed => cases hm
    | node i => cases hm

end Step

end Runs

end Manus
