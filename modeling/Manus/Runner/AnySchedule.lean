import Manus.Runner.Interleaving
import Manus.Runner.Transparency

/-! # Walks under any schedule

Both walks of the runner take their waves in order and let the nodes of a wave
move as they come. Every run of moves can be brought to its end, all ends are
the same, and a node is under way only when its parents in the walk are done.
-/

namespace Manus

section Progress

variable {registry : PluginRegistry} {executors : Executors} {run : RunInfo}
  {edges : List CanvasEdge} {cancelled : ℕ → Bool}
  {handOver : SharedState → List CanvasNode → Option FanOutSignal}

/-- How many moves a node still makes at most. -/
def NodeTask.left : NodeTask → ℕ
  | .start => 6
  | .starting => 5
  | .assembling => 4
  | .executing _ => 3
  | .skipping | .storing _ => 2
  | .skipped | .reporting _ | .failing _ => 1
  | .finished _ _ => 0

def tasksLeft (tasks : List (CanvasNode × NodeTask)) : ℕ := (tasks.map fun p => p.2.left).sum

/-- How many moves the waves still take at most. -/
def wavesLeft (waves : List (List CanvasNode)) : ℕ :=
  (waves.map fun wave => 6 * wave.length + 2).sum

def WalkRun.left (w : WalkRun) : ℕ :=
  match w.phase with
  | .between => wavesLeft w.rest + 1
  | .working tasks => tasksLeft tasks + wavesLeft w.rest + 2
  | .returned _ => 0

theorem taskStep_left {node : CanvasNode} {s s' : SharedState} {t t' : NodeTask}
    (h : taskStep registry executors run edges node s t = some (s', t')) : t'.left < t.left := by
  cases t with
  | start =>
    simp only [taskStep] at h
    split at h <;>
    · cases h
      simp [NodeTask.left]
  | assembling =>
    simp only [taskStep] at h
    split at h <;>
    · cases h
      simp [NodeTask.left]
  | executing context =>
    simp only [taskStep] at h
    split at h <;>
    · cases h
      simp [NodeTask.left]
  | finished result row => cases h
  | _ =>
    cases h
    simp [NodeTask.left]

theorem tasksLeft_set {tasks : List (CanvasNode × NodeTask)} {i : ℕ} {node : CanvasNode}
    {t t' : NodeTask} (hi : tasks[i]? = some (node, t)) (h : t'.left < t.left) :
    tasksLeft (tasks.set i (node, t')) < tasksLeft tasks := by
  unfold tasksLeft
  induction tasks generalizing i with
  | nil => cases hi
  | cons p tasks ih =>
    cases i with
    | zero =>
      cases hi
      simpa using h
    | succ i =>
      have hrest := ih hi
      simpa using hrest

theorem tasksLeft_start (wave : List CanvasNode) :
    tasksLeft (wave.map fun n => (n, .start)) = 6 * wave.length := by
  simp [tasksLeft, Function.comp_def, NodeTask.left, mul_comm]

/-- Every move brings the walk nearer to its end. -/
theorem walkStep_left {w w' : WalkRun} {move : WalkMove}
    (h : walkStep registry executors run edges cancelled handOver w move = some w') :
    w'.left < w.left := by
  obtain ⟨loop, phase, rest⟩ := w
  cases phase with
  | returned signal => cases move <;> cases h
  | between =>
    cases move with
    | node i => cases h
    | proceed =>
      cases rest with
      | nil =>
        cases h
        simp [WalkRun.left]
      | cons wave rest =>
        cases h
        unfold takeUp
        dsimp only
        split
        · simp only [WalkRun.left, wavesLeft, List.map_cons, List.sum_cons]
          omega
        · simp only [WalkRun.left, tasksLeft_start, wavesLeft, List.map_cons, List.sum_cons]
          omega
  | working tasks =>
    cases move with
    | proceed =>
      obtain ⟨results, -, rfl⟩ := Option.map_eq_some_iff.mp h
      unfold conclude
      dsimp only
      split
      · simp only [WalkRun.left]
        omega
      · split
        · simp [WalkRun.left]
        · simp only [WalkRun.left]
          omega
    | node i =>
      simp only [walkStep, Option.bind_eq_bind, Option.bind_eq_some_iff] at h
      obtain ⟨⟨node, t⟩, hi, ⟨shared, t'⟩, ht, h⟩ := h
      cases h
      have hless := tasksLeft_set hi (taskStep_left ht)
      simp only [WalkRun.left]
      omega

theorem taskStep_enabled (node : CanvasNode) (s : SharedState) {t : NodeTask}
    (h : ∀ result row, t ≠ .finished result row) :
    ∃ next, taskStep registry executors run edges node s t = some next := by
  cases t with
  | start =>
    simp only [taskStep]
    split <;> exact ⟨_, rfl⟩
  | assembling =>
    simp only [taskStep]
    split <;> exact ⟨_, rfl⟩
  | executing context =>
    simp only [taskStep]
    split <;> exact ⟨_, rfl⟩
  | finished result row => exact absurd rfl (h result row)
  | _ => exact ⟨_, rfl⟩

theorem finishedResults_eq_none {tasks : List (CanvasNode × NodeTask)}
    (h : finishedResults tasks = none) :
    ∃ (i : ℕ) (node : CanvasNode) (t : NodeTask), tasks[i]? = some (node, t) ∧
      ∀ result row, t ≠ NodeTask.finished result row := by
  unfold finishedResults at h
  induction tasks with
  | nil => cases h
  | cons p tasks ih =>
    obtain ⟨node, t⟩ := p
    by_cases hfin : ∃ result row, t = .finished result row
    · obtain ⟨result, row, rfl⟩ := hfin
      simp only [List.mapM_cons, Option.bind_eq_bind, Option.bind_some] at h
      have hrest := Option.bind_eq_none_iff.mp h
      generalize List.mapM (m := Option) _ tasks = results at ih hrest
      cases results with
      | none =>
        obtain ⟨i, node', t', hi, hnot⟩ := ih rfl
        exact ⟨i + 1, node', t', hi, hnot⟩
      | some results => cases hrest results rfl
    · push Not at hfin
      exact ⟨0, node, t, rfl, hfin⟩

theorem walkStep_enabled {w : WalkRun} (h : ∀ signal, w.phase ≠ .returned signal) :
    ∃ move w', walkStep registry executors run edges cancelled handOver w move = some w' := by
  obtain ⟨loop, phase, rest⟩ := w
  cases phase with
  | returned signal => exact absurd rfl (h signal)
  | between =>
    cases rest with
    | nil => exact ⟨.proceed, _, rfl⟩
    | cons wave rest => exact ⟨.proceed, _, rfl⟩
  | working tasks =>
    cases hres : finishedResults tasks with
    | some results => exact ⟨.proceed, _, by simp only [walkStep, hres]; rfl⟩
    | none =>
      obtain ⟨i, node, t, hi, hnot⟩ := finishedResults_eq_none hres
      obtain ⟨⟨shared, t'⟩, ht⟩ :=
        @taskStep_enabled registry executors run edges node loop.shared t hnot
      exact ⟨.node i, _,
        by simp only [walkStep, hi, ht, Option.bind_eq_bind, Option.bind_some]; rfl⟩

theorem walk_returns (w : WalkRun) : ∃ moves w' signal,
    runSteps (walkStep registry executors run edges cancelled handOver) w moves = some w' ∧
      w'.phase = .returned signal := by
  by_cases hret : ∃ signal, w.phase = .returned signal
  · obtain ⟨signal, hs⟩ := hret
    exact ⟨[], w, signal, rfl, hs⟩
  · push Not at hret
    obtain ⟨move, w₁, h₁⟩ :=
      @walkStep_enabled registry executors run edges cancelled handOver w hret
    have hless := walkStep_left h₁
    obtain ⟨moves, w', signal, hrun, hs⟩ := walk_returns w₁
    exact ⟨move :: moves, w', signal, (runSteps_cons h₁ moves).trans hrun, hs⟩
termination_by w.left

end Progress

section HandOver

theorem at?_alike {s s' : SharedState} (h : s.Alike s') (k name : String) :
    s.walk.stepOutcomes.at? k name = s'.walk.stepOutcomes.at? k name := (h k).1.at? name

/-- Whether the walk hands over, and what, does not depend on the order of the maps. -/
theorem fanOutRequested_alike (graph : Canvas) :
    HandsOverAlike fun s wave => fanOutRequested graph s.walk wave := by
  intro s s' wave h
  dsimp only
  unfold fanOutRequested
  induction wave with
  | nil => exact .none
  | cons node wave ih =>
    rw [List.findSome?_cons, List.findSome?_cons, at?_alike h]
    cases hat : s'.walk.stepOutcomes.at? node.id "success" with
    | none => exact ih
    | some success =>
      simp only [Option.bind_eq_bind, Option.bind_some]
      cases hc : success.metadata.get? "_fan_out" with
      | none => exact ih
      | some config =>
        cases config with
        | obj fields =>
          simp only [Option.bind_some]
          by_cases henabled : (fields.lookup "enabled").any Json.truthy = true
          · simp only [henabled, if_true]
            apply Option.Rel.some
            exact ⟨rfl, rfl, rfl, fun k => (h k).1.1, rfl⟩
          · simp only [henabled]
            exact ih
        | _ => exact ih

theorem noHandOver_alike : HandsOverAlike fun _ _ => none := fun _ _ _ _ => .none

end HandOver

section Plans

/-- A walk before its first wave: the waves, the loop, and what may end it early. -/
structure WalkPlan where
  waves : List (List CanvasNode)
  start : LoopState
  handOver : SharedState → List CanvasNode → Option FanOutSignal

/-- The walk of a whole graph. -/
def executeAllPlan (graph : Canvas) (ordered : List CanvasNode) : WalkPlan where
  waves := generations ordered graph.edges
  start := { shared := {} }
  handOver s wave := fanOutRequested graph s.walk wave

/-- The walk from a fan-in node on, over the outcomes of the children and the rows there are. -/
def resumePlan (graph : Canvas) (ordered : List CanvasNode) (mergedOutcomes : StepOutcomes)
    (rows : String → StepStatus) (joinNodeId : String) : WalkPlan where
  waves :=
    let postJoinIds := joinNodeId :: downstreamNodeIds joinNodeId graph.nodes graph.edges
    generations (ordered.filter fun n => n.id ∈ postJoinIds) graph.edges
  start := { shared := { stepOutcomes := mergedOutcomes, rows } }
  handOver _ _ := none

/-- The walks of a graph that the runner makes. -/
inductive IsWalk (graph : Canvas) (ordered : List CanvasNode) : WalkPlan → Prop where
  | executeAll : IsWalk graph ordered (executeAllPlan graph ordered)
  | resumeAfterJoin (mergedOutcomes : StepOutcomes) (rows : String → StepStatus)
      (joinNodeId : String) :
      IsWalk graph ordered (resumePlan graph ordered mergedOutcomes rows joinNodeId)

def WalkPlan.begin (plan : WalkPlan) : WalkRun where
  loop := plan.start
  phase := .between
  rest := plan.waves

inductive WalkResult where
  | fanOut (signal : FanOutSignal)
  | finished (ok : Bool)

/-- The same value; signals are compared by what their maps hold. -/
inductive WalkResult.Same : WalkResult → WalkResult → Prop where
  | fanOut {a b : FanOutSignal} (h : a.Same b) : Same (.fanOut a) (.fanOut b)
  | finished (ok : Bool) : Same (.finished ok) (.finished ok)

def WalkRun.result (w : WalkRun) : Option WalkResult :=
  match w.phase with
  | .returned (some signal) => some (.fanOut signal)
  | .returned none => some (.finished !(w.loop.failed || w.loop.anyReportedFailure))
  | _ => none

/-- The parents in the walk of every node of the wave at work are done. -/
def ParentsDone (edges : List CanvasEdge) (plan : WalkPlan) (w : WalkRun) : Prop :=
  ∀ tasks, w.phase = .working tasks → ∀ p ∈ tasks, ∀ e ∈ edges, e.target = p.1.id →
    e.source ∈ plan.waves.flatten.map CanvasNode.id → w.loop.shared.Done e.source

variable {registry : PluginRegistry} {executors : Executors} {run : RunInfo}
  {cancelled : ℕ → Bool} {graph : Canvas} {ordered : List CanvasNode} {plan : WalkPlan}

theorem IsWalk.layered (hs : topologicalSort registry graph = .ok ordered)
    (h : IsWalk graph ordered plan) : Layered graph.edges plan.waves := by
  obtain ⟨hsort, -, -⟩ := topologicalSort_spec hs
  have hgenerations : ∀ nodes, Sorted nodes graph.edges →
      Layered graph.edges (generations nodes graph.edges) := by
    intro nodes hn
    obtain ⟨waves, depth, hw, hwaves⟩ := topologicalGenerations_spec hn
    rw [generations, hw, Option.getD_some]
    exact hwaves.layered
  cases h with
  | executeAll => exact hgenerations ordered hsort
  | resumeAfterJoin mergedOutcomes rows joinNodeId =>
    apply hgenerations
    exact hsort.filter fun id =>
      id ∈ joinNodeId :: downstreamNodeIds joinNodeId graph.nodes graph.edges

theorem IsWalk.handsOverAlike (h : IsWalk graph ordered plan) : HandsOverAlike plan.handOver := by
  cases h with
  | executeAll => exact fanOutRequested_alike graph
  | resumeAfterJoin mergedOutcomes rows joinNodeId => exact noHandOver_alike

variable {edges : List CanvasEdge} {w w' : WalkRun}

theorem onTrack_run (hh : HandsOverAlike plan.handOver) (hl : Layered edges plan.waves)
    {moves : List WalkMove}
    (hrun : runSteps (walkStep registry executors run edges cancelled plan.handOver) plan.begin
      moves = some w) :
    OnTrack registry executors run edges cancelled plan.handOver plan.waves plan.start w := by
  apply runSteps_invariant _ hrun
  · exact ⟨⟨[], rfl, by simp⟩, .refl _⟩
  · intro w move w' hm hw
    exact OnTrack.step hh hl hm hw

theorem OnTrack.parentsDone (hl : Layered edges plan.waves)
    (h : OnTrack registry executors run edges cancelled plan.handOver plan.waves plan.start w) :
    ParentsDone edges plan w := by
  intro tasks hphase p hp e he ht hsource
  simp only [OnTrack, hphase] at h
  obtain ⟨done, wave, s₀, hwaves, hdone, -, hwave, -⟩ := h
  obtain ⟨hw, -, hrest⟩ := (hwaves ▸ hl).at
  have hmem : p.1 ∈ wave := hwave.nodes ▸ List.mem_map_of_mem hp
  have hnot := hw.sources p.1 hmem e he ht
  have hframe : AlikeAt s₀ w.loop.shared e.source := hwave.frame e.source hnot
  obtain ⟨m, hm, hid⟩ := List.mem_map.mp hsource
  rw [hwaves, List.flatten_append, List.flatten_cons, List.mem_append, List.mem_append] at hm
  rcases hm with hm | hm | hm
  · rw [← hid] at hframe ⊢
    exact hframe.done (hdone m hm)
  · exact absurd hid.symm (hnot m hm)
  · exact absurd hid.symm (hrest p.1 hmem e he ht m hm)

theorem EndsAlike.result {w w' : WalkRun} {signal signal' : Option FanOutSignal} {r r' : WalkResult}
    (h : EndsAlike (w.loop, signal) (w'.loop, signal')) (hp : w.phase = .returned signal)
    (hp' : w'.phase = .returned signal') (hr : w.result = some r) (hr' : w'.result = some r') :
    r.Same r' := by
  obtain ⟨hloop, hsignal⟩ := h
  simp only [WalkRun.result, hp] at hr
  simp only [WalkRun.result, hp'] at hr'
  cases hsignal with
  | none =>
    cases hr
    cases hr'
    have hflags : (w.loop.failed || w.loop.anyReportedFailure) =
        (w'.loop.failed || w'.loop.anyReportedFailure) := by
      rw [hloop.failed, hloop.anyReportedFailure]
    rw [hflags]
    exact .finished _
  | some hsame =>
    cases hr
    cases hr'
    exact .fanOut hsame

theorem WalkRun.phase_of_result {r : WalkResult} (h : w.result = some r) :
    ∃ signal, w.phase = .returned signal := by
  unfold WalkRun.result at h
  split at h
  · exact ⟨_, by assumption⟩
  · exact ⟨_, by assumption⟩
  · cases h

theorem WalkRun.result_of_phase {signal : Option FanOutSignal} (h : w.phase = .returned signal) :
    ∃ r, w.result = some r := by
  cases signal <;> simp [WalkRun.result, h]

/-- However the nodes of each wave move, the walk can be brought to its end, all its ends hold the
same outcomes, blocked nodes and rows and return the same, and a node is at work only when its
parents in the walk have stored their outcomes or were blocked. -/
theorem walk_deterministic (hs : topologicalSort registry graph = .ok ordered)
    (h : IsWalk graph ordered plan) :
    (∀ moves w, runSteps (walkStep registry executors run graph.edges cancelled plan.handOver)
        plan.begin moves = some w →
      ParentsDone graph.edges plan w ∧
      ∃ moves' w' r, runSteps (walkStep registry executors run graph.edges cancelled plan.handOver)
        w moves' = some w' ∧ w'.result = some r) ∧
    ∀ moves moves' w w' r r',
      runSteps (walkStep registry executors run graph.edges cancelled plan.handOver)
        plan.begin moves = some w →
      runSteps (walkStep registry executors run graph.edges cancelled plan.handOver)
        plan.begin moves' = some w' →
      w.result = some r → w'.result = some r' →
      w.loop.shared.Alike w'.loop.shared ∧ r.Same r' := by
  have hl := h.layered hs
  have hh := h.handsOverAlike
  constructor
  · intro moves w hrun
    constructor
    · exact (onTrack_run hh hl hrun).parentsDone hl
    · obtain ⟨moves', w', signal, hrun', hp⟩ :=
        @walk_returns registry executors run graph.edges cancelled plan.handOver w
      obtain ⟨r, hr⟩ := WalkRun.result_of_phase hp
      exact ⟨moves', w', r, hrun', hr⟩
  · intro moves moves' w w' r r' hrun hrun' hr hr'
    have htrack := onTrack_run hh hl hrun
    have htrack' := onTrack_run hh hl hrun'
    obtain ⟨signal, hp⟩ := WalkRun.phase_of_result hr
    obtain ⟨signal', hp'⟩ := WalkRun.phase_of_result hr'
    simp only [OnTrack, hp] at htrack
    simp only [OnTrack, hp'] at htrack'
    have hends := htrack.trans htrack'.symm
    exact ⟨hends.1.shared, hends.result hp hp' hr hr'⟩

end Plans

section Examples

/-- Every device leaves the step by failure. -/
def loseDevices : Executor Id := fun _ ctx _ _ =>
  .ok [⟨"success", { ctx with devices := ∅ }⟩, ⟨"failure", ctx⟩]

def losing : Executors := fun stepType =>
  if stepType = "run-command" then some loseDevices else demoExecutors stepType

/-- The devices are lost at `A`, `B` is skipped for it, and `C` needs no devices. -/
def lostChain : Canvas where
  nodes := [⟨"I", { kind := some "get-from-list" }⟩, ⟨"A", { kind := some "run-command" }⟩,
    ⟨"B", { kind := some "run-command" }⟩, ⟨"C", { kind := some "get-from-list" }⟩]
  edges := [{ source := "I", target := "A" }, { source := "A", target := "B" },
    { source := "B", target := "C" }]

/-- Take up a wave of one node, make some moves of the node, and close the wave. -/
def alone (moves : ℕ) : List WalkMove := .proceed :: (List.replicate moves (.node 0) ++ [.proceed])

/-- The walk goes through `I` and `A`, skips `B`, and is about to execute `C`. -/
def lostMoves : List WalkMove :=
  alone 6 ++ alone 6 ++ alone 3 ++ .proceed :: List.replicate 3 (.node 0)

/-- The parents in the walk of every node about to be executed have stored their outcomes. -/
def ParentsStored (edges : List CanvasEdge) (plan : WalkPlan) (w : WalkRun) : Prop :=
  ∀ tasks, w.phase = .working tasks → ∀ node context, (node, .executing context) ∈ tasks →
    ∀ e ∈ edges, e.target = node.id → e.source ∈ plan.waves.flatten.map CanvasNode.id →
      (w.loop.shared.stepOutcomes.get? e.source).isSome

/-- Whether the node is about to be executed. -/
def WalkRun.executes (w : WalkRun) (node : CanvasNode) : Bool :=
  match w.phase with
  | .working tasks => tasks.any fun p =>
    match p.2 with
    | .executing _ => p.1.id == node.id
    | _ => false
  | _ => false

theorem WalkRun.mem_of_executes {w : WalkRun} {node : CanvasNode} (h : w.executes node = true) :
    ∃ tasks n context, w.phase = .working tasks ∧ (n, .executing context) ∈ tasks ∧
      n.id = node.id := by
  unfold WalkRun.executes at h
  split at h
  · rename_i tasks hphase
    obtain ⟨⟨n, t⟩, hmem, hn⟩ := List.any_eq_true.mp h
    cases t with
    | executing context => exact ⟨tasks, n, context, hphase, hmem, by simpa using hn⟩
    | _ => cases hn
  · cases h

/-- A node that was skipped has stored nothing when the node below it is executed. -/
theorem skipped_parent_not_stored :
    ∃ ordered moves w, topologicalSort smallRegistry lostChain = .ok ordered ∧
      runSteps (walkStep smallRegistry losing demoRun lostChain.edges (fun _ => false)
        (executeAllPlan lostChain ordered).handOver) (executeAllPlan lostChain ordered).begin
        moves = some w ∧
      ¬ ParentsStored lostChain.edges (executeAllPlan lostChain ordered) w := by
  have hrun : (runSteps (walkStep smallRegistry losing demoRun lostChain.edges (fun _ => false)
      (executeAllPlan lostChain lostChain.nodes).handOver)
      (executeAllPlan lostChain lostChain.nodes).begin lostMoves).any (fun w =>
        w.executes lostChain.nodes[3] &&
          (w.loop.shared.stepOutcomes.get? "B").isNone) = true := by
    decide +kernel
  obtain ⟨w, hw, hquery⟩ := (Option.any_eq_true _ _).mp hrun
  obtain ⟨hexec, hnone⟩ := Bool.and_eq_true_iff.mp hquery
  obtain ⟨tasks, n, context, hphase, hmem, hn⟩ := WalkRun.mem_of_executes hexec
  refine ⟨lostChain.nodes, lostMoves, w, by decide +kernel, hw, fun hstored => ?_⟩
  have hwalked : "B" ∈
      (executeAllPlan lostChain lostChain.nodes).waves.flatten.map CanvasNode.id := by
    decide +kernel
  have hsome := hstored tasks hphase n context hmem { source := "B", target := "C" }
    (by simp [lostChain]) hn.symm hwalked
  rw [Option.isNone_iff_eq_none] at hnone
  rw [hnone] at hsome
  cases hsome

def siblings : Canvas where
  nodes := [⟨"I", { kind := some "get-from-list" }⟩,
    ⟨"A", { kind := some "run-command", pluginConfig := Dict.ofPairs [("value", .int 1)] }⟩,
    ⟨"B", { kind := some "run-command", pluginConfig := Dict.ofPairs [("value", .int 2)] }⟩]
  edges := [{ source := "I", target := "A" }, { source := "I", target := "B" }]

/-- The siblings finish one after the other, or in turns. -/
def inOrder : List WalkMove :=
  alone 6 ++ .proceed :: (List.replicate 6 (.node 0) ++ List.replicate 6 (.node 1)) ++
    [.proceed, .proceed]

def inTurns : List WalkMove :=
  alone 6 ++ .proceed :: (List.replicate 6 [.node 1, .node 0]).flatten ++ [.proceed, .proceed]

/-- Both orders end the same. -/
theorem siblings_deterministic :
    let plan := executeAllPlan siblings siblings.nodes
    let step := walkStep smallRegistry demoExecutors demoRun siblings.edges (fun _ => false)
      plan.handOver
    ∃ w w' r r', runSteps step plan.begin inOrder = some w ∧
      runSteps step plan.begin inTurns = some w' ∧ w.result = some r ∧ w'.result = some r' ∧
      w.loop.shared.Alike w'.loop.shared ∧ r.Same r' := by
  intro plan step
  have hinOrder : ((runSteps step plan.begin inOrder).bind WalkRun.result).isSome = true := by
    decide +kernel
  have hinTurns : ((runSteps step plan.begin inTurns).bind WalkRun.result).isSome = true := by
    decide +kernel
  obtain ⟨r, hr⟩ := Option.isSome_iff_exists.mp hinOrder
  obtain ⟨r', hr'⟩ := Option.isSome_iff_exists.mp hinTurns
  obtain ⟨w, hw, hr⟩ := Option.bind_eq_some_iff.mp hr
  obtain ⟨w', hw', hr'⟩ := Option.bind_eq_some_iff.mp hr'
  have hsort : topologicalSort smallRegistry siblings = .ok siblings.nodes := by decide +kernel
  exact ⟨w, w', r, r', hw, hw', hr, hr',
    (walk_deterministic hsort .executeAll).2 _ _ w w' r r' hw hw' hr hr'⟩

end Examples

end Manus
