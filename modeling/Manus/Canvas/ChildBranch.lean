import Manus.Canvas.FanOutTopology

/-! # The branch of a fan-out child

A child executes what is below the inventory step and above the fan-in step that the
runner picks. The pick goes by the order of the node list, so with several fan-in steps
below the inventory step it may be any of them, and the others stay in the branch.
-/

namespace Manus

def isFanIn (node : CanvasNode) : Bool := node.data.kind == some "fan-in"

/-- A child executes no fan-in step and nothing that follows one. -/
def ChildWithoutFanIn (inventory : String) (graph : Canvas) : Prop :=
  let child := childNodeIds inventory (findJoinNodeId inventory graph.nodes graph.edges)
    graph.nodes graph.edges
  ∀ n ∈ graph.nodes, isFanIn n = true →
    n.id ∉ child ∧ ∀ x ∈ child, x ∉ downstreamNodeIds n.id graph.nodes graph.edges

/-- Every fan-in step below the inventory step is the one the runner picks, or follows it. -/
def FanInsRejoin (inventory : String) (graph : Canvas) : Prop :=
  ∀ n ∈ graph.nodes, isFanIn n = true →
    n.id ∈ downstreamNodeIds inventory graph.nodes graph.edges →
    n.id ∈ postJoinIds (findJoinNodeId inventory graph.nodes graph.edges) graph

/-- A fan-in step that is not below the inventory step leads into the branch only at the fan-in
step that the runner picks, or after it. -/
def OthersRejoin (inventory : String) (graph : Canvas) : Prop :=
  ∀ n ∈ graph.nodes, isFanIn n = true →
    n.id ∉ downstreamNodeIds inventory graph.nodes graph.edges →
    ∀ x ∈ downstreamNodeIds n.id graph.nodes graph.edges,
      x ∈ downstreamNodeIds inventory graph.nodes graph.edges →
      x ∈ postJoinIds (findJoinNodeId inventory graph.nodes graph.edges) graph

section Branch

variable {inventory : String} {graph : Canvas}

theorem postJoinIds_closed {join : Option String} {x y : String} (hx : x ∈ postJoinIds join graph)
    (hy : y ∈ downstreamNodeIds x graph.nodes graph.edges) : y ∈ postJoinIds join graph := by
  cases join with
  | none => cases hx
  | some j =>
    apply List.mem_cons_of_mem
    rcases List.mem_cons.mp hx with rfl | hx
    · exact hy
    · exact downstreamNodeIds_trans hx hy

theorem childWithoutFanIn_iff_rejoin :
    ChildWithoutFanIn inventory graph ↔
      FanInsRejoin inventory graph ∧ OthersRejoin inventory graph := by
  have hchild := fun x => (mem_child_or_postJoin inventory graph x).1
  constructor
  · intro h
    constructor
    · intro n hn hfanIn hbelow
      by_contra hnot
      exact (h n hn hfanIn).1 ((hchild n.id).mpr ⟨hbelow, hnot⟩)
    · intro n hn hfanIn _ x hx hbelow
      by_contra hnot
      exact (h n hn hfanIn).2 x ((hchild x).mpr ⟨hbelow, hnot⟩) hx
  · rintro ⟨hbelow, hothers⟩ n hn hfanIn
    constructor
    · intro hmem
      obtain ⟨hdown, hnot⟩ := (hchild n.id).mp hmem
      exact hnot (hbelow n hn hfanIn hdown)
    · intro x hmem hx
      obtain ⟨hdown, hnot⟩ := (hchild x).mp hmem
      by_cases hn' : n.id ∈ downstreamNodeIds inventory graph.nodes graph.edges
      · exact hnot (postJoinIds_closed (hbelow n hn hfanIn hn') hx)
      · exact hnot (hothers n hn hfanIn hn' x hx hdown)

theorem rejoin_of_single (hone : ∀ n ∈ graph.nodes, ∀ m ∈ graph.nodes, isFanIn n = true →
      isFanIn m = true → n.id = m.id)
    (hbelow : ∀ n ∈ graph.nodes, isFanIn n = true →
      n.id ∈ downstreamNodeIds inventory graph.nodes graph.edges) :
    FanInsRejoin inventory graph ∧ OthersRejoin inventory graph := by
  constructor
  · intro n hn hfanIn hdown
    unfold findJoinNodeId
    cases hfind : graph.nodes.find? fun n =>
        n.id ∈ downstreamNodeIds inventory graph.nodes graph.edges &&
          n.data.kind == some "fan-in" with
    | none =>
      have hnone := List.find?_eq_none.mp hfind n hn
      simp only [hdown, decide_true, Bool.true_and] at hnone
      exact absurd hfanIn hnone
    | some m =>
      have hm := List.find?_some hfind
      have hmem := List.mem_of_find?_eq_some hfind
      simp only [Bool.and_eq_true] at hm
      dsimp only
      rw [hfind, hone n hn m hmem hfanIn hm.2]
      exact List.mem_cons_self
  · intro n hn hfanIn hnot
    exact absurd (hbelow n hn hfanIn) hnot

/-- On any graph the child executes no fan-in step and nothing after one exactly when the fan-in
steps below the inventory step are the one that is picked or follow it, and the others lead into
the branch there or later. With a single fan-in step, below the inventory step, it is so. -/
theorem child_without_fanIn_iff (inventory : String) (graph : Canvas) :
    (ChildWithoutFanIn inventory graph ↔
      FanInsRejoin inventory graph ∧ OthersRejoin inventory graph) ∧
    ((∀ n ∈ graph.nodes, ∀ m ∈ graph.nodes, isFanIn n = true → isFanIn m = true → n.id = m.id) →
      (∀ n ∈ graph.nodes, isFanIn n = true →
        n.id ∈ downstreamNodeIds inventory graph.nodes graph.edges) →
      ChildWithoutFanIn inventory graph) :=
  ⟨childWithoutFanIn_iff_rejoin, fun hone hbelow =>
    childWithoutFanIn_iff_rejoin.mpr (rejoin_of_single hone hbelow)⟩

end Branch

section Examples

/-- Two fan-in steps in series, the later one first in the list. -/
def fanInsInSeries : Canvas where
  nodes := [⟨"I", { kind := some "get-from-list", pluginConfig := fanOutConfig }⟩,
    ⟨"F2", { kind := some "fan-in" }⟩, ⟨"X", { kind := some "run-command" }⟩,
    ⟨"F1", { kind := some "fan-in" }⟩]
  edges := [{ source := "I", target := "X" }, { source := "X", target := "F1" },
    { source := "F1", target := "F2" }]

/-- The validator accepts the canvas, the runner picks the second fan-in step, and the first one
is executed by every child. -/
theorem fanInsInSeries_in_child :
    validateFanOutTopology fanInsInSeries = [] ∧
    loadExecutionGraph fanInsInSeries = .ok fanInsInSeries ∧
    "I" ∈ fanOutSteps smallRegistry fanInsInSeries ∧
    findJoinNodeId "I" fanInsInSeries.nodes fanInsInSeries.edges = some "F2" ∧
    ¬ ChildWithoutFanIn "I" fanInsInSeries := by
  refine ⟨by decide, by decide, by decide, by decide, ?_⟩
  intro h
  have hfirst := (h fanInsInSeries.nodes[3] (by simp [fanInsInSeries]) (by decide)).1
  revert hfirst
  decide

end Examples

end Manus
