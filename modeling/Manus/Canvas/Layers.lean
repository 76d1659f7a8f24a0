import Manus.Canvas.Graph
import Mathlib.Data.List.Dedup

/-! # Order and layers of a stored canvas

The nodes of a stored canvas may repeat an id or have none. The sort drops those
without an id and keeps the last one of each other id; it fails exactly on a
directed cycle, and every part of what it returns falls into layers.
-/

namespace Manus

open Topological

structure CanvasEntry where
  id : Option String
  data : NodeData
  deriving DecidableEq

def CanvasEntry.node? (entry : CanvasEntry) : Option CanvasNode :=
  entry.id.map fun id => ⟨id, entry.data⟩

/-- `[n for n in nodes if "id" in n]`. -/
def listedNodes (entries : List CanvasEntry) : List CanvasNode :=
  entries.filterMap CanvasEntry.node?

def listedIds (entries : List CanvasEntry) : List String := entries.filterMap CanvasEntry.id

/-- `topological_order` on the entries of a stored canvas. -/
def topologicalOrderOf (entries : List CanvasEntry) (edges : List CanvasEdge) :
    Except GraphError (List CanvasNode) :=
  topologicalOrder (listedNodes entries) edges

section Order

variable {nodes ordered sub : List CanvasNode} {entries : List CanvasEntry}
  {edges : List CanvasEdge}

theorem map_id_listedNodes (entries : List CanvasEntry) :
    (listedNodes entries).map CanvasNode.id = listedIds entries := by
  induction entries with
  | nil => rfl
  | cons entry entries ih =>
    obtain ⟨id, data⟩ := entry
    cases id with
    | none => exact ih
    | some id => exact congrArg (id :: ·) ih

theorem Sorted.acyclic (h : Sorted ordered edges) (a : String) :
    ¬ Relation.TransGen (Wire (ordered.map CanvasNode.id) edges) a a := by
  intro hcycle
  obtain ⟨waves, depth, -, hwaves⟩ := topologicalGenerations_spec h
  obtain ⟨da, db, ha, hb, hlt⟩ := hwaves.depth_lt_of_path hcycle
  rw [ha, Option.some.injEq] at hb
  omega

theorem Wire.of_mem_iff {ids ids' : List String} (hids : ∀ x, x ∈ ids ↔ x ∈ ids') :
    Wire ids edges = Wire ids' edges := by
  ext a b
  constructor
  · exact fun h => h.mono (fun x => (hids x).mp) fun _ he _ _ => he
  · exact fun h => h.mono (fun x => (hids x).mpr) fun _ he _ _ => he

/-- The sort fails exactly on a cycle. -/
theorem topologicalOrder_cycle_iff :
    (∃ message, topologicalOrder nodes edges = .error (.cycle message)) ↔
      ∃ a, Relation.TransGen (Wire (nodes.map CanvasNode.id) edges) a a := by
  have hids : ∀ x, x ∈ (nodeMap nodes).keys ↔ x ∈ nodes.map CanvasNode.id := by
    intro x
    rw [mem_nodeMap_keys, List.mem_map]
  rw [← Wire.of_mem_iff hids]
  constructor
  · rintro ⟨message, herror⟩
    by_contra hacyclic
    obtain ⟨ordered, hok⟩ := topologicalOrder_of_acyclic fun a h => hacyclic ⟨a, h⟩
    rw [herror] at hok
    cases hok
  · rintro ⟨a, hcycle⟩
    cases h : topologicalOrder nodes edges with
    | ok ordered =>
      obtain ⟨hsorted, hmem, -⟩ := topologicalOrder_spec h
      rw [← Wire.of_mem_iff hmem] at hcycle
      exact absurd hcycle (hsorted.acyclic a)
    | error e =>
      simp only [topologicalOrder] at h
      split at h
      · cases h
      · cases h
        exact ⟨_, rfl⟩

theorem Sorted.sublist (h : Sorted ordered edges) (hsub : sub.Sublist ordered) :
    Sorted sub edges := by
  have hids : (sub.map CanvasNode.id).Sublist (ordered.map CanvasNode.id) := hsub.map _
  have hnone : ∀ v ∈ ([] : List String), decide (v ∈ sub.map CanvasNode.id) = true →
      v ∈ ([] : List String) := by simp
  have hready := h.order.filter hnone
  rw [Dict.filter_mem_of_sublist h.nodup hids] at hready
  refine ⟨h.nodup.sublist hids, hready.mono ?_⟩
  rintro v - p ⟨e, he, rfl, rfl, hs, ht⟩
  exact ⟨⟨e, he, rfl, rfl, hids.subset hs, hids.subset ht⟩, decide_eq_true hs⟩

theorem Sorted.idxOf_lt (h : Sorted ordered edges) {a b : String}
    (hw : Wire (ordered.map CanvasNode.id) edges a b) :
    (ordered.map CanvasNode.id).idxOf a < (ordered.map CanvasNode.id).idxOf b :=
  (h.order.idxOf_lt hw hw.target_mem).resolve_left (by simp)

end Order

section Layers

variable {ordered : List CanvasNode} {edges : List CanvasEdge} {waves : List (List CanvasNode)}
  {depth : String → Option ℕ}

/-- The waves hold every node once. -/
theorem Waves.flatten_perm (h : Waves ordered edges waves depth)
    (hn : (ordered.map CanvasNode.id).Nodup) : waves.flatten.Perm ordered := by
  have hget : ∀ (d : ℕ) (hd : d < waves.length) (n : CanvasNode),
      n ∈ waves[d] ↔ n ∈ ordered ∧ depth n.id = some d := by
    intro d hd n
    rw [← h.mem, List.getD_eq_getElem _ _ hd]
  have hnodup : waves.flatten.Nodup := by
    rw [List.nodup_flatten]
    constructor
    · exact fun wave hwave => (h.nodup wave hwave).of_map
    · rw [List.pairwise_iff_getElem]
      intro i j hi hj hij n hni hnj
      have hi' := ((hget i hi n).mp hni).2
      rw [((hget j hj n).mp hnj).2, Option.some.injEq] at hi'
      omega
  rw [List.perm_ext_iff_of_nodup hnodup hn.of_map]
  intro n
  rw [List.mem_flatten]
  constructor
  · rintro ⟨wave, hwave, hmem⟩
    obtain ⟨d, hd, rfl⟩ := List.getElem_of_mem hwave
    exact ((hget d hd n).mp hmem).1
  · intro hmem
    obtain ⟨d, hd⟩ := Option.isSome_iff_exists.mp
      ((h.dom n.id).mpr (List.mem_map_of_mem hmem))
    have hlt := h.bound n.id d hd
    exact ⟨waves[d], List.getElem_mem hlt, (hget d hlt n).mpr ⟨hmem, hd⟩⟩

theorem map_of_mapM {V : Type} {depth : V → Option ℕ} {ps : List V} {ds : List ℕ}
    (h : ps.mapM depth = some ds) : ps.map (fun p => (depth p).getD 0) = ds := by
  induction ps generalizing ds with
  | nil =>
    cases h
    rfl
  | cons p ps ih =>
    simp only [List.mapM_cons, Option.bind_eq_bind, Option.bind_eq_some_iff] at h
    obtain ⟨e, he, es, hes, heq⟩ := h
    cases heq
    rw [List.map_cons, ih hes, he]
    rfl

/-- The layers of a node list: every node is in just one of them, one below the deepest of its
parents in the list. -/
structure CanvasLayers (sub : List CanvasNode) (edges : List CanvasEdge)
    (waves : List (List CanvasNode)) (layer : String → ℕ) : Prop where
  perm : waves.flatten.Perm sub
  mem : ∀ n d, n ∈ waves.getD d [] ↔ n ∈ sub ∧ layer n.id = d
  layer_eq : ∀ n ∈ sub, layer n.id = depthBelow
    ((parentsOf (liveEdges (sub.map CanvasNode.id) edges) n.id).map layer)

theorem topologicalGenerations_layered (h : Sorted ordered edges) :
    ∃ waves layer, topologicalGenerations ordered edges = some waves ∧
      CanvasLayers ordered edges waves layer := by
  obtain ⟨waves, depth, hwaves, hspec, hexact⟩ := topologicalGenerations_exact h
  refine ⟨waves, fun x => (depth x).getD 0, hwaves, hspec.flatten_perm h.nodup, ?_, ?_⟩
  · intro n d
    rw [hspec.mem]
    apply and_congr_right
    intro hn
    obtain ⟨e, he⟩ := Option.isSome_iff_exists.mp ((hspec.dom n.id).mpr (List.mem_map_of_mem hn))
    simp [he]
  · intro n hn
    obtain ⟨depths, hdepths, hdepth⟩ := hexact n hn
    rw [map_of_mapM hdepths, hdepth]
    rfl

end Layers

section Stored

/-- The sort and the layering of a stored canvas. The sort fails on a directed cycle of edges
between listed ids and on nothing else; otherwise it returns each listed id once with every such
edge going forward, and every part of what it returns falls into layers. -/
theorem topologicalOrderOf_layers (entries : List CanvasEntry) (edges : List CanvasEdge) :
    match topologicalOrderOf entries edges with
    | .error e => (∃ message, e = .cycle message) ∧
        ∃ a, Relation.TransGen (Wire (listedIds entries) edges) a a
    | .ok ordered =>
        (¬ ∃ a, Relation.TransGen (Wire (listedIds entries) edges) a a) ∧
        (ordered.map CanvasNode.id).Perm (listedIds entries).dedup ∧
        (∀ a b, Wire (listedIds entries) edges a b →
          (ordered.map CanvasNode.id).idxOf a < (ordered.map CanvasNode.id).idxOf b) ∧
        ∀ sub, sub.Sublist ordered → ∃ waves layer,
          topologicalGenerations sub edges = some waves ∧ CanvasLayers sub edges waves layer := by
  have hcycle := @topologicalOrder_cycle_iff (listedNodes entries) edges
  rw [map_id_listedNodes] at hcycle
  cases h : topologicalOrderOf entries edges with
  | error e =>
    rw [topologicalOrderOf] at h
    have he : ∃ message, e = .cycle message := by
      simp only [topologicalOrder] at h
      split at h
      · cases h
      · cases h
        exact ⟨_, rfl⟩
    obtain ⟨message, rfl⟩ := he
    exact ⟨⟨message, rfl⟩, hcycle.mp ⟨message, h⟩⟩
  | ok ordered =>
    rw [topologicalOrderOf] at h
    obtain ⟨hsorted, hmem, -⟩ := topologicalOrder_spec h
    have hids : ∀ x, x ∈ ordered.map CanvasNode.id ↔ x ∈ listedIds entries := by
      intro x
      rw [hmem, mem_nodeMap_keys, ← map_id_listedNodes, List.mem_map]
    refine ⟨fun hany => ?_, ?_, ?_, ?_⟩
    · obtain ⟨message, herror⟩ := hcycle.mpr hany
      rw [h] at herror
      cases herror
    · rw [List.perm_ext_iff_of_nodup hsorted.nodup (List.nodup_dedup _)]
      intro x
      rw [hids, List.mem_dedup]
    · intro a b hw
      rw [← Wire.of_mem_iff hids] at hw
      exact hsorted.idxOf_lt hw
    · exact fun sub hsub => topologicalGenerations_layered (hsorted.sublist hsub)

end Stored

end Manus
