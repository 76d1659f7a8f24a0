import Manus.Canvas.Basic
import Manus.Lib.Topological
import Mathlib.Data.List.Sort

/-! # Orders and reachability of a canvas

The graph utilities that the runner and the save-time validators share:
topological order, dependency layers, downstream nodes and the split of a
fan-out branch at its fan-in node.
-/

namespace Manus

open Topological

inductive GraphError where
  | cycle (message : String)
  | funnel (message : String)
  deriving DecidableEq, Repr

def GraphError.message : GraphError → String
  | .cycle message => message
  | .funnel message => message

/-- `{n["id"]: n for n in nodes}`. -/
def nodeMap (nodes : List CanvasNode) : Dict CanvasNode :=
  Dict.ofPairs (nodes.map fun n => (n.id, n))

def liveEdges (ids : List String) (edges : List CanvasEdge) : List CanvasEdge :=
  edges.filter fun e => e.source ∈ ids && e.target ∈ ids

def dependentsOf (live : List CanvasEdge) (source : String) : List String :=
  (live.filter fun e => e.source == source).map CanvasEdge.target

def parentsOf (live : List CanvasEdge) (target : String) : List String :=
  (live.filter fun e => e.target == target).map CanvasEdge.source

def cycleMessage (ids : List String) : String :=
  "Workflow graph contains a cycle involving node(s): " ++
    ", ".intercalate (ids.insertionSort (· ≤ ·))

/-- The nodes in dependency order by Kahn's algorithm, or the cycle that prevents one. -/
def topologicalOrder (nodes : List CanvasNode) (edges : List CanvasEdge) :
    Except GraphError (List CanvasNode) :=
  let ids := (nodeMap nodes).keys
  let live := liveEdges ids edges
  let inDegree := fun t => live.countP fun e => e.target == t
  let order := kahn (dependentsOf live) ids.length inDegree (ids.filter (inDegree · = 0)) []
  if order.length = ids.length then .ok (order.filterMap (nodeMap nodes).get?)
  else .error (.cycle (cycleMessage (ids.filter (· ∉ order))))

/-- Group a sorted node list into waves; `none` stands for a lookup error on an unsorted list. -/
def topologicalGenerations (orderedNodes : List CanvasNode) (edges : List CanvasEdge) :
    Option (List (List CanvasNode)) :=
  let live := liveEdges (orderedNodes.map CanvasNode.id) edges
  (orderedNodes.foldlM (place CanvasNode.id (parentsOf live)) .empty).map Layering.layers

/-- The ids reachable downstream of a node, itself only when it lies on a cycle. -/
def downstreamNodeIds (startNodeId : String) (nodes : List CanvasNode)
    (edges : List CanvasEdge) : List String :=
  let ids := (nodeMap nodes).keys
  let adjacency := dependentsOf (liveEdges ids edges)
  let queue := adjacency startNodeId
  -- each queued id is popped once: those of the start and those of every node visited
  Worklist.search adjacency (Worklist.pending adjacency ids queue []) queue []

/-- The first fan-in node, in node order, downstream of the inventory step. -/
def findJoinNodeId (inventoryNodeId : String) (nodes : List CanvasNode)
    (edges : List CanvasEdge) : Option String :=
  let downstream := downstreamNodeIds inventoryNodeId nodes edges
  (nodes.find? fun n => n.id ∈ downstream && n.data.kind == some "fan-in").map CanvasNode.id

/-- The nodes a fan-out child executes: downstream of the inventory step, without the fan-in
node and what follows it. -/
def childNodeIds (inventoryNodeId : String) (joinNodeId : Option String)
    (nodes : List CanvasNode) (edges : List CanvasEdge) : List String :=
  let downstream := downstreamNodeIds inventoryNodeId nodes edges
  match joinNodeId with
  | none => downstream
  | some join =>
    let postJoin := join :: downstreamNodeIds join nodes edges
    downstream.filter (· ∉ postJoin)

section Wires

variable {ids : List String} {edges : List CanvasEdge} {nodes : List CanvasNode}

def Wire (ids : List String) (edges : List CanvasEdge) (a b : String) : Prop :=
  ∃ e ∈ edges, e.source = a ∧ e.target = b ∧ a ∈ ids ∧ b ∈ ids

theorem mem_liveEdges {e : CanvasEdge} :
    e ∈ liveEdges ids edges ↔ e ∈ edges ∧ e.source ∈ ids ∧ e.target ∈ ids := by
  simp [liveEdges]

theorem mem_dependentsOf_liveEdges {a b : String} :
    b ∈ dependentsOf (liveEdges ids edges) a ↔ Wire ids edges a b := by
  simp only [dependentsOf, List.mem_map, List.mem_filter, mem_liveEdges, beq_iff_eq, Wire]
  constructor
  · rintro ⟨e, ⟨⟨he, hs, ht⟩, rfl⟩, rfl⟩
    exact ⟨e, he, rfl, rfl, hs, ht⟩
  · rintro ⟨e, he, rfl, rfl, hs, ht⟩
    exact ⟨e, ⟨⟨he, hs, ht⟩, rfl⟩, rfl⟩

theorem mem_parentsOf_liveEdges {a b : String} :
    a ∈ parentsOf (liveEdges ids edges) b ↔ Wire ids edges a b := by
  simp only [parentsOf, List.mem_map, List.mem_filter, mem_liveEdges, beq_iff_eq, Wire]
  constructor
  · rintro ⟨e, ⟨⟨he, hs, ht⟩, rfl⟩, rfl⟩
    exact ⟨e, he, rfl, rfl, hs, ht⟩
  · rintro ⟨e, he, rfl, rfl, hs, ht⟩
    exact ⟨e, ⟨⟨he, hs, ht⟩, rfl⟩, rfl⟩

theorem Wire.source_mem {a b : String} (h : Wire ids edges a b) : a ∈ ids := by
  obtain ⟨-, -, -, -, hs, -⟩ := h; exact hs

theorem Wire.target_mem {a b : String} (h : Wire ids edges a b) : b ∈ ids := by
  obtain ⟨-, -, -, -, -, ht⟩ := h; exact ht

theorem Wire.mono {ids' : List String} {edges' : List CanvasEdge} {a b : String}
    (h : Wire ids edges a b) (hi : ∀ x ∈ ids, x ∈ ids')
    (he : ∀ e ∈ edges, e.source ∈ ids → e.target ∈ ids → e ∈ edges') : Wire ids' edges' a b := by
  obtain ⟨e, hm, rfl, rfl, hs, ht⟩ := h
  exact ⟨e, he e hm hs ht, rfl, rfl, hi _ hs, hi _ ht⟩

theorem mem_nodeMap_keys {x : String} :
    x ∈ (nodeMap nodes).keys ↔ ∃ n ∈ nodes, n.id = x := by
  rw [Dict.mem_keys_iff, nodeMap, Dict.get?_ofPairs, ← List.map_reverse]
  induction nodes with
  | nil => simp
  | cons n nodes ih =>
    rw [List.reverse_cons, List.map_append, List.lookup_append, Option.isSome_or, Bool.or_eq_true,
      ih]
    simp only [List.map_cons, List.map_nil, Dict.lookup_pair_cons, List.lookup_nil,
      List.mem_cons, exists_eq_or_imp]
    rw [or_comm]
    refine or_congr_left ?_
    by_cases h : x = n.id <;> simp [h, eq_comm]

theorem nodeMap_get?_mem {x : String} {n : CanvasNode} (h : (nodeMap nodes).get? x = some n) :
    n ∈ nodes ∧ n.id = x := by
  rw [nodeMap, Dict.get?_ofPairs, ← List.map_reverse] at h
  obtain ⟨l₁, l₂, hl, -⟩ := List.lookup_eq_some_iff.mp h
  have hm : (x, n) ∈ nodes.reverse.map fun n => (n.id, n) := by rw [hl]; simp
  obtain ⟨m, hr, he⟩ := List.mem_map.mp hm
  simp only [Prod.mk.injEq] at he
  obtain ⟨rfl, rfl⟩ := he
  exact ⟨List.mem_reverse.mp hr, rfl⟩

theorem mem_downstreamNodeIds {start x : String} :
    x ∈ downstreamNodeIds start nodes edges ↔
      Relation.TransGen (Wire (nodeMap nodes).keys edges) start x := by
  have hs : ∀ v, v ∉ (nodeMap nodes).keys →
      dependentsOf (liveEdges (nodeMap nodes).keys edges) v = [] := by
    intro v hv
    exact List.eq_nil_iff_forall_not_mem.mpr fun w hw =>
      hv (mem_dependentsOf_liveEdges.mp hw).source_mem
  rw [downstreamNodeIds, Worklist.mem_search_iff (nodeMap nodes).keys_nodup hs le_rfl,
    Relation.TransGen.head'_iff]
  simp only [mem_dependentsOf_liveEdges, Worklist.Reach]

theorem count_dependentsOf (live : List CanvasEdge) {ids : List String} (hi : ids.Nodup)
    (hl : ∀ e ∈ live, e.source ∈ ids) (t : String) :
    live.countP (fun e => e.target == t) =
      (ids.map fun v => (dependentsOf live v).count t).sum := by
  induction live with
  | nil => simp [dependentsOf]
  | cons e live ih =>
    have hsplit : ∀ v, (dependentsOf (e :: live) v).count t =
        (dependentsOf live v).count t +
          if v = e.source then (if e.target = t then 1 else 0) else 0 := by
      intro v
      by_cases h : e.source = v
      · subst h; simp [dependentsOf, List.count_cons]
      · simp [dependentsOf, h, Ne.symm h]
    have hone : (ids.map fun v => if v = e.source then (if e.target = t then 1 else 0) else 0).sum
        = if e.target = t then 1 else 0 := by
      rw [List.sum_map_eq_nsmul_single e.source _ fun v hv _ => if_neg hv,
        List.count_eq_one_of_mem hi (hl e List.mem_cons_self)]
      simp
    rw [List.countP_cons, ih fun e' he' => hl e' (List.mem_cons_of_mem _ he')]
    simp only [hsplit, List.sum_map_add, hone, beq_iff_eq]

theorem liveEdges_liveEdges {ids' : List String} (h : ∀ x ∈ ids', x ∈ ids) :
    liveEdges ids' (liveEdges ids edges) = liveEdges ids' edges := by
  simp only [liveEdges, List.filter_filter]
  refine List.filter_congr fun e _ => ?_
  by_cases hs : e.source ∈ ids'
  · by_cases ht : e.target ∈ ids' <;> simp [hs, ht, h _ hs, h e.target]
  · simp [hs]

end Wires

section Orders

variable {nodes ordered : List CanvasNode} {edges : List CanvasEdge}

structure Sorted (nodes : List CanvasNode) (edges : List CanvasEdge) : Prop where
  nodup : (nodes.map CanvasNode.id).Nodup
  order : ReadyOrder (Wire (nodes.map CanvasNode.id) edges) [] (nodes.map CanvasNode.id)

theorem Sorted.filter (h : Sorted nodes edges) (p : String → Bool) :
    Sorted (nodes.filter fun n => p n.id) edges := by
  have hmap : (nodes.filter fun n => p n.id).map CanvasNode.id =
      (nodes.map CanvasNode.id).filter p := by rw [List.filter_map]; rfl
  refine ⟨by rw [hmap]; exact h.nodup.filter p, ?_⟩
  rw [hmap]
  refine (h.order.filter (q := p) (by simp)).mono fun v hv q hq => ?_
  obtain ⟨e, he, rfl, rfl, hs, ht⟩ := hq
  obtain ⟨hs, hp⟩ := List.mem_filter.mp hs
  exact ⟨⟨e, he, rfl, rfl, hs, (List.mem_filter.mp ht).1⟩, hp⟩

theorem map_filterMap_eq_self {α β : Type} {f : α → Option β} {key : β → α} {l : List α}
    (h : ∀ a ∈ l, ∃ b, f a = some b ∧ key b = a) : (l.filterMap f).map key = l := by
  induction l with
  | nil => rfl
  | cons a l ih =>
    obtain ⟨b, hb, hkey⟩ := h a List.mem_cons_self
    rw [List.filterMap_cons_some hb, List.map_cons, hkey,
      ih fun a' ha' => h a' (List.mem_cons_of_mem _ ha')]

theorem map_id_filterMap_nodeMap {ids : List String} (h : ∀ x ∈ ids, x ∈ (nodeMap nodes).keys) :
    (ids.filterMap (nodeMap nodes).get?).map CanvasNode.id = ids := by
  refine map_filterMap_eq_self fun x hx => ?_
  obtain ⟨n, hn⟩ := Option.isSome_iff_exists.mp (Dict.mem_keys_iff.mp (h x hx))
  exact ⟨n, hn, (nodeMap_get?_mem hn).2⟩

/-- A successful sort lists every node id once, in dependency order. -/
theorem topologicalOrder_spec (h : topologicalOrder nodes edges = .ok ordered) :
    Sorted ordered edges ∧
      (∀ x, x ∈ ordered.map CanvasNode.id ↔ x ∈ (nodeMap nodes).keys) ∧
      ∀ n ∈ ordered, (nodeMap nodes).get? n.id = some n := by
  simp only [topologicalOrder] at h
  split at h
  case isFalse => cases h
  rename_i hlen
  cases h
  set ids := (nodeMap nodes).keys with hids
  set live := liveEdges ids edges with hlive
  have hu : ids.Nodup := (nodeMap nodes).keys_nodup
  have ht : ∀ v ∈ ids, ∀ t ∈ dependentsOf live v, t ∈ ids :=
    fun v _ t hm => (mem_dependentsOf_liveEdges.mp hm).target_mem
  have hd := count_dependentsOf live hu fun e he => (mem_liveEdges.mp he).2.1
  obtain ⟨hnd, hsub, hord⟩ := kahn_spec (n := ids.length) hu ht (KahnInv.init hu hd)
  have hperm := kahn_perm hu ht hd hlen
  have hmap := map_id_filterMap_nodeMap hsub
  refine ⟨⟨by rw [hmap]; exact hnd, ?_⟩, fun x => by rw [hmap]; exact hperm.mem_iff, ?_⟩
  · rw [hmap]
    refine hord.mono fun v _ q hq => ?_
    have hw : Wire ids edges q v := hq.mono (fun x hx => hperm.mem_iff.mp hx) fun e he _ _ => he
    exact ⟨hw.source_mem, mem_dependentsOf_liveEdges.mpr hw⟩
  · intro n hn
    obtain ⟨x, -, hx⟩ := List.mem_filterMap.mp hn
    rw [(nodeMap_get?_mem hx).2, hx]

theorem topologicalOrder_of_acyclic
    (h : ∀ a, ¬ Relation.TransGen (Wire (nodeMap nodes).keys edges) a a) :
    ∃ ordered, topologicalOrder nodes edges = .ok ordered := by
  obtain ⟨ids, hids⟩ : ∃ ids, ids = (nodeMap nodes).keys := ⟨_, rfl⟩
  rw [← hids] at h
  have hu : ids.Nodup := hids ▸ (nodeMap nodes).keys_nodup
  have ht : ∀ v ∈ ids, ∀ t ∈ dependentsOf (liveEdges ids edges) v, t ∈ ids :=
    fun v _ t hm => (mem_dependentsOf_liveEdges.mp hm).target_mem
  have hd := count_dependentsOf (liveEdges ids edges) hu fun e he => (mem_liveEdges.mp he).2.1
  obtain ⟨hnd, hsub, -⟩ := kahn_spec (n := ids.length) hu ht (KahnInv.init hu hd)
  have hall := kahn_complete (n := ids.length) hu ht
    (fun v hv => h v (hv.lift id fun p q hp => mem_dependentsOf_liveEdges.mp hp.2))
    (KahnInv.init hu hd) (Nat.le_add_right _ _)
  have hperm := (List.perm_ext_iff_of_nodup hnd hu).mpr fun a => ⟨hsub a, hall a⟩
  rw [topologicalOrder]
  dsimp only
  rw [← hids, if_pos hperm.length_eq]
  exact ⟨_, rfl⟩

/-- The waves of a sorted node list: a node is in the wave of its depth, and every edge goes to a
deeper wave. -/
structure Waves (ordered : List CanvasNode) (edges : List CanvasEdge)
    (waves : List (List CanvasNode)) (depth : String → Option ℕ) : Prop where
  dom : ∀ x, (depth x).isSome ↔ x ∈ ordered.map CanvasNode.id
  mem : ∀ n d, n ∈ waves.getD d [] ↔ n ∈ ordered ∧ depth n.id = some d
  bound : ∀ x d, depth x = some d → d < waves.length
  below : ∀ a b, Wire (ordered.map CanvasNode.id) edges a b →
    ∃ da db, depth a = some da ∧ depth b = some db ∧ da < db
  nodup : ∀ wave ∈ waves, (wave.map CanvasNode.id).Nodup

theorem topologicalGenerations_exact (h : Sorted ordered edges) :
    ∃ waves depth, topologicalGenerations ordered edges = some waves ∧
      Waves ordered edges waves depth ∧ ∀ n ∈ ordered, ∃ depths,
        (parentsOf (liveEdges (ordered.map CanvasNode.id) edges) n.id).mapM depth = some depths ∧
          depth n.id = some (depthBelow depths) := by
  set live := liveEdges (ordered.map CanvasNode.id) edges with hlive
  have ho : ReadyOrder (fun p v => p ∈ parentsOf live v) [] (ordered.map CanvasNode.id) :=
    h.order.mono fun v _ p hp => mem_parentsOf_liveEdges.mp hp
  obtain ⟨s, hs, hi⟩ := layering_spec LayerInv.init
    (by simpa using h.nodup) (by simpa using ho)
  have hnone : ∀ v, ((Layering.empty : Layering CanvasNode String).depth v).isSome →
      v ∈ ([] : List CanvasNode).map CanvasNode.id := by simp [Layering.empty]
  have hexact := layering_exact hnone (by simpa using h.nodup) (by simp) hs
  rw [List.nil_append] at hi hexact
  refine ⟨s.layers, s.depth, by simp [topologicalGenerations, ← hlive, hs], ?_, hexact⟩
  refine ⟨hi.dom, hi.mem, hi.bound, fun a b hw => ?_, hi.nodup⟩
  obtain ⟨n, hn, rfl⟩ := List.mem_map.mp hw.target_mem
  exact hi.below n hn a (mem_parentsOf_liveEdges.mpr hw)

theorem topologicalGenerations_spec (h : Sorted ordered edges) :
    ∃ waves depth, topologicalGenerations ordered edges = some waves ∧
      Waves ordered edges waves depth := by
  obtain ⟨waves, depth, hwaves, hspec, -⟩ := topologicalGenerations_exact h
  exact ⟨waves, depth, hwaves, hspec⟩

variable {waves : List (List CanvasNode)} {depth : String → Option ℕ}

theorem Waves.depth_lt_of_path (h : Waves ordered edges waves depth) {a b : String}
    (hp : Relation.TransGen (Wire (ordered.map CanvasNode.id) edges) a b) :
    ∃ da db, depth a = some da ∧ depth b = some db ∧ da < db := by
  induction hp with
  | single hw => exact h.below _ _ hw
  | tail _ hw ih =>
    obtain ⟨da, dm, ha, hm, hlt⟩ := ih
    obtain ⟨dm', db, hm', hb, hlt'⟩ := h.below _ _ hw
    rw [hm, Option.some.injEq] at hm'
    exact ⟨da, db, ha, hb, by omega⟩

end Orders

end Manus
