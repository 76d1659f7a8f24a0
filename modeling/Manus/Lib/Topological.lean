import Manus.Lib.Worklist
import Mathlib.Data.List.Count
import Mathlib.Data.List.GetD
import Mathlib.Data.List.Perm.Subperm
import Mathlib.Logic.Function.Basic
import Mathlib.Algebra.Order.Group.Nat
import Mathlib.Data.Set.Finite.List
import Mathlib.Order.WellFounded

/-! # Topological orders and dependency layers

Kahn's algorithm over a list of vertices and their dependents, and the layering
of an already sorted list: a vertex goes one layer below its deepest parent.
-/

namespace Manus.Topological

variable {V : Type}

/-- Every listed vertex has its parents among the vertices done before it. -/
def ReadyOrder (par : V → V → Prop) : List V → List V → Prop
  | _, [] => True
  | done, v :: rest => (∀ p, par p v → p ∈ done) ∧ ReadyOrder par (done ++ [v]) rest

theorem readyOrder_snoc {par : V → V → Prop} {done l : List V} {v : V} :
    ReadyOrder par done (l ++ [v]) ↔
      ReadyOrder par done l ∧ ∀ p, par p v → p ∈ done ++ l := by
  induction l generalizing done with
  | nil => simp [ReadyOrder]
  | cons u l ih => simp [ReadyOrder, ih, and_assoc]

theorem ReadyOrder.filter {par : V → V → Prop} {q : V → Bool} {done done' l : List V}
    (h : ReadyOrder par done l) (hd : ∀ v ∈ done, q v = true → v ∈ done') :
    ReadyOrder (fun p v => par p v ∧ q p = true) done' (l.filter q) := by
  induction l generalizing done done' with
  | nil => trivial
  | cons v l ih =>
    obtain ⟨hp, hr⟩ := h
    by_cases hv : q v = true
    · rw [List.filter_cons_of_pos hv]
      refine ⟨fun p ⟨hpar, hq⟩ => hd p (hp p hpar) hq, ih hr fun u hu hq => ?_⟩
      rcases List.mem_append.mp hu with hu | hu
      · exact List.mem_append_left _ (hd u hu hq)
      · exact List.mem_append_right _ hu
    · rw [List.filter_cons_of_neg hv]
      refine ih hr fun u hu hq => ?_
      rcases List.mem_append.mp hu with hu | hu
      · exact hd u hu hq
      · rw [List.mem_singleton.mp hu] at hq
        exact absurd hq hv

theorem ReadyOrder.mono {par par' : V → V → Prop} {done l : List V}
    (h : ReadyOrder par done l) (hp : ∀ v ∈ l, ∀ p, par' p v → par p v) :
    ReadyOrder par' done l := by
  induction l generalizing done with
  | nil => trivial
  | cons v l ih =>
    exact ⟨fun p hpar => h.1 p (hp v List.mem_cons_self p hpar),
      ih h.2 fun u hu => hp u (List.mem_cons_of_mem _ hu)⟩

theorem ReadyOrder.idxOf_lt [DecidableEq V] {par : V → V → Prop} {done l : List V}
    (h : ReadyOrder par done l) {p v : V} (hp : par p v) (hv : v ∈ l) :
    p ∈ done ∨ l.idxOf p < l.idxOf v := by
  induction l generalizing done with
  | nil => cases hv
  | cons u l ih =>
    by_cases hu : u = v
    · subst hu
      exact .inl (h.1 p hp)
    · have hv' : v ∈ l := (List.mem_cons.mp hv).resolve_left (Ne.symm hu)
      rw [List.idxOf_cons_ne _ hu]
      rcases ih h.2 hv' with hmem | hlt
      · rcases List.mem_append.mp hmem with hmem | hmem
        · exact .inl hmem
        · rw [List.mem_singleton.mp hmem, List.idxOf_cons_self]
          exact .inr (Nat.succ_pos _)
      · by_cases hpu : u = p
        · subst hpu
          rw [List.idxOf_cons_self]
          exact .inr (Nat.succ_pos _)
        · rw [List.idxOf_cons_ne _ hpu]
          exact .inr (Nat.succ_lt_succ hlt)

theorem exists_parentless {par : V → V → Prop} (hacyclic : ∀ v, ¬ Relation.TransGen par v v)
    {l : List V} (hl : l ≠ []) : ∃ v ∈ l, ∀ p ∈ l, ¬ par p v := by
  let above : {v // v ∈ l} → {v // v ∈ l} → Prop := fun p v => Relation.TransGen par p.1 v.1
  have : Finite {v // v ∈ l} := l.finite_toSet
  have : IsTrans _ above := ⟨fun _ _ _ => Relation.TransGen.trans⟩
  have : Std.Irrefl above := ⟨fun v => hacyclic v.1⟩
  obtain ⟨v, hv⟩ := List.exists_mem_of_ne_nil l hl
  obtain ⟨⟨first, hfirst⟩, -, hmin⟩ :=
    (Finite.wellFounded_of_trans_of_irrefl above).has_min Set.univ ⟨⟨v, hv⟩, trivial⟩
  exact ⟨first, hfirst, fun p hp hpar => hmin ⟨p, hp⟩ trivial (.single hpar)⟩

section Kahn

variable [DecidableEq V]

/-- One dependent loses a parent and joins the queue when it was the last one. -/
def release (s : (V → ℕ) × List V) (dep : V) : (V → ℕ) × List V :=
  (Function.update s.1 dep (s.1 dep - 1),
    if s.1 dep - 1 = 0 then s.2 ++ [dep] else s.2)

/-- Kahn's loop: fuel, in-degrees, queue, result so far. -/
def kahn (dependents : V → List V) : ℕ → (V → ℕ) → List V → List V → List V
  | 0, _, _, result => result
  | _ + 1, _, [], result => result
  | n + 1, degree, v :: queue, result =>
    let s := (dependents v).foldl release (degree, queue)
    kahn dependents n s.1 s.2 (result ++ [v])

theorem foldl_release (deps : List V) (degree : V → ℕ) (queue : List V)
    (hd : ∀ t, deps.count t ≤ degree t) :
    (∀ t, (deps.foldl release (degree, queue)).1 t = degree t - deps.count t) ∧
      ∃ added, (deps.foldl release (degree, queue)).2 = queue ++ added ∧ added.Nodup ∧
        ∀ t, t ∈ added ↔ t ∈ deps ∧ degree t = deps.count t := by
  induction deps generalizing degree queue with
  | nil => exact ⟨by simp, [], by simp⟩
  | cons d deps ih =>
    have hdd : deps.count d + 1 ≤ degree d := by simpa using hd d
    have hd' : ∀ t, deps.count t ≤ Function.update degree d (degree d - 1) t := by
      intro t
      by_cases h : t = d
      · subst h; simp only [Function.update_self]; omega
      · have := hd t
        simp only [Function.update_of_ne h]
        rwa [List.count_cons_of_ne (Ne.symm h)] at this
    obtain ⟨h₁, added, h₂, hnd, h₃⟩ := ih (Function.update degree d (degree d - 1))
      (if degree d - 1 = 0 then queue ++ [d] else queue) hd'
    refine ⟨fun t => ?_, ?_⟩
    · rw [List.foldl_cons, release, h₁]
      by_cases h : t = d
      · subst h; rw [Function.update_self, List.count_cons_self]; omega
      · rw [Function.update_of_ne h, List.count_cons_of_ne (Ne.symm h)]
    · -- the dependent itself is queued now or later, according to its remaining parents
      have hne : ∀ t, t ≠ d → (t ∈ added ↔ t ∈ d :: deps ∧ degree t = (d :: deps).count t) := by
        intro t h
        rw [h₃, Function.update_of_ne h, List.count_cons_of_ne (Ne.symm h), List.mem_cons]
        simp [h]
      by_cases hz : degree d - 1 = 0
      · have hcnt : deps.count d = 0 := by omega
        have hdn : d ∉ deps := List.count_eq_zero.mp hcnt
        have hda : d ∉ added := fun h => hdn ((h₃ d).mp h).1
        refine ⟨d :: added, ?_, List.nodup_cons.mpr ⟨hda, hnd⟩, fun t => ?_⟩
        · rw [List.foldl_cons, release, h₂, if_pos hz]; simp
        · by_cases h : t = d
          · subst h
            simp only [List.mem_cons, true_or, List.count_cons_self, true_and, true_iff]
            omega
          · rw [← hne t h]; simp [h]
      · refine ⟨added, ?_, hnd, fun t => ?_⟩
        · rw [List.foldl_cons, release, h₂, if_neg hz]
        · by_cases h : t = d
          · subst h
            rw [h₃, Function.update_self, List.count_cons_self]
            refine ⟨fun ⟨hm, he⟩ => ⟨List.mem_cons_self, by omega⟩, fun ⟨_, he⟩ => ?_⟩
            have hpos : 0 < deps.count t := by omega
            exact ⟨List.count_pos_iff.mp hpos, by omega⟩
          · exact hne t h

/-- What holds at the head of Kahn's loop. -/
structure KahnInv (dependents : V → List V) (univ : List V) (degree : V → ℕ)
    (queue result : List V) : Prop where
  nodup : (result ++ queue).Nodup
  subset : ∀ v ∈ result ++ queue, v ∈ univ
  degree_eq : ∀ t, degree t =
    ((univ.filter (· ∉ result)).map fun v => (dependents v).count t).sum
  ready : ∀ t ∈ univ, t ∈ result ++ queue ↔ degree t = 0
  order : ReadyOrder (fun p v => p ∈ univ ∧ v ∈ dependents p) [] result

variable {dependents : V → List V} {univ : List V}

theorem KahnInv.parents_done {degree : V → ℕ} {queue result : List V}
    (h : KahnInv dependents univ degree queue result) {v p : V} (hz : degree v = 0)
    (hp : p ∈ univ) (hv : v ∈ dependents p) : p ∈ result := by
  by_contra hn
  have hmem : p ∈ univ.filter (· ∉ result) := List.mem_filter.mpr ⟨hp, by simpa using hn⟩
  have hle : (dependents p).count v ≤ degree v := by
    rw [h.degree_eq]
    exact List.single_le_sum (by simp) _ (List.mem_map.mpr ⟨p, hmem, rfl⟩)
  have := List.count_pos_iff.mpr hv
  omega

theorem KahnInv.count_le {degree : V → ℕ} {v : V} {queue result : List V}
    (h : KahnInv dependents univ degree (v :: queue) result) (t : V) :
    (dependents v).count t ≤ degree t := by
  have hlate : v ∉ result := fun hm =>
    (List.nodup_append.mp h.nodup).2.2 v hm v List.mem_cons_self rfl
  have hmem : v ∈ univ.filter (· ∉ result) :=
    List.mem_filter.mpr ⟨h.subset v (by simp), by simpa using hlate⟩
  rw [h.degree_eq]
  exact List.single_le_sum (by simp) _ (List.mem_map.mpr ⟨v, hmem, rfl⟩)

theorem KahnInv.step (hu : univ.Nodup) (ht : ∀ v ∈ univ, ∀ t ∈ dependents v, t ∈ univ)
    {degree : V → ℕ} {v : V} {queue result : List V}
    (h : KahnInv dependents univ degree (v :: queue) result) :
    KahnInv dependents univ ((dependents v).foldl release (degree, queue)).1
      ((dependents v).foldl release (degree, queue)).2 (result ++ [v]) := by
  have hv : v ∈ univ := h.subset v (by simp)
  have hvr : v ∉ result := fun hm =>
    (List.nodup_append.mp h.nodup).2.2 v hm v List.mem_cons_self rfl
  have hsum : ∀ t, degree t = (dependents v).count t +
      ((univ.filter (· ∉ result ++ [v])).map fun u => (dependents u).count t).sum := by
    intro t
    rw [h.degree_eq, Worklist.sum_filter_visit (fun u => (dependents u).count t) hu hv hvr]
  obtain ⟨h₁, added, h₂, hnd, h₃⟩ := foldl_release (dependents v) degree queue
    (fun t => by rw [hsum t]; omega)
  have hvz : degree v = 0 := (h.ready v hv).mp (by simp)
  have hadd : ∀ t ∈ added, t ∈ univ ∧ t ∉ result ++ v :: queue := by
    intro t hm
    obtain ⟨hd, he⟩ := (h₃ t).mp hm
    have htu := ht v hv t hd
    refine ⟨htu, fun hin => ?_⟩
    have := (h.ready t htu).mp hin
    have := List.count_pos_iff.mpr hd
    omega
  rw [h₂]
  refine ⟨?_, ?_, fun t => ?_, fun t htu => ?_, ?_⟩
  · have hsplit : result ++ [v] ++ (queue ++ added) = (result ++ v :: queue) ++ added := by simp
    rw [hsplit]
    exact List.nodup_append.mpr ⟨h.nodup, hnd, fun a ha b hb he => (hadd b hb).2 (he ▸ ha)⟩
  · intro t hm
    have hsplit : result ++ [v] ++ (queue ++ added) = (result ++ v :: queue) ++ added := by simp
    rw [hsplit] at hm
    rcases List.mem_append.mp hm with hm | hm
    · exact h.subset t hm
    · exact (hadd t hm).1
  · rw [h₁, hsum t]; omega
  · have hsplit : result ++ [v] ++ (queue ++ added) = (result ++ v :: queue) ++ added := by simp
    rw [hsplit, List.mem_append, h.ready t htu, h₁, h₃]
    constructor
    · rintro (hz | ⟨-, he⟩) <;> omega
    · intro hz
      by_cases hd : t ∈ dependents v
      · have := hsum t
        exact .inr ⟨hd, by omega⟩
      · exact .inl (by rw [List.count_eq_zero.mpr hd] at hz; omega)
  · exact readyOrder_snoc.mpr ⟨h.order, fun p ⟨hp, hd⟩ => by
      simpa using h.parents_done hvz hp hd⟩

theorem kahn_spec (hu : univ.Nodup) (ht : ∀ v ∈ univ, ∀ t ∈ dependents v, t ∈ univ)
    {n : ℕ} {degree : V → ℕ} {queue result : List V}
    (h : KahnInv dependents univ degree queue result) :
    (kahn dependents n degree queue result).Nodup ∧
      (∀ v ∈ kahn dependents n degree queue result, v ∈ univ) ∧
      ReadyOrder (fun p v => p ∈ univ ∧ v ∈ dependents p) []
        (kahn dependents n degree queue result) := by
  induction n generalizing degree queue result with
  | zero =>
    exact ⟨(List.nodup_append.mp h.nodup).1, fun v hv => h.subset v (List.mem_append_left _ hv),
      h.order⟩
  | succ n ih =>
    cases queue with
    | nil =>
      exact ⟨(List.nodup_append.mp h.nodup).1,
        fun v hv => h.subset v (List.mem_append_left _ hv), h.order⟩
    | cons v queue => exact ih (h.step hu ht)

theorem KahnInv.init (hu : univ.Nodup) {degree : V → ℕ}
    (hd : ∀ t, degree t = (univ.map fun v => (dependents v).count t).sum) :
    KahnInv dependents univ degree (univ.filter (degree · = 0)) [] where
  nodup := by simpa using hu.filter _
  subset v hv := (List.mem_filter.mp (by simpa only [List.nil_append] using hv)).1
  degree_eq t := by simpa using hd t
  ready t ht := by simp [ht]
  order := trivial

theorem kahn_perm (hu : univ.Nodup) (ht : ∀ v ∈ univ, ∀ t ∈ dependents v, t ∈ univ)
    {n : ℕ} {degree : V → ℕ}
    (hd : ∀ t, degree t = (univ.map fun v => (dependents v).count t).sum)
    (hl : (kahn dependents n degree (univ.filter (degree · = 0)) []).length = univ.length) :
    (kahn dependents n degree (univ.filter (degree · = 0)) []).Perm univ := by
  obtain ⟨hnd, hsub, -⟩ := kahn_spec (n := n) hu ht (KahnInv.init hu hd)
  exact (List.subperm_of_subset hnd hsub).perm_of_length_le (by omega)

/-- Where nothing leads back to itself, Kahn's algorithm lists every vertex. -/
theorem kahn_complete (hu : univ.Nodup) (ht : ∀ v ∈ univ, ∀ t ∈ dependents v, t ∈ univ)
    (hacyclic : ∀ v, ¬ Relation.TransGen (fun p v => p ∈ univ ∧ v ∈ dependents p) v v)
    {n : ℕ} {degree : V → ℕ} {queue result : List V}
    (h : KahnInv dependents univ degree queue result) (hn : univ.length ≤ n + result.length) :
    ∀ v ∈ univ, v ∈ kahn dependents n degree queue result := by
  induction n generalizing degree queue result with
  | zero =>
    have hnodup := (List.nodup_append.mp h.nodup).1
    have hsub : result ⊆ univ := fun v hv => h.subset v (List.mem_append_left _ hv)
    rw [Nat.zero_add] at hn
    intro v hv
    exact ((List.subperm_of_subset hnodup hsub).perm_of_length_le hn).mem_iff.mpr hv
  | succ n ih =>
    cases queue with
    | cons v queue =>
      refine ih (h.step hu ht) ?_
      rw [List.length_append, List.length_singleton]
      omega
    | nil =>
      intro v hv
      show v ∈ result
      by_contra hnot
      have hleft : univ.filter (· ∉ result) ≠ [] :=
        List.ne_nil_of_mem (List.mem_filter.mpr ⟨hv, by simpa using hnot⟩)
      -- a vertex that is left and has no parent left would be in the queue
      obtain ⟨first, hfirst, hparents⟩ := exists_parentless hacyclic hleft
      obtain ⟨hmem, hlate⟩ := List.mem_filter.mp hfirst
      have hdegree : degree first = 0 := by
        rw [h.degree_eq, List.sum_eq_zero_iff]
        intro c hc
        obtain ⟨p, hp, rfl⟩ := List.mem_map.mp hc
        exact List.count_eq_zero.mpr fun hdep =>
          hparents p hp ⟨(List.mem_filter.mp hp).1, hdep⟩
      have hready := (h.ready first hmem).mpr hdegree
      rw [List.append_nil] at hready
      exact of_decide_eq_true hlate hready

end Kahn

section Layers

variable {N : Type}

/-- Depths known so far and the layers they fill. -/
structure Layering (N V : Type) where
  depth : V → Option ℕ
  layers : List (List N)

def Layering.empty : Layering N V := ⟨fun _ => none, []⟩

/-- One more than the deepest parent, zero without parents. -/
def depthBelow (depths : List ℕ) : ℕ := depths.foldr (fun d m => max (d + 1) m) 0

/-- Put one item into the layer below its deepest parent. Fails when a parent has no depth yet
or the layer is not the next one. -/
def place [DecidableEq V] (key : N → V) (parents : V → List V) (s : Layering N V) (x : N) :
    Option (Layering N V) := do
  let depths ← (parents (key x)).mapM s.depth
  let d := depthBelow depths
  let layers := if d = s.layers.length then s.layers ++ [[]] else s.layers
  if d < layers.length then
    some ⟨Function.update s.depth (key x) (some d), layers.modify d (· ++ [x])⟩
  else none

theorem lt_depthBelow {depths : List ℕ} {d : ℕ} (h : d ∈ depths) : d < depthBelow depths := by
  induction depths with
  | nil => cases h
  | cons e depths ih =>
    simp only [depthBelow, List.foldr_cons]
    rcases List.mem_cons.mp h with rfl | h
    · omega
    · have := ih h; simp only [depthBelow] at this; omega

theorem depthBelow_le {depths : List ℕ} {n : ℕ} (h : ∀ d ∈ depths, d < n) :
    depthBelow depths ≤ n := by
  induction depths with
  | nil => simp [depthBelow]
  | cons e depths ih =>
    have h₁ := h e List.mem_cons_self
    have h₂ := ih fun d hd => h d (List.mem_cons_of_mem _ hd)
    simp only [depthBelow, List.foldr_cons] at h₂ ⊢
    omega

/-- What holds after the items of `done` were placed. -/
structure LayerInv (key : N → V) (parents : V → List V) (done : List N) (s : Layering N V) :
    Prop where
  dom : ∀ v, (s.depth v).isSome ↔ v ∈ done.map key
  mem : ∀ x d, x ∈ s.layers.getD d [] ↔ x ∈ done ∧ s.depth (key x) = some d
  bound : ∀ v d, s.depth v = some d → d < s.layers.length
  below : ∀ x ∈ done, ∀ p ∈ parents (key x), ∃ dp d,
    s.depth p = some dp ∧ s.depth (key x) = some d ∧ dp < d
  nodup : ∀ layer ∈ s.layers, (layer.map key).Nodup

variable {key : N → V} {parents : V → List V}

theorem LayerInv.init : LayerInv key parents [] (Layering.empty : Layering N V) where
  dom v := by simp [Layering.empty]
  mem x d := by simp [Layering.empty]
  bound v d h := by simp [Layering.empty] at h
  below x hx := by simp at hx
  nodup l hl := by simp [Layering.empty] at hl

theorem mapM_depth_eq_some {depth : V → Option ℕ} {ps : List V}
    (h : ∀ p ∈ ps, (depth p).isSome) :
    ∃ ds, ps.mapM depth = some ds ∧ ∀ p ∈ ps, ∃ d ∈ ds, depth p = some d := by
  induction ps with
  | nil => exact ⟨[], rfl, by simp⟩
  | cons p ps ih =>
    obtain ⟨d, hd⟩ := Option.isSome_iff_exists.mp (h p List.mem_cons_self)
    obtain ⟨ds, hds, hall⟩ := ih fun q hq => h q (List.mem_cons_of_mem _ hq)
    refine ⟨d :: ds, by simp [List.mapM_cons, hd, hds], fun q hq => ?_⟩
    rcases List.mem_cons.mp hq with rfl | hq
    · exact ⟨d, List.mem_cons_self, hd⟩
    · obtain ⟨e, he, hqe⟩ := hall q hq
      exact ⟨e, List.mem_cons_of_mem _ he, hqe⟩

theorem mem_of_mapM_depth {depth : V → Option ℕ} {ps : List V} {ds : List ℕ}
    (h : ps.mapM depth = some ds) {d : ℕ} (hd : d ∈ ds) : ∃ p ∈ ps, depth p = some d := by
  induction ps generalizing ds with
  | nil => simp at h; subst h; cases hd
  | cons p ps ih =>
    simp only [List.mapM_cons, Option.bind_eq_bind, Option.bind_eq_some_iff] at h
    obtain ⟨e, he, es, hes, heq⟩ := h
    simp only [Option.pure_def, Option.some.injEq] at heq
    subst heq
    rcases List.mem_cons.mp hd with rfl | hd
    · exact ⟨p, List.mem_cons_self, he⟩
    · obtain ⟨q, hq, hqd⟩ := ih hes hd
      exact ⟨q, List.mem_cons_of_mem _ hq, hqd⟩

theorem getD_modify_append (layers : List (List N)) (d e : ℕ) (x : N) (hd : d < layers.length) :
    (layers.modify d (· ++ [x])).getD e [] =
      if e = d then layers.getD d [] ++ [x] else layers.getD e [] := by
  simp only [List.getD_eq_getElem?_getD, List.getElem?_modify]
  by_cases h : e = d
  · subst h; simp [List.getElem?_eq_getElem hd]
  · simp [h, Ne.symm h]

theorem getD_open (layers : List (List N)) (d e : ℕ) :
    (if d = layers.length then layers ++ [[]] else layers).getD e [] = layers.getD e [] := by
  split
  · simp only [List.getD_eq_getElem?_getD, List.getElem?_append]
    by_cases h : e < layers.length
    · simp [h]
    · simp only [h, if_false]
      rw [List.getElem?_eq_none (l := layers) (by omega)]
      cases e - layers.length <;> simp
  · rfl

variable [DecidableEq V]

/-- Placing an item whose parents were placed before succeeds and keeps the invariant. -/
theorem LayerInv.place {done : List N} {s : Layering N V} (h : LayerInv key parents done s)
    {x : N} (hx : key x ∉ done.map key) (hp : ∀ p ∈ parents (key x), p ∈ done.map key) :
    ∃ s', place key parents s x = some s' ∧ LayerInv key parents (done ++ [x]) s' := by
  obtain ⟨ds, hds, hall⟩ := mapM_depth_eq_some fun p hm => (h.dom p).mpr (hp p hm)
  have hle : depthBelow ds ≤ s.layers.length := depthBelow_le fun d hd => by
    obtain ⟨p, -, hpd⟩ := mem_of_mapM_depth hds hd
    exact h.bound p d hpd
  set d := depthBelow ds with hdef
  set layers := if d = s.layers.length then s.layers ++ [[]] else s.layers with hlayers
  have hlt : d < layers.length := by
    rw [hlayers]
    split
    · rw [List.length_append, List.length_singleton]; omega
    · omega
  have hlen : s.layers.length ≤ layers.length := by rw [hlayers]; split <;> simp
  have hgetD : ∀ e, layers.getD e [] = s.layers.getD e [] := getD_open s.layers d
  refine ⟨⟨Function.update s.depth (key x) (some d), layers.modify d (· ++ [x])⟩, ?_, ?_⟩
  · simp only [Topological.place, hds, Option.bind_eq_bind, Option.bind_some, ← hdef, ← hlayers,
      if_pos hlt]
  have hold : ∀ y ∈ done, Function.update s.depth (key x) (some d) (key y) = s.depth (key y) :=
    fun y hy => Function.update_of_ne (fun he : key y = key x =>
      hx (he ▸ List.mem_map_of_mem hy)) _ _
  have hpar : ∀ p ∈ done.map key, Function.update s.depth (key x) (some d) p = s.depth p :=
    fun p hm => Function.update_of_ne (fun he : p = key x => hx (he ▸ hm)) _ _
  refine ⟨fun v => ?_, fun y e => ?_, fun v e he => ?_, fun y hy p hm => ?_, fun l hl => ?_⟩
  · by_cases hv : v = key x
    · subst hv; simp
    · simp [h.dom v, hv]
  · have hm : ∀ i, y ∈ layers.getD i [] ↔ y ∈ done ∧ s.depth (key y) = some i := fun i => by
      rw [hgetD, h.mem]
    change y ∈ (layers.modify d (· ++ [x])).getD e [] ↔
      y ∈ done ++ [x] ∧ Function.update s.depth (key x) (some d) (key y) = some e
    rw [getD_modify_append _ _ _ _ hlt, List.mem_append, List.mem_singleton]
    by_cases hyx : y ∈ done
    · have hne : y ≠ x := fun he => hx (he ▸ List.mem_map_of_mem hyx)
      rw [hold y hyx]
      split
      · rename_i he
        subst he
        rw [List.mem_append, hm, List.mem_singleton]
        simp [hyx, hne]
      · rw [hm]; simp [hyx]
    · by_cases hye : y = x
      · subst hye
        rw [Function.update_self]
        split
        · rename_i he; subst he; simp
        · rename_i he
          rw [hm]
          simp [hyx, Ne.symm he]
      · split
        · rw [List.mem_append, hm, List.mem_singleton]; simp [hyx, hye]
        · rw [hm]; simp [hyx, hye]
  · rw [List.length_modify]
    by_cases hv : v = key x
    · subst hv; simp only [Function.update_self, Option.some.injEq] at he; omega
    · have he' : s.depth v = some e := (Function.update_of_ne hv _ _).symm.trans he
      exact lt_of_lt_of_le (h.bound v e he') hlen
  · rcases List.mem_append.mp hy with hy | hy
    · obtain ⟨dp, dy, h₁, h₂, h₃⟩ := h.below y hy p hm
      have hpd : p ∈ done.map key := (h.dom p).mp (by simp [h₁])
      exact ⟨dp, dy, (hpar p hpd).trans h₁, (hold y hy).trans h₂, h₃⟩
    · rw [List.mem_singleton.mp hy] at hm ⊢
      obtain ⟨dp, hdp, hpd⟩ := hall p hm
      exact ⟨dp, d, (hpar p (hp p hm)).trans hpd, Function.update_self .., lt_depthBelow hdp⟩
  · rw [List.mem_iff_getElem?] at hl
    obtain ⟨e, he⟩ := hl
    have hmem : l = (layers.modify d (· ++ [x])).getD e [] := by
      simp [List.getD_eq_getElem?_getD, he]
    rw [getD_modify_append _ _ _ _ hlt, hgetD, hgetD] at hmem
    have hbase : ∀ i, ((s.layers.getD i []).map key).Nodup := by
      intro i
      rcases Nat.lt_or_ge i s.layers.length with hi | hi
      · rw [List.getD_eq_getElem _ _ hi]; exact h.nodup _ (List.getElem_mem hi)
      · rw [List.getD_eq_default _ _ hi]; simp
    subst hmem
    split
    · rw [List.map_append, List.nodup_append]
      refine ⟨hbase d, by simp, fun a ha b hb hab => ?_⟩
      simp only [List.map_cons, List.map_nil, List.mem_singleton] at hb
      obtain ⟨y, hy, rfl⟩ := List.mem_map.mp ha
      exact hx (by rw [← hb, ← hab]; exact List.mem_map_of_mem ((h.mem y d).mp hy).1)
    · exact hbase e

theorem layering_spec {done rest : List N} {s : Layering N V} (h : LayerInv key parents done s)
    (hn : ((done ++ rest).map key).Nodup)
    (ho : ReadyOrder (fun p v => p ∈ parents v) (done.map key) (rest.map key)) :
    ∃ s', rest.foldlM (place key parents) s = some s' ∧
      LayerInv key parents (done ++ rest) s' := by
  induction rest generalizing done s with
  | nil => exact ⟨s, rfl, by simpa using h⟩
  | cons x rest ih =>
    obtain ⟨hp, ho'⟩ := ho
    have hx : key x ∉ done.map key := fun hm => by
      rw [List.map_append, List.nodup_append] at hn
      exact hn.2.2 _ hm (key x) (by simp) rfl
    obtain ⟨s₁, hs₁, h₁⟩ := h.place hx hp
    have hsplit : done ++ x :: rest = (done ++ [x]) ++ rest := by simp
    obtain ⟨s', hs', h'⟩ := ih h₁ (by rw [← hsplit]; exact hn) (by simpa using ho')
    exact ⟨s', by simp [List.foldlM_cons, hs₁, hs'], by rw [hsplit]; exact h'⟩

/-- The item is one layer below the deepest of its parents. -/
def Layering.Exact (key : N → V) (parents : V → List V) (s : Layering N V) (x : N) : Prop :=
  ∃ depths, (parents (key x)).mapM s.depth = some depths ∧
    s.depth (key x) = some (depthBelow depths)

theorem mapM_depth_update {depth : V → Option ℕ} {ps : List V} {ds : List ℕ} {v : V}
    (h : ps.mapM depth = some ds) (hv : depth v = none) (d : Option ℕ) :
    ps.mapM (Function.update depth v d) = some ds := by
  induction ps generalizing ds with
  | nil => exact h
  | cons p ps ih =>
    simp only [List.mapM_cons, Option.bind_eq_bind, Option.bind_eq_some_iff] at h ⊢
    obtain ⟨e, he, es, hes, heq⟩ := h
    have hne : p ≠ v := by
      rintro rfl
      rw [hv] at he
      cases he
    exact ⟨e, by rwa [Function.update_of_ne hne], es, ih hes, heq⟩

theorem place_depth {s s' : Layering N V} {x : N} (h : place key parents s x = some s') :
    ∃ depths, (parents (key x)).mapM s.depth = some depths ∧
      s'.depth = Function.update s.depth (key x) (some (depthBelow depths)) := by
  simp only [place, Option.bind_eq_bind, Option.bind_eq_some_iff] at h
  obtain ⟨depths, hdepths, h⟩ := h
  obtain ⟨-, h⟩ := Option.ite_none_right_eq_some.mp h
  cases h
  exact ⟨depths, hdepths, rfl⟩

/-- Placing the items one after another puts each of them one layer below its deepest parent. -/
theorem layering_exact {done rest : List N} {s s' : Layering N V}
    (hdom : ∀ v, (s.depth v).isSome → v ∈ done.map key)
    (hn : ((done ++ rest).map key).Nodup) (hexact : ∀ x ∈ done, s.Exact key parents x)
    (h : rest.foldlM (place key parents) s = some s') :
    ∀ x ∈ done ++ rest, s'.Exact key parents x := by
  induction rest generalizing done s with
  | nil =>
    cases h
    simpa using hexact
  | cons x rest ih =>
    rw [List.foldlM_cons, Option.bind_eq_bind, Option.bind_eq_some_iff] at h
    obtain ⟨s₁, h₁, h⟩ := h
    obtain ⟨depths, hdepths, hs₁⟩ := place_depth h₁
    have hsplit : done ++ x :: rest = (done ++ [x]) ++ rest := by simp
    have hx : s.depth (key x) = none := by
      by_contra hsome
      have hmem := hdom (key x) (Option.isSome_iff_ne_none.mpr hsome)
      rw [List.map_append, List.nodup_append] at hn
      exact hn.2.2 _ hmem (key x) (by simp) rfl
    rw [hsplit] at hn ⊢
    apply ih _ hn _ h
    · intro v hv
      rw [hs₁] at hv
      rw [List.map_append, List.mem_append]
      by_cases hvx : v = key x
      · exact .inr (by simp [hvx])
      · rw [Function.update_of_ne hvx] at hv
        exact .inl (hdom v hv)
    · intro y hy
      rcases List.mem_append.mp hy with hy | hy
      · obtain ⟨ds, hds, hy⟩ := hexact y hy
        have hne : key y ≠ key x := by
          intro he
          rw [he, hx] at hy
          cases hy
        refine ⟨ds, ?_, ?_⟩
        · rw [hs₁]
          exact mapM_depth_update hds hx _
        · rw [hs₁, Function.update_of_ne hne, hy]
      · rw [List.mem_singleton.mp hy]
        refine ⟨depths, ?_, ?_⟩
        · rw [hs₁]
          exact mapM_depth_update hdepths hx _
        · rw [hs₁, Function.update_self]

end Layers

end Manus.Topological
