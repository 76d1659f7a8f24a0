import Mathlib.Logic.Relation
import Mathlib.Data.List.Nodup
import Mathlib.Algebra.BigOperators.Group.List.Basic
import Mathlib.Algebra.GroupWithZero.Nat
import Mathlib.Algebra.Order.BigOperators.Group.List

/-! # Breadth-first search with a work list

The search pops a vertex, skips it when it was seen before and otherwise appends
its successors to the queue. With enough fuel it collects exactly the vertices
reachable from the initial queue.
-/

namespace Manus.Worklist

variable {V : Type} [DecidableEq V]

/-- One run of the search: fuel, successor lists, queue, visited vertices. -/
def search (succ : V → List V) : ℕ → List V → List V → List V
  | 0, _, visited => visited
  | _ + 1, [], visited => visited
  | n + 1, v :: queue, visited =>
    if v ∈ visited then search succ n queue visited
    else search succ n (queue ++ succ v) (visited ++ [v])

/-- Pops still to come: the queue and the successors of every unvisited vertex of `univ`. -/
def pending (succ : V → List V) (univ queue visited : List V) : ℕ :=
  queue.length + ((univ.filter (· ∉ visited)).map fun v => (succ v).length).sum

/-- `y` can be reached from `x` along successor edges, in any number of steps. -/
abbrev Reach (succ : V → List V) : V → V → Prop :=
  Relation.ReflTransGen fun a b => b ∈ succ a

variable {succ : V → List V}

theorem search_sound {n : ℕ} {queue visited : List V} {x : V}
    (h : x ∈ search succ n queue visited) :
    x ∈ visited ∨ ∃ q ∈ queue, Reach succ q x := by
  induction n generalizing queue visited with
  | zero => exact .inl h
  | succ n ih =>
    cases queue with
    | nil => exact .inl h
    | cons v queue =>
      rw [search] at h
      split at h
      · rcases ih h with hv | ⟨q, hq, hr⟩
        · exact .inl hv
        · exact .inr ⟨q, List.mem_cons_of_mem _ hq, hr⟩
      · rcases ih h with hv | ⟨q, hq, hr⟩
        · rcases List.mem_append.mp hv with hv | hv
          · exact .inl hv
          · exact .inr ⟨v, List.mem_cons_self, by rw [List.mem_singleton.mp hv]⟩
        · rcases List.mem_append.mp hq with hq | hq
          · exact .inr ⟨q, List.mem_cons_of_mem _ hq, hr⟩
          · exact .inr ⟨v, List.mem_cons_self, .head hq hr⟩

/-- Dropping a vertex from the unvisited part removes its successors from the count. -/
theorem sum_filter_visit (f : V → ℕ) {univ visited : List V} (hu : univ.Nodup) {v : V}
    (hv : v ∈ univ) (hn : v ∉ visited) :
    ((univ.filter (· ∉ visited)).map f).sum =
      f v + ((univ.filter (· ∉ visited ++ [v])).map f).sum := by
  induction univ with
  | nil => cases hv
  | cons u univ ih =>
    obtain ⟨hu', hun⟩ := List.nodup_cons.mp hu
    by_cases he : u = v
    · subst he
      have hsame : univ.filter (fun w => decide (w ∉ visited ++ [u])) =
          univ.filter fun w => decide (w ∉ visited) := by
        refine List.filter_congr fun w hw => ?_
        have hne : w ≠ u := fun h => hu' (h ▸ hw)
        simp [hne]
      rw [List.filter_cons_of_pos (by simpa using hn), List.filter_cons_of_neg (by simp), hsame]
      simp
    · have hv' : v ∈ univ := (List.mem_cons.mp hv).resolve_left (Ne.symm he)
      by_cases hvis : u ∈ visited
      · rw [List.filter_cons_of_neg (by simpa using hvis),
          List.filter_cons_of_neg (by simp [hvis])]
        exact ih hun hv'
      · rw [List.filter_cons_of_pos (by simpa using hvis),
          List.filter_cons_of_pos (by simp [hvis, he])]
        simp only [List.map_cons, List.sum_cons, ih hun hv']
        omega

/-- What the search returns is closed: it holds the queue and the successors of what it holds,
as long as the vertices visited before have their successors visited or queued. -/
theorem search_complete {univ : List V} (hu : univ.Nodup) (hs : ∀ v, v ∉ univ → succ v = [])
    {n : ℕ} {queue visited : List V} (hn : pending succ univ queue visited ≤ n)
    (hc : ∀ v ∈ visited, ∀ w ∈ succ v, w ∈ visited ∨ w ∈ queue) :
    (∀ v ∈ visited, v ∈ search succ n queue visited) ∧
      (∀ v ∈ queue, v ∈ search succ n queue visited) ∧
      ∀ v ∈ search succ n queue visited, ∀ w ∈ succ v, w ∈ search succ n queue visited := by
  induction n generalizing queue visited with
  | zero =>
    have hq : queue = [] := List.length_eq_zero_iff.mp (by unfold pending at hn; omega)
    subst hq
    exact ⟨fun _ h => h, fun _ h => (by cases h),
      fun v hv w hw => (hc v hv w hw).resolve_right (by simp)⟩
  | succ n ih =>
    cases queue with
    | nil =>
      exact ⟨fun _ h => h, fun _ h => (by cases h),
        fun v hv w hw => (hc v hv w hw).resolve_right (by simp)⟩
    | cons v queue =>
      rw [search]
      split
      · rename_i hv
        have hn' : pending succ univ queue visited ≤ n := by
          simp only [pending, List.length_cons] at hn ⊢; omega
        have hc' : ∀ a ∈ visited, ∀ w ∈ succ a, w ∈ visited ∨ w ∈ queue := by
          intro a ha w hw
          rcases hc a ha w hw with h | h
          · exact .inl h
          · rcases List.mem_cons.mp h with rfl | h
            · exact .inl hv
            · exact .inr h
        obtain ⟨h₁, h₂, h₃⟩ := ih hn' hc'
        refine ⟨h₁, fun a ha => ?_, h₃⟩
        rcases List.mem_cons.mp ha with rfl | ha
        · exact h₁ _ hv
        · exact h₂ a ha
      · rename_i hv
        have hn' : pending succ univ (queue ++ succ v) (visited ++ [v]) ≤ n := by
          by_cases hm : v ∈ univ
          · have hsum := sum_filter_visit (fun u => (succ u).length) hu hm hv
            simp only [pending, List.length_cons, List.length_append] at hn ⊢
            omega
          · have hsame : univ.filter (fun w => decide (w ∉ visited ++ [v])) =
                univ.filter fun w => decide (w ∉ visited) := by
              refine List.filter_congr fun w hw => ?_
              have hne : w ≠ v := fun h => hm (h ▸ hw)
              simp [hne]
            simp only [pending, List.length_cons, List.length_append, hs v hm, hsame,
              List.length_nil] at hn ⊢
            omega
        have hc' : ∀ a ∈ visited ++ [v], ∀ w ∈ succ a,
            w ∈ visited ++ [v] ∨ w ∈ queue ++ succ v := by
          intro a ha w hw
          rcases List.mem_append.mp ha with ha | ha
          · rcases hc a ha w hw with h | h
            · exact .inl (List.mem_append_left _ h)
            · rcases List.mem_cons.mp h with rfl | h
              · exact .inl (by simp)
              · exact .inr (List.mem_append_left _ h)
          · rw [List.mem_singleton.mp ha] at hw
            exact .inr (List.mem_append_right _ hw)
        obtain ⟨h₁, h₂, h₃⟩ := ih hn' hc'
        refine ⟨fun a ha => h₁ a (List.mem_append_left _ ha), fun a ha => ?_, h₃⟩
        rcases List.mem_cons.mp ha with rfl | ha
        · exact h₁ _ (by simp)
        · exact h₂ a (List.mem_append_left _ ha)

theorem mem_search_iff {univ : List V} (hu : univ.Nodup) (hs : ∀ v, v ∉ univ → succ v = [])
    {n : ℕ} {queue : List V} (hn : pending succ univ queue [] ≤ n) {x : V} :
    x ∈ search succ n queue [] ↔ ∃ q ∈ queue, Reach succ q x := by
  constructor
  · intro h
    exact (search_sound h).resolve_left (by simp)
  · rintro ⟨q, hq, hr⟩
    obtain ⟨-, h₂, h₃⟩ := search_complete hu hs hn (by simp)
    induction hr with
    | refl => exact h₂ q hq
    | tail _ hstep ih => exact h₃ _ ih _ hstep

end Manus.Worklist
