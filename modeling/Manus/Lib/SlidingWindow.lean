import Mathlib.Algebra.Order.Group.Nat
import Mathlib.Data.List.Basic

/-! # Sliding windows

A budget for every span of one length. Times that are accepted only while the span that
ends there has room keep every span within the budget.
-/

namespace Manus

variable {T : Type*} [LinearOrder T] [Add T] {attempts : ℕ} {window now : T} {times times' : List T}

/-- The times of the span that ends now. -/
def spanOf (window now : T) (times : List T) : List T :=
  times.filter fun t => t ≤ now ∧ now < t + window

/-- No span has more times than the budget allows. -/
def WithinBudget (attempts : ℕ) (window : T) (times : List T) : Prop :=
  ∀ now, (spanOf window now times).length ≤ attempts

theorem WithinBudget.nil : WithinBudget attempts window [] := fun _ => Nat.zero_le _

theorem WithinBudget.sublist (h : WithinBudget attempts window times)
    (hsub : times'.Sublist times) : WithinBudget attempts window times' :=
  fun now => (hsub.filter _).length_le.trans (h now)

/-- One more time, after all others, where there is room. -/
theorem WithinBudget.concat (h : WithinBudget attempts window times) (hlast : ∀ t ∈ times, t ≤ now)
    (hroom : (spanOf window now times).length < attempts) :
    WithinBudget attempts window (times ++ [now]) := by
  intro later
  rw [spanOf, List.filter_append, List.length_append]
  by_cases hin : now ≤ later ∧ later < now + window
  · -- what shares a span with the new time is in the span that ends there
    have hle : (times.filter fun t => t ≤ later ∧ later < t + window).length ≤
        (spanOf window now times).length := by
      rw [spanOf, ← List.countP_eq_length_filter, ← List.countP_eq_length_filter]
      refine List.countP_mono_left fun t ht hspan => ?_
      rw [decide_eq_true_iff] at hspan ⊢
      exact ⟨hlast t ht, hin.1.trans_lt hspan.2⟩
    have hone := List.length_filter_le (fun t => decide (t ≤ later ∧ later < t + window)) [now]
    rw [List.length_singleton] at hone
    omega
  · rw [List.filter_cons_of_neg (by simpa using hin), List.filter_nil, List.length_nil, add_zero]
    exact h later

end Manus
