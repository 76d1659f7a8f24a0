import Mathlib.Data.List.Nodup

/-! # Sharing out a list

The elements of a list go to those who take them, and the rest is left over. When nobody takes what
another one takes, nothing is lost and nothing is there twice.
-/

namespace Manus

variable {α γ : Type} {takes : γ → α → Bool} {takers : List γ} {l : List α}

/-- The elements that nobody takes. -/
def leftOver (takes : γ → α → Bool) (takers : List γ) (l : List α) : List α :=
  l.filter fun x => !takers.any fun g => takes g x

/-- No two takers take one element. -/
def TakeApart (takes : γ → α → Bool) (takers : List γ) : Prop :=
  takers.Pairwise fun g g' => ∀ x, takes g x = true → takes g' x = false

theorem leftOver_cons (g : γ) : leftOver takes (g :: takers) l =
    (leftOver takes takers l).filter fun x => !takes g x := by
  rw [leftOver, leftOver, List.filter_filter]
  apply List.filter_congr
  intro x _
  rw [List.any_cons, Bool.not_or]

theorem filter_leftOver (g : γ)
    (h : ∀ g' ∈ takers, ∀ x, takes g x = true → takes g' x = false) :
    (leftOver takes takers l).filter (takes g) = l.filter (takes g) := by
  rw [leftOver, List.filter_filter]
  apply List.filter_congr
  intro x _
  cases hg : takes g x with
  | false => rfl
  | true =>
    have hany : (takers.any fun g' => takes g' x) = false :=
      List.any_eq_false.mpr fun g' hg' => by simp [h g' hg' x hg]
    rw [hany]
    rfl

theorem leftOver_append_perm (h : TakeApart takes takers) :
    (leftOver takes takers l ++ takers.flatMap fun g => l.filter (takes g)).Perm l := by
  induction takers with
  | nil => simp [leftOver]
  | cons g takers ih =>
    obtain ⟨hg, htakers⟩ := List.pairwise_cons.mp h
    have hsplit : ((leftOver takes (g :: takers) l) ++ l.filter (takes g)).Perm
        (leftOver takes takers l) := by
      rw [leftOver_cons, ← filter_leftOver g hg]
      exact List.perm_append_comm.trans (List.filter_append_perm _ _)
    rw [List.flatMap_cons, ← List.append_assoc]
    exact (hsplit.append_right _).trans (ih htakers)

end Manus
