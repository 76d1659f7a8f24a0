import Mathlib.Data.List.TakeWhile
import Mathlib.Data.Nat.Notation
import Mathlib.Tactic.Common

/-! # Texts with holes

A text with holes is a list of letters and of names that stand for words. Filling the holes
commutes with what is cut off a text at letters that no word has.
-/

namespace Manus.Holes

variable {α β : Type}

/-- The text with a word in each of its holes. -/
def fill (word : β → List α) (pieces : List (α ⊕ β)) : List α :=
  pieces.flatMap (Sum.elim (fun x => [x]) word)

/-- A test of letters that no hole passes. -/
def onLetter (p : α → Bool) : α ⊕ β → Bool := Sum.elim p fun _ => false

/-- A test of letters that every hole passes. -/
def orHole (p : α → Bool) : α ⊕ β → Bool := Sum.elim p fun _ => true

section Fill

variable {word : β → List α} {p : α → Bool} {pieces : List (α ⊕ β)}

@[simp] theorem fill_nil : fill word ([] : List (α ⊕ β)) = [] := rfl

@[simp] theorem fill_letter (x : α) (pieces : List (α ⊕ β)) :
    fill word (.inl x :: pieces) = x :: fill word pieces := rfl

@[simp] theorem fill_hole (b : β) (pieces : List (α ⊕ β)) :
    fill word (.inr b :: pieces) = word b ++ fill word pieces := rfl

@[simp] theorem fill_append (s t : List (α ⊕ β)) :
    fill word (s ++ t) = fill word s ++ fill word t := List.flatMap_append

theorem fill_reverse (word : β → List α) (pieces : List (α ⊕ β)) :
    (fill word pieces).reverse = fill (fun b => (word b).reverse) pieces.reverse := by
  induction pieces with
  | nil => rfl
  | cons piece pieces ih =>
    rw [List.reverse_cons, fill_append, ← ih]
    cases piece <;> simp

theorem fill_eq_nil_iff (hword : ∀ b, .inr b ∈ pieces → word b ≠ []) :
    fill word pieces = [] ↔ pieces = [] := by
  cases pieces with
  | nil => simp
  | cons piece pieces =>
    cases piece with
    | inl x => simp
    | inr b => simp [hword b List.mem_cons_self]

theorem mem_fill {x : α} : x ∈ fill word pieces ↔
    .inl x ∈ pieces ∨ ∃ b, .inr b ∈ pieces ∧ x ∈ word b := by
  induction pieces with
  | nil => simp
  | cons piece pieces ih =>
    cases piece with
    | inl y => simp [ih, or_assoc]
    | inr b => simp [ih, or_and_right, exists_or, or_left_comm]

theorem dropWhile_fill (hword : ∀ b, .inr b ∈ pieces → ∃ x rest, word b = x :: rest ∧ p x = false) :
    (fill word pieces).dropWhile p = fill word (pieces.dropWhile (onLetter p)) := by
  induction pieces with
  | nil => rfl
  | cons piece pieces ih =>
    cases piece with
    | inl x =>
      rw [fill_letter]
      cases hx : p x with
      | true =>
        rw [List.dropWhile_cons_of_pos hx,
          List.dropWhile_cons_of_pos (show onLetter p (.inl x) = true from hx),
          ih fun b hb => hword b (List.mem_cons_of_mem _ hb)]
      | false =>
        rw [List.dropWhile_cons_of_neg (by simp [hx]),
          List.dropWhile_cons_of_neg (by simp [onLetter, hx]), fill_letter]
    | inr b =>
      obtain ⟨x, rest, hb, hx⟩ := hword b List.mem_cons_self
      rw [List.dropWhile_cons_of_neg (by simp [onLetter]), fill_hole, hb, List.cons_append,
        List.dropWhile_cons_of_neg (by simp [hx])]

/-- A text is cut at a letter that is in no word. -/
theorem takeWhile_fill (hword : ∀ b, .inr b ∈ pieces → ∀ x ∈ word b, p x = true) :
    (fill word pieces).takeWhile p = fill word (pieces.takeWhile (orHole p)) ∧
      (fill word pieces).dropWhile p = fill word (pieces.dropWhile (orHole p)) := by
  induction pieces with
  | nil => exact ⟨rfl, rfl⟩
  | cons piece pieces ih =>
    obtain ⟨htake, hdrop⟩ := ih fun b hb => hword b (List.mem_cons_of_mem _ hb)
    cases piece with
    | inl x =>
      cases hx : p x with
      | true =>
        have hpiece : orHole (β := β) p (.inl x) = true := hx
        rw [fill_letter, List.takeWhile_cons_of_pos hx, List.dropWhile_cons_of_pos hx,
          List.takeWhile_cons_of_pos hpiece, List.dropWhile_cons_of_pos hpiece, htake, hdrop]
        exact ⟨rfl, rfl⟩
      | false =>
        have hpiece : ¬ orHole (β := β) p (.inl x) = true := by simp [orHole, hx]
        have hletter : ¬ p x = true := by simp [hx]
        rw [fill_letter, List.takeWhile_cons_of_neg hletter, List.dropWhile_cons_of_neg hletter,
          List.takeWhile_cons_of_neg hpiece, List.dropWhile_cons_of_neg hpiece]
        exact ⟨rfl, rfl⟩
    | inr b =>
      have hb := hword b List.mem_cons_self
      have hpiece : orHole (α := α) p (.inr b) = true := rfl
      rw [fill_hole, List.takeWhile_append_of_pos hb, List.dropWhile_append_of_pos hb,
        List.takeWhile_cons_of_pos hpiece, List.dropWhile_cons_of_pos hpiece, htake, hdrop]
      exact ⟨rfl, rfl⟩

end Fill

end Manus.Holes
