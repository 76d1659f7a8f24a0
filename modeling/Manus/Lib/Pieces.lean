import Manus.Lib.Digits
import Mathlib.Data.List.TakeWhile

/-! # The pieces of a text

A matcher says whether there is a match at the beginning of a text, and how long it is.
Scanning a text from the left cuts it into its matches and the characters between them.
-/

namespace Manus

universe u

variable {α : Type u}

/-- A match is still one when the text goes on. -/
structure Matcher (α : Type u) where
  length : List α → Option ℕ
  pos : ∀ {text n}, length text = some n → 0 < n
  le_length : ∀ {text n}, length text = some n → n ≤ text.length
  extend : ∀ {text n} (rest), length text = some n → length (text ++ rest) = some n

namespace Matcher

section Scan

variable (m : Matcher α)

/-- The pieces of a text, some characters of which belong to the last match. -/
def scan : ℕ → List α → List (α ⊕ List α)
  | _, [] => []
  | skip + 1, _ :: text => scan skip text
  | 0, x :: text =>
    match m.length (x :: text) with
    | some n => .inr ((x :: text).take n) :: scan (n - 1) text
    | none => .inl x :: scan 0 text

/-- The characters and the matches of a text. -/
def pieces (text : List α) : List (α ⊕ List α) := m.scan 0 text

end Scan

variable {m : Matcher α}

theorem scan_eq (skip : ℕ) (text : List α) : m.scan skip text = m.pieces (text.drop skip) := by
  induction text generalizing skip with
  | nil => cases skip <;> rfl
  | cons x text ih =>
    cases skip with
    | zero => rfl
    | succ skip => exact ih skip

theorem pieces_match {x : α} {text : List α} {n : ℕ} (h : m.length (x :: text) = some n) :
    m.pieces (x :: text) = .inr ((x :: text).take n) :: m.pieces ((x :: text).drop n) := by
  obtain ⟨k, rfl⟩ := Nat.exists_eq_succ_of_ne_zero (Nat.pos_iff_ne_zero.mp (m.pos h))
  rw [pieces, scan, h]
  exact congrArg _ (scan_eq _ _)

theorem pieces_append_of_match {s : List α} (hs : m.length s = some s.length) (t : List α) :
    m.pieces (s ++ t) = .inr s :: m.pieces t := by
  cases s with
  | nil => exact absurd (m.pos hs) (Nat.lt_irrefl 0)
  | cons x s =>
    have hmatch : m.length (x :: (s ++ t)) = some (x :: s).length := m.extend t hs
    rw [List.cons_append, pieces_match hmatch, ← List.cons_append, List.take_left, List.drop_left]

end Matcher

section Numbered

/-- The length of a match of the opening text, decimal digits and the closing text. -/
def numberedLength (opening closing text : List Char) : Option ℕ :=
  let rest := text.drop opening.length
  let digits := rest.takeWhile isDecimal
  if opening.isPrefixOf text ∧ digits ≠ [] ∧ closing.isPrefixOf (rest.drop digits.length) then
    some (opening.length + digits.length + closing.length)
  else none

/-- A text does not go on with decimal digits. -/
def EndsNumber (text : List Char) : Prop := ∃ c cs, text = c :: cs ∧ isDecimal c = false

variable {opening closing text : List Char} {n : ℕ}

theorem takeWhile_digits {digits rest : List Char} (hdigits : ∀ c ∈ digits, isDecimal c = true)
    (hrest : EndsNumber rest) : (digits ++ rest).takeWhile isDecimal = digits := by
  obtain ⟨c, cs, rfl, hc⟩ := hrest
  rw [List.takeWhile_append_of_pos hdigits, List.takeWhile_cons_of_neg (by simp [hc]),
    List.append_nil]

theorem drop_takeWhile (p : Char → Bool) (text : List Char) :
    text.drop (text.takeWhile p).length = text.dropWhile p := by
  have hdrop : (text.takeWhile p ++ text.dropWhile p).drop (text.takeWhile p).length =
      text.dropWhile p := List.drop_left
  rwa [List.takeWhile_append_dropWhile] at hdrop

theorem numberedLength_eq_some (hclosing : EndsNumber closing) :
    numberedLength opening closing text = some n ↔
      ∃ digits rest, digits ≠ [] ∧ (∀ c ∈ digits, isDecimal c = true) ∧
        text = opening ++ (digits ++ (closing ++ rest)) ∧
        n = opening.length + digits.length + closing.length := by
  constructor
  · intro h
    unfold numberedLength at h
    obtain ⟨⟨hopening, hdigits, hclose⟩, hn⟩ := Option.ite_none_right_eq_some.mp h
    obtain ⟨rest, rfl⟩ := List.isPrefixOf_iff_prefix.mp hopening
    rw [List.drop_left] at hdigits hclose hn
    obtain ⟨tail, htail⟩ := List.isPrefixOf_iff_prefix.mp hclose
    refine ⟨rest.takeWhile isDecimal, tail, hdigits, fun c hc => List.mem_takeWhile_imp hc, ?_,
      (Option.some.inj hn).symm⟩
    rw [htail, drop_takeWhile, List.takeWhile_append_dropWhile]
  · rintro ⟨digits, rest, hne, hdigits, rfl, rfl⟩
    have hends : EndsNumber (closing ++ rest) := by
      obtain ⟨c, cs, rfl, hc⟩ := hclosing
      exact ⟨c, cs ++ rest, rfl, hc⟩
    have htake := takeWhile_digits hdigits hends
    simp only [numberedLength, List.drop_left, htake, List.isPrefixOf_iff_prefix]
    rw [if_pos ⟨List.prefix_append _ _, hne, List.prefix_append _ _⟩]

/-- Numbers between an opening and a closing text. -/
def numbered (opening closing : List Char) (hclosing : EndsNumber closing) : Matcher Char where
  length := numberedLength opening closing
  pos h := by
    obtain ⟨digits, rest, hne, -, -, rfl⟩ := (numberedLength_eq_some hclosing).mp h
    have hpos := List.length_pos_iff.mpr hne
    omega
  le_length h := by
    obtain ⟨digits, rest, -, -, rfl, rfl⟩ := (numberedLength_eq_some hclosing).mp h
    simp only [List.length_append]
    omega
  extend tail h := by
    obtain ⟨digits, rest, hne, hdigits, rfl, hn⟩ := (numberedLength_eq_some hclosing).mp h
    exact (numberedLength_eq_some hclosing).mpr
      ⟨digits, rest ++ tail, hne, hdigits, by simp only [List.append_assoc], hn⟩

end Numbered

end Manus
