import Manus.Lib.JsonText
import Mathlib.Algebra.Order.Group.Unbundled.Int
import Mathlib.Data.Int.Notation

/-! # The numbers of JSON

A number is an integer or a float, and its text says which of the two it is.
-/

namespace Manus

/-- A number of a JSON document; `F` are the floats. -/
inductive Number (F : Type) where
  | int (n : ℤ)
  | float (x : F)
  deriving DecidableEq

/-- `str(n)`. -/
def intText (n : ℤ) : List Char :=
  if n < 0 then '-' :: Nat.toDigits 10 n.natAbs else Nat.toDigits 10 n.natAbs

/-- The finite floats: `repr` writes each in its own way and never like an integer, `int` cuts the
fraction off, and a float without one equals an integer. -/
structure Floats (F : Type) where
  repr : F → List Char
  repr_injective : Function.Injective repr
  repr_chars : ∀ x, ∀ c ∈ repr x, isNumberChar c = true
  repr_fraction : ∀ x, '.' ∈ repr x ∨ 'e' ∈ repr x
  trunc : F → ℤ
  whole : F → Option ℤ

variable {F : Type} (floats : Floats F)

def Number.text : Number F → List Char
  | .int n => intText n
  | .float x => floats.repr x

theorem intText_chars (n : ℤ) : ∀ c ∈ intText n, c = '-' ∨ c.isDigit = true := by
  intro c hc
  have hdigit : c ∈ Nat.toDigits 10 n.natAbs → c.isDigit = true :=
    Nat.isDigit_of_mem_toDigits (by decide) (by decide)
  unfold intText at hc
  split at hc
  · rcases List.mem_cons.mp hc with rfl | hc
    · exact .inl rfl
    · exact .inr (hdigit hc)
  · exact .inr (hdigit hc)

theorem toDigits_injective {m n : ℕ} (h : Nat.toDigits 10 m = Nat.toDigits 10 n) : m = n := by
  rw [← Nat.ofDigitChars_ten_toDigits (n := m), h, Nat.ofDigitChars_ten_toDigits]

theorem intText_injective : Function.Injective intText := by
  have hminus : ∀ n cs, Nat.toDigits 10 n ≠ '-' :: cs := by
    intro n cs h
    have hdigit : '-'.isDigit = true :=
      Nat.isDigit_of_mem_toDigits (b := 10) (n := n) (by decide) (by decide) (by simp [h])
    cases hdigit
  intro m n h
  unfold intText at h
  split at h <;> split at h
  · have habs := toDigits_injective (List.cons.inj h).2
    omega
  · exact absurd h.symm (hminus _ _)
  · exact absurd h (hminus _ _)
  · have habs := toDigits_injective h
    omega

/-- Numbers as `json.dumps` writes them. -/
def Floats.numberText : NumberText (Number F) where
  text := Number.text floats
  injective := by
    have hmixed : ∀ n x, intText n ≠ floats.repr x := by
      intro n x h
      rcases floats.repr_fraction x with hc | hc <;> rw [← h] at hc <;>
        rcases intText_chars n _ hc with hc | hc <;> cases hc
    rintro (m | x) (n | y) h
    · exact congrArg _ (intText_injective h)
    · exact absurd h (hmixed m y)
    · exact absurd h.symm (hmixed n x)
    · exact congrArg _ (floats.repr_injective h)
  ne_nil := by
    rintro (n | x) h
    · have hpos : Nat.toDigits 10 n.natAbs ≠ [] := List.ne_nil_of_length_pos Nat.length_toDigits_pos
      have hnil : intText n = [] := h
      unfold intText at hnil
      split at hnil
      · cases hnil
      · exact hpos hnil
    · have hnil : floats.repr x = [] := h
      have hfraction := floats.repr_fraction x
      simp [hnil] at hfraction
  chars := by
    rintro (n | x) c hc
    · rcases intText_chars n c hc with rfl | hdigit
      · rfl
      · simp [isNumberChar, hdigit]
    · exact floats.repr_chars x c hc

/-- No number is a float. -/
def noFloats : Floats Empty where
  repr := nofun
  repr_injective := nofun
  repr_chars := nofun
  repr_fraction := nofun
  trunc := nofun
  whole := nofun

/-- `value == n`; the booleans are the numbers 0 and 1. -/
def JsonValue.eqInt (floats : Floats F) (n : ℤ) : JsonValue (Number F) → Bool
  | .bool b => n == if b then 1 else 0
  | .num (.int m) => m == n
  | .num (.float x) => floats.whole x == some n
  | _ => false

end Manus
