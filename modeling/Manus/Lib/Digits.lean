import Mathlib.Data.Int.Notation
import Mathlib.Data.Nat.Notation
import Mathlib.Tactic.Common

/-! # Decimal digits

The decimal digits of Unicode, in tens from a zero to a nine, and the numbers that
they spell, with a sign and blanks around them.
-/

namespace Manus

/-- The zeros of the decimal digits. -/
def decimalZeros : List ℕ :=
  [0x30, 0x660, 0x6f0, 0x7c0, 0x966, 0x9e6, 0xa66, 0xae6, 0xb66, 0xbe6, 0xc66, 0xce6, 0xd66, 0xde6,
    0xe50, 0xed0, 0xf20, 0x1040, 0x1090, 0x17e0, 0x1810, 0x1946, 0x19d0, 0x1a80, 0x1a90, 0x1b50,
    0x1bb0, 0x1c40, 0x1c50, 0xa620, 0xa8d0, 0xa900, 0xa9d0, 0xa9f0, 0xaa50, 0xabf0, 0xff10, 0x104a0,
    0x10d30, 0x10d40, 0x11066, 0x110f0, 0x11136, 0x111d0, 0x112f0, 0x11450, 0x114d0, 0x11650,
    0x116c0, 0x116d0, 0x116da, 0x11730, 0x118e0, 0x11950, 0x11bf0, 0x11c50, 0x11d50, 0x11da0,
    0x11f50, 0x16a60, 0x16ac0, 0x16b50, 0x16d70, 0x1ccf0, 0x1d7ce, 0x1d7d8, 0x1d7e2, 0x1d7ec,
    0x1d7f6, 0x1e140, 0x1e2f0, 0x1e4d0, 0x1e5f1, 0x1e950, 0x1fbf0]

def decimalDigit? (c : Char) : Option ℕ :=
  (decimalZeros.find? fun z => z ≤ c.toNat && c.toNat < z + 10).map (c.toNat - ·)

def isDecimal (c : Char) : Bool := (decimalDigit? c).isSome

/-- The digits that are not decimal: superscripts, subscripts, digits in circles and the like. -/
def otherDigits : List (ℕ × ℕ) :=
  [(0xb2, 0xb3), (0xb9, 0xb9), (0x1369, 0x1371), (0x19da, 0x19da), (0x2070, 0x2070),
    (0x2074, 0x2079), (0x2080, 0x2089), (0x2460, 0x2468), (0x2474, 0x247c), (0x2488, 0x2490),
    (0x24ea, 0x24ea), (0x24f5, 0x24fd), (0x24ff, 0x24ff), (0x2776, 0x277e), (0x2780, 0x2788),
    (0x278a, 0x2792), (0x10a40, 0x10a43), (0x10e60, 0x10e68), (0x11052, 0x1105a),
    (0x1f100, 0x1f10a)]

/-- `text.isdigit()`. -/
def isDigitText (text : List Char) : Bool :=
  text ≠ [] && text.all fun c =>
    isDecimal c || otherDigits.any fun range => range.1 ≤ c.toNat && c.toNat ≤ range.2

/-- The number that digits go on to, with single underscores between them. -/
def digitsValue (value : ℕ) : List Char → Option ℕ
  | [] => some value
  | '_' :: c :: cs => (decimalDigit? c).bind fun digit => digitsValue (value * 10 + digit) cs
  | c :: cs => (decimalDigit? c).bind fun digit => digitsValue (value * 10 + digit) cs

def unsignedValue : List Char → Option ℕ
  | [] => none
  | c :: cs => (decimalDigit? c).bind fun digit => digitsValue digit cs

/-- The most digits that `int` reads. -/
def maxStrDigits : ℕ := 4300

/-- The code points Python strips off a string. -/
def isPySpace (c : Char) : Bool :=
  let n := c.toNat
  (9 ≤ n && n ≤ 13) || (28 ≤ n && n ≤ 32) || n == 0x85 || n == 0xa0 || n == 0x1680 ||
    (0x2000 ≤ n && n ≤ 0x200a) || n == 0x2028 || n == 0x2029 || n == 0x202f || n == 0x205f ||
    n == 0x3000

/-- The blanks that `int` skips: not the four separators. -/
def isIntSpace (c : Char) : Bool := isPySpace c && !(28 ≤ c.toNat && c.toNat ≤ 31)

/-- `int(text)`. -/
def intOfText (text : List Char) : Option ℤ :=
  let unsigned := fun digits : List Char =>
    if maxStrDigits < digits.countP isDecimal then none else unsignedValue digits
  match ((text.dropWhile isIntSpace).reverse.dropWhile isIntSpace).reverse with
  | '-' :: digits => (unsigned digits).map fun n => -(n : ℤ)
  | '+' :: digits => (unsigned digits).map Int.ofNat
  | digits => (unsigned digits).map Int.ofNat

theorem decimalDigit?_of_isDigit {c : Char} (h : c.isDigit = true) :
    decimalDigit? c = some (c.toNat - '0'.toNat) := by
  obtain ⟨hlow, hhigh⟩ : 48 ≤ c.toNat ∧ c.toNat ≤ 57 := by
    simpa [Char.isDigit, UInt32.le_iff_toNat_le] using h
  have hfind : decimalZeros.find? (fun z => z ≤ c.toNat && c.toNat < z + 10) = some 48 := by
    refine List.find?_cons_of_pos ?_
    simp only [Bool.and_eq_true, decide_eq_true_eq]
    omega
  rw [decimalDigit?, hfind]
  rfl

theorem digitsValue_of_isDigit {cs : List Char} (h : ∀ c ∈ cs, c.isDigit = true) (value : ℕ) :
    digitsValue value cs = some (Nat.ofDigitChars 10 cs value) := by
  induction cs generalizing value with
  | nil => rfl
  | cons c cs ih =>
    have hc := h c List.mem_cons_self
    have hunderscore : c ≠ '_' := by
      rintro rfl
      cases hc
    have hstep : digitsValue value (c :: cs) =
        (decimalDigit? c).bind fun digit => digitsValue (value * 10 + digit) cs := by
      rw [digitsValue.eq_3 _ _ _ fun _ _ heq => absurd heq hunderscore]
    rw [hstep, decimalDigit?_of_isDigit hc, Option.bind_some,
      ih fun c hc => h c (List.mem_cons_of_mem _ hc), Nat.ofDigitChars_cons, Nat.mul_comm]

theorem unsignedValue_toDigits (n : ℕ) : unsignedValue (Nat.toDigits 10 n) = some n := by
  have hdigits : ∀ c ∈ Nat.toDigits 10 n, c.isDigit = true :=
    fun c hc => Nat.isDigit_of_mem_toDigits (by decide) (by decide) hc
  obtain ⟨c, cs, hcs⟩ := List.exists_cons_of_length_pos
    (Nat.length_toDigits_pos : 0 < (Nat.toDigits 10 n).length)
  rw [hcs] at hdigits
  have hvalue : Nat.ofDigitChars 10 (c :: cs) 0 = n := by
    rw [← hcs, Nat.ofDigitChars_ten_toDigits]
  rw [Nat.ofDigitChars_cons, Nat.mul_zero, Nat.zero_add] at hvalue
  rw [hcs, unsignedValue, decimalDigit?_of_isDigit (hdigits c List.mem_cons_self), Option.bind_some,
    digitsValue_of_isDigit fun c hc => hdigits c (List.mem_cons_of_mem _ hc), hvalue]

theorem digitsValue_isSome {cs : List Char} (h : '_' ∉ cs) (value : ℕ) :
    (digitsValue value cs).isSome ↔ ∀ c ∈ cs, isDecimal c = true := by
  induction cs generalizing value with
  | nil => simp [digitsValue]
  | cons c cs ih =>
    have hunderscore : c ≠ '_' := by
      rintro rfl
      exact h List.mem_cons_self
    have hstep : digitsValue value (c :: cs) =
        (decimalDigit? c).bind fun digit => digitsValue (value * 10 + digit) cs := by
      rw [digitsValue.eq_3 _ _ _ fun _ _ heq => absurd heq hunderscore]
    have hrest : '_' ∉ cs := fun hc => h (List.mem_cons_of_mem _ hc)
    rw [hstep, List.forall_mem_cons, isDecimal]
    cases decimalDigit? c with
    | none => simp
    | some digit =>
      rw [Option.bind_some, ih hrest]
      simp

theorem unsignedValue_isSome {cs : List Char} (h : '_' ∉ cs) :
    (unsignedValue cs).isSome ↔ cs ≠ [] ∧ ∀ c ∈ cs, isDecimal c = true := by
  cases cs with
  | nil => simp [unsignedValue]
  | cons c cs =>
    have hrest : '_' ∉ cs := fun hc => h (List.mem_cons_of_mem _ hc)
    rw [unsignedValue, List.forall_mem_cons, isDecimal]
    cases decimalDigit? c with
    | none => simp
    | some digit =>
      rw [Option.bind_some, digitsValue_isSome hrest]
      simp

theorem unsignedValue_of_isDigitText {cs : List Char} (h : isDigitText cs = true) :
    (unsignedValue cs).isSome ↔ ∀ c ∈ cs, isDecimal c = true := by
  rw [isDigitText, Bool.and_eq_true, decide_eq_true_eq, List.all_eq_true] at h
  have hunderscore : '_' ∉ cs := by
    intro hmem
    have hfalse := h.2 '_' hmem
    revert hfalse
    decide
  rw [unsignedValue_isSome hunderscore, and_iff_right h.1]

end Manus
