import Manus.Lib.Digits
import Mathlib.Data.List.TakeWhile
import Mathlib.Data.Rat.Floor
import Mathlib.Tactic.NormNum
import Mathlib.Tactic.Linarith

/-! # Floats of double precision

A float is not a number, an infinity or a rational below `2 ^ 1024`. Sums and
products are rounded to the nearest float, the one with the even significand when
two are equally near, and what would lie beyond the largest float is an infinity.
-/

namespace Manus

/-- A float. The two zeros are one: nothing below tells them apart. -/
inductive Double where
  | nan
  | inf (negative : Bool)
  | finite (value : ℚ) (bounded : |value| < 2 ^ 1024)
  deriving DecidableEq

section Rounding

/-- `base ^ k`. -/
def power (base : ℕ) (k : ℤ) : ℚ :=
  if 0 ≤ k then mkRat (base ^ k.toNat) 1 else mkRat 1 (base ^ (-k).toNat)

/-- The nearest integer, the even one of two. -/
def roundHalfEven (q : ℚ) : ℤ :=
  let below := q.floor
  if q - below < 1 / 2 ∨ q - below = 1 / 2 ∧ below % 2 = 0 then below else below + 1

/-- The exponent of the first binary digit. -/
def leadingBit (q : ℚ) : ℤ :=
  let k : ℤ := (Nat.log2 q.num.natAbs : ℤ) - Nat.log2 q.den
  if power 2 k ≤ |q| then k else k - 1

/-- The integer next to zero. -/
def truncate (q : ℚ) : ℤ := if 0 ≤ q then q.floor else q.ceil

namespace Double

/-- The nearest float: 53 binary digits, the last one not below `2 ^ -1074`. -/
def round (q : ℚ) : Double :=
  let unit := power 2 (max (leadingBit q - 52) (-1074))
  let value := roundHalfEven (q / unit) * unit
  if h : |value| < 2 ^ 1024 then .finite value h else .inf (value < 0)

end Double

end Rounding

namespace Double

section Arithmetic

def isFinite : Double → Bool
  | finite _ _ => true
  | _ => false

def neg : Double → Double
  | nan => nan
  | inf negative => inf !negative
  | finite value bounded => finite (-value) (by rwa [abs_neg])

def add : Double → Double → Double
  | nan, _ | _, nan => nan
  | inf s, inf t => if s = t then inf s else nan
  | inf s, finite _ _ => inf s
  | finite _ _, inf t => inf t
  | finite a _, finite b _ => round (a + b)

def sub (x y : Double) : Double := x.add y.neg

def mul : Double → Double → Double
  | nan, _ | _, nan => nan
  | inf s, inf t => inf (s != t)
  | inf s, finite v _ | finite v _, inf s => if v = 0 then nan else inf (s != decide (v < 0))
  | finite a _, finite b _ => round (a * b)

/-- `math.fmod`; `none` where it raises. The exact rest of two floats is a float. -/
def fmod : Double → Double → Option Double
  | nan, _ | _, nan => some nan
  | inf _, _ => none
  | finite a h, inf _ => some (finite a h)
  | finite a _, finite b _ => if b = 0 then none else some (round (a - truncate (a / b) * b))

def isZero : Double → Bool
  | finite v _ => v = 0
  | _ => false

/-- `x == y`. -/
def pyEq : Double → Double → Bool
  | finite a _, finite b _ => a = b
  | inf s, inf t => s = t
  | _, _ => false

/-- `x < y`. -/
def lt : Double → Double → Bool
  | finite a _, finite b _ => a < b
  | inf s, inf t => s && !t
  | inf s, finite _ _ => s
  | finite _ _, inf t => !t
  | _, _ => false

/-- `x <= y`. -/
def le (x y : Double) : Bool := x.lt y || x.pyEq y

/-- The integer that a float without fraction is. -/
def whole? : Double → Option ℤ
  | finite v _ => if v.den = 1 then some v.num else none
  | _ => none

theorem whole?_lt {x : Double} {n : ℤ} (h : x.whole? = some n) : n.natAbs < 2 ^ 1024 := by
  cases x with
  | nan => cases h
  | inf negative => cases h
  | finite v bounded =>
    simp only [whole?] at h
    split at h
    · rename_i hden
      cases h
      have hv : v = (v.num : ℚ) := ((Rat.den_eq_one_iff v).mp hden).symm
      rw [hv, ← Int.cast_abs, ← Nat.cast_natAbs] at bounded
      exact_mod_cast bounded
    · cases h

end Arithmetic

section Reading

/-- A decimal digit of any script in ASCII. -/
def plainDigit (c : Char) : Char :=
  match decimalDigit? c with
  | some digit => Char.ofNat ('0'.toNat + digit)
  | none => c

/-- Leave out the underscores, each of which stands between two digits. -/
def dropUnderscores (afterDigit : Bool) : List Char → Option (List Char)
  | [] => some []
  | ['_'] => none
  | '_' :: c :: text =>
    if afterDigit && c.isDigit then (dropUnderscores true text).map (c :: ·) else none
  | c :: text => (dropUnderscores c.isDigit text).map (c :: ·)

/-- Take a sign off. -/
def cutSign : List Char → Bool × List Char
  | '-' :: text => (true, text)
  | '+' :: text => (false, text)
  | text => (false, text)

/-- The exponent at the end of a number. -/
def exponent? : List Char → Option ℤ
  | [] => some 0
  | c :: text =>
    let (negative, digits) := cutSign text
    if (c = 'e' ∨ c = 'E') ∧ digits ≠ [] ∧ digits.all Char.isDigit then
      let n : ℤ := Nat.ofDigitChars 10 digits 0
      some (if negative then -n else n)
    else none

/-- The value of a decimal number without sign. -/
def decimal? (text : List Char) : Option ℚ :=
  let whole := text.takeWhile Char.isDigit
  let (fraction, rest) :=
    match text.dropWhile Char.isDigit with
    | '.' :: rest => (rest.takeWhile Char.isDigit, rest.dropWhile Char.isDigit)
    | rest => ([], rest)
  if whole = [] ∧ fraction = [] then none
  else (exponent? rest).map fun e =>
    Nat.ofDigitChars 10 (whole ++ fraction) 0 * power 10 (e - fraction.length)

def ofPlain? (text : List Char) : Option Double :=
  let (negative, number) := cutSign text
  let word := String.ofList (number.map Char.toLower)
  if word = "inf" ∨ word = "infinity" then some (inf negative)
  else if word = "nan" then some nan
  else (decimal? number).map fun q => if negative then round (-q) else round q

/-- `float(text)` for a text without white space at its ends. -/
def ofText? (text : List Char) : Option Double :=
  (dropUnderscores false (text.map plainDigit)).bind ofPlain?

end Reading

section Characters

/-- A character that stands in no number: no digit of any script, no sign, no point, no underscore
and no letter of the words for special values. -/
structure NotNumeric (c : Char) : Prop where
  plain : plainDigit c = c
  digit : c.isDigit = false
  other : c ∉ ['_', '-', '+', '.', 'e', 'E']
  word : c.toLower ∉ "infinity".toList ∧ c.toLower ∉ "nan".toList

variable {c : Char} {text rest : List Char}

theorem mem_cutSign (hc : NotNumeric c) (h : c ∈ text) : c ∈ (cutSign text).2 := by
  have hother := hc.other
  simp only [List.mem_cons, not_or] at hother
  unfold cutSign
  split
  · rcases List.mem_cons.mp h with rfl | h
    · exact absurd rfl hother.2.1
    · exact h
  · rcases List.mem_cons.mp h with rfl | h
    · exact absurd rfl hother.2.2.1
    · exact h
  · exact h

theorem mem_dropWhile_digit (hc : NotNumeric c) (h : c ∈ text) :
    c ∈ text.dropWhile Char.isDigit := by
  rw [← List.takeWhile_append_dropWhile (p := Char.isDigit) (l := text)] at h
  rcases List.mem_append.mp h with h | h
  · have hdigit := List.mem_takeWhile_imp h
    rw [hc.digit] at hdigit
    cases hdigit
  · exact h

theorem exponent?_eq_none (hc : NotNumeric c) (h : c ∈ text) : exponent? text = none := by
  have hother := hc.other
  simp only [List.mem_cons, not_or] at hother
  cases text with
  | nil => cases h
  | cons d text =>
    rw [exponent?]
    apply if_neg
    rintro ⟨hd, -, hdigits⟩
    rcases List.mem_cons.mp h with rfl | h
    · rcases hd with rfl | rfl
      · exact hother.2.2.2.2.1 rfl
      · exact hother.2.2.2.2.2.1 rfl
    · have hdigit := List.all_eq_true.mp hdigits c (mem_cutSign hc h)
      rw [hc.digit] at hdigit
      cases hdigit

theorem decimal?_eq_none (hc : NotNumeric c) (h : c ∈ text) : decimal? text = none := by
  have hrest : c ∈ text.dropWhile Char.isDigit := mem_dropWhile_digit hc h
  unfold decimal?
  split
  · next heq =>
    split at heq
    · next after hpoint =>
      cases heq
      rw [hpoint] at hrest
      have hexponent : c ∈ after.dropWhile Char.isDigit := by
        apply mem_dropWhile_digit hc
        rcases List.mem_cons.mp hrest with rfl | hmem
        · exact absurd hc.other (by decide)
        · exact hmem
      rw [exponent?_eq_none hc hexponent]
      dsimp only
      split <;> rfl
    · cases heq
      rw [exponent?_eq_none hc hrest]
      dsimp only
      split <;> rfl

theorem ofPlain?_eq_none (hc : NotNumeric c) (h : c ∈ text) : ofPlain? text = none := by
  have hmem := mem_cutSign hc h
  have hlower : c.toLower ∈ (cutSign text).2.map Char.toLower := List.mem_map_of_mem hmem
  unfold ofPlain?
  dsimp only
  rw [decimal?_eq_none hc hmem]
  split
  · next hword =>
    exfalso
    rcases hword with hword | hword
    · rw [← String.toList_ofList (l := (cutSign text).2.map Char.toLower), hword] at hlower
      have hbegins : "inf".toList ⊆ "infinity".toList := by decide
      exact hc.word.1 (hbegins hlower)
    · rw [← String.toList_ofList (l := (cutSign text).2.map Char.toLower), hword] at hlower
      exact hc.word.1 hlower
  · split
    · next hword =>
      exfalso
      rw [← String.toList_ofList (l := (cutSign text).2.map Char.toLower), hword] at hlower
      exact hc.word.2 hlower
    · rfl

theorem mem_dropUnderscores (hc : NotNumeric c) {afterDigit : Bool}
    (hrest : dropUnderscores afterDigit text = some rest) (h : c ∈ text) : c ∈ rest := by
  have hother := hc.other
  simp only [List.mem_cons, not_or] at hother
  fun_induction dropUnderscores afterDigit text generalizing rest with
  | case1 => cases h
  | case2 => cases hrest
  | case3 afterDigit d text hdigit ih =>
    obtain ⟨tail, htail, rfl⟩ := Option.map_eq_some_iff.mp hrest
    rcases List.mem_cons.mp h with rfl | h
    · exact absurd rfl hother.1
    · rcases List.mem_cons.mp h with rfl | h
      · exact List.mem_cons_self
      · exact List.mem_cons_of_mem _ (ih htail h)
  | case4 => cases hrest
  | case5 afterDigit d text hplain hpair ih =>
    obtain ⟨tail, htail, rfl⟩ := Option.map_eq_some_iff.mp hrest
    rcases List.mem_cons.mp h with rfl | h
    · exact List.mem_cons_self
    · exact List.mem_cons_of_mem _ (ih htail h)

theorem not_mem_of_ofText? (hc : NotNumeric c) {x : Double} (h : ofText? text = some x) :
    c ∉ text := by
  intro hmem
  obtain ⟨plain, hplain, hread⟩ := Option.bind_eq_some_iff.mp h
  have hmapped : c ∈ text.map plainDigit := by
    rw [← hc.plain]
    exact List.mem_map_of_mem hmem
  rw [ofPlain?_eq_none hc (mem_dropUnderscores hc hplain hmapped)] at hread
  cases hread

end Characters

section Writing

/-- The exponent `k` with `10 ^ (k - 1) ≤ q < 10 ^ k`, for a positive float. -/
def decimalPoint (q : ℚ) : ℤ :=
  (((List.range 640).map fun i => (i : ℤ) - 325).find? fun k => q < power 10 k).getD 0

/-- The integers next to a number, the nearer one first. -/
def neighbours (q : ℚ) : List ℤ :=
  let nearest := roundHalfEven q
  if nearest = q.floor then [nearest, nearest + 1] else [nearest, nearest - 1]

/-- The shortest decimal that is read as the given positive float, as an integer and the power of
ten to scale it by. -/
def shortest (q : ℚ) : ℤ × ℤ :=
  let point := decimalPoint q
  ((List.range 17).findSome? fun n =>
    let scale : ℤ := point - (n : ℕ) - 1
    ((neighbours (q / power 10 scale)).find? fun digits : ℤ =>
      round (digits * power 10 scale) == round q).map fun digits => (digits, scale)).getD (0, 0)

/-- Digits with the decimal point after the first `point` of them, as `repr` sets it. -/
def setPoint (digits : List Char) (point : ℤ) : List Char :=
  if -4 < point ∧ point ≤ 0 then "0.".toList ++ List.replicate (-point).toNat '0' ++ digits
  else if 0 < point ∧ point < digits.length then
    digits.take point.toNat ++ '.' :: digits.drop point.toNat
  else if 0 < point ∧ point ≤ 16 then
    digits ++ List.replicate (point.toNat - digits.length) '0' ++ ".0".toList
  else
    let exponent := Nat.toDigits 10 (point - 1).natAbs
    let fraction := if digits.length = 1 then [] else '.' :: digits.drop 1
    digits.take 1 ++ fraction ++ ['e', if point ≤ 0 then '-' else '+'] ++
      List.replicate (2 - exponent.length) '0' ++ exponent

def reprPositive (q : ℚ) : List Char :=
  let (digits, scale) := shortest q
  let written := Nat.toDigits 10 digits.natAbs
  let significant := (written.reverse.dropWhile (· == '0')).reverse
  setPoint significant (written.length + scale)

/-- `repr(x)`. -/
def repr : Double → String
  | nan => "nan"
  | inf negative => if negative then "-inf" else "inf"
  | finite v _ =>
    if v = 0 then "0.0"
    else if v < 0 then String.ofList ('-' :: reprPositive (-v))
    else String.ofList (reprPositive v)

end Writing

end Double

end Manus
