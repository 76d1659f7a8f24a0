import Mathlib.Data.Nat.Notation
import Mathlib.Tactic.Common

/-! # Base64

Bytes in the letters of base64 and back. The decoder is the lenient one of Python: it
takes the letters of both alphabets and skips all other characters.
-/

namespace Manus

section Decoder

/-- The value of a character of either base64 alphabet. -/
def base64Value (c : Char) : Option ℕ :=
  if 'A' ≤ c ∧ c ≤ 'Z' then some (c.toNat - 65)
  else if 'a' ≤ c ∧ c ≤ 'z' then some (c.toNat - 71)
  else if '0' ≤ c ∧ c ≤ '9' then some (c.toNat + 4)
  else if c = '-' ∨ c = '+' then some 62
  else if c = '_' ∨ c = '/' then some 63
  else none

/-- Decode from a position in a group of four, after some padding and with the bits left over.
Characters outside the alphabet are skipped. -/
def decodeFrom (position pads left : ℕ) : List Char → Option (List UInt8)
  | [] => if position = 0 then some [] else none
  | c :: cs =>
    if c = '=' then
      if position < 2 then decodeFrom position pads left cs
      else if position + (pads + 1) ≥ 4 then some []
      else decodeFrom position (pads + 1) left cs
    else
      match base64Value c with
      | none => decodeFrom position pads left cs
      | some value =>
        match position with
        | 0 => decodeFrom 1 0 value cs
        | 1 => (decodeFrom 2 0 (value % 16) cs).map (.ofNat (left * 4 + value / 16) :: ·)
        | 2 => (decodeFrom 3 0 (value % 4) cs).map (.ofNat (left * 16 + value / 4) :: ·)
        | _ => (decodeFrom 0 0 0 cs).map (.ofNat (left * 64 + value) :: ·)

/-- `base64.urlsafe_b64decode(text)`, the text padded to a multiple of four. -/
def b64Decode (text : String) : Option (List UInt8) :=
  let chars := text.toList
  if chars.any fun c => 128 ≤ c.toNat then none
  else decodeFrom 0 0 0 (chars ++ List.replicate ((4 - chars.length % 4) % 4) '=')

end Decoder

section Encoder

def base64Char (n : ℕ) : Char :=
  if n < 26 then Char.ofNat (65 + n) else if n < 52 then Char.ofNat (71 + n)
  else if n < 62 then Char.ofNat (n - 4) else if n = 62 then '-' else '_'

/-- `base64.urlsafe_b64encode(raw)` without the padding. -/
def b64Chars : List UInt8 → List Char
  | [] => []
  | [a] => [base64Char (a.toNat / 4), base64Char (a.toNat % 4 * 16)]
  | [a, b] => [base64Char (a.toNat / 4), base64Char (a.toNat % 4 * 16 + b.toNat / 16),
      base64Char (b.toNat % 16 * 4)]
  | a :: b :: c :: rest =>
    base64Char (a.toNat / 4) :: base64Char (a.toNat % 4 * 16 + b.toNat / 16) ::
      base64Char (b.toNat % 16 * 4 + c.toNat / 64) :: base64Char (c.toNat % 64) :: b64Chars rest

def b64Encode (raw : List UInt8) : String := String.ofList (b64Chars raw)

end Encoder

section RoundTrip

variable {rest : List Char}

theorem base64Value_base64Char {n : ℕ} (h : n < 64) : base64Value (base64Char n) = some n := by
  have hall : ∀ n < 64, base64Value (base64Char n) = some n := by decide
  exact hall n h

theorem base64Char_ne_pad {n : ℕ} (h : n < 64) : base64Char n ≠ '=' := by
  have hall : ∀ n < 64, base64Char n ≠ '=' := by decide
  exact hall n h

theorem base64Char_ascii {n : ℕ} (h : n < 64) : (base64Char n).toNat < 128 := by
  have hall : ∀ n < 64, (base64Char n).toNat < 128 := by decide
  exact hall n h

theorem decodeFrom_letter {n : ℕ} (h : n < 64) (position pads left : ℕ) :
    decodeFrom position pads left (base64Char n :: rest) =
      match position with
      | 0 => decodeFrom 1 0 n rest
      | 1 => (decodeFrom 2 0 (n % 16) rest).map (.ofNat (left * 4 + n / 16) :: ·)
      | 2 => (decodeFrom 3 0 (n % 4) rest).map (.ofNat (left * 16 + n / 4) :: ·)
      | _ => (decodeFrom 0 0 0 rest).map (.ofNat (left * 64 + n) :: ·) := by
  rw [decodeFrom, if_neg (base64Char_ne_pad h), base64Value_base64Char h]

theorem decodeFrom_first {a : UInt8} {low : ℕ} (h : low < 16) :
    decodeFrom 0 0 0 (base64Char (a.toNat / 4) :: base64Char (a.toNat % 4 * 16 + low) :: rest) =
      (decodeFrom 2 0 low rest).map (a :: ·) := by
  have ha := a.toNat_lt
  have hbyte : UInt8.ofNat (a.toNat / 4 * 4 + (a.toNat % 4 * 16 + low) / 16) = a := by
    rw [show a.toNat / 4 * 4 + (a.toNat % 4 * 16 + low) / 16 = a.toNat by omega, UInt8.ofNat_toNat]
  have hlow : (a.toNat % 4 * 16 + low) % 16 = low := by omega
  rw [decodeFrom_letter (by omega)]
  change decodeFrom 1 0 _ _ = _
  rw [decodeFrom_letter (by omega)]
  change (decodeFrom 2 0 _ _).map _ = _
  rw [hbyte, hlow]

theorem decodeFrom_second {b : UInt8} {low : ℕ} (h : low < 4) :
    decodeFrom 2 0 (b.toNat / 16) (base64Char (b.toNat % 16 * 4 + low) :: rest) =
      (decodeFrom 3 0 low rest).map (b :: ·) := by
  have hb := b.toNat_lt
  have hbyte : UInt8.ofNat (b.toNat / 16 * 16 + (b.toNat % 16 * 4 + low) / 4) = b := by
    rw [show b.toNat / 16 * 16 + (b.toNat % 16 * 4 + low) / 4 = b.toNat by omega, UInt8.ofNat_toNat]
  have hlow : (b.toNat % 16 * 4 + low) % 4 = low := by omega
  rw [decodeFrom_letter (by omega)]
  change (decodeFrom 3 0 _ _).map _ = _
  rw [hbyte, hlow]

theorem decodeFrom_third {c : UInt8} :
    decodeFrom 3 0 (c.toNat / 64) (base64Char (c.toNat % 64) :: rest) =
      (decodeFrom 0 0 0 rest).map (c :: ·) := by
  have hc := c.toNat_lt
  have hbyte : UInt8.ofNat (c.toNat / 64 * 64 + c.toNat % 64) = c := by
    rw [show c.toNat / 64 * 64 + c.toNat % 64 = c.toNat by omega, UInt8.ofNat_toNat]
  rw [decodeFrom_letter (by omega)]
  change (decodeFrom 0 0 0 _).map _ = _
  rw [hbyte]

/-- The padding of a text of so many letters. -/
def padding (length : ℕ) : List Char := List.replicate ((4 - length % 4) % 4) '='

theorem padding_add_four (length : ℕ) : padding (length + 4) = padding length := by
  rw [padding, Nat.add_mod_right, padding]

/-- Padded letters are decoded to what they encode. -/
theorem decodeFrom_b64Chars (raw : List UInt8) :
    decodeFrom 0 0 0 (b64Chars raw ++ padding (b64Chars raw).length) = some raw := by
  induction raw using b64Chars.induct with
  | case1 => rfl
  | case2 a =>
    change decodeFrom 0 0 0 (base64Char (a.toNat / 4) :: base64Char (a.toNat % 4 * 16 + 0) :: _) = _
    rw [decodeFrom_first (by decide)]
    rfl
  | case3 a b =>
    have hb := b.toNat_lt
    change decodeFrom 0 0 0 (base64Char (a.toNat / 4) ::
      base64Char (a.toNat % 4 * 16 + b.toNat / 16) :: base64Char (b.toNat % 16 * 4 + 0) :: _) = _
    rw [decodeFrom_first (by omega), decodeFrom_second (by decide)]
    rfl
  | case4 a b c raw ih =>
    have hlength : (b64Chars (a :: b :: c :: raw)).length = (b64Chars raw).length + 4 := by
      simp [b64Chars]
    have hb := b.toNat_lt
    have hc := c.toNat_lt
    rw [hlength, padding_add_four, b64Chars, List.cons_append, List.cons_append, List.cons_append,
      List.cons_append, decodeFrom_first (by omega), decodeFrom_second (by omega),
      decodeFrom_third, ih]
    rfl

theorem b64Chars_letters (raw : List UInt8) : ∀ c ∈ b64Chars raw, ∃ n < 64, c = base64Char n := by
  induction raw using b64Chars.induct with
  | case1 => simp [b64Chars]
  | case2 a =>
    have ha := a.toNat_lt
    intro c hc
    simp only [b64Chars, List.mem_cons, List.not_mem_nil, or_false] at hc
    rcases hc with rfl | rfl
    · exact ⟨_, by omega, rfl⟩
    · exact ⟨_, by omega, rfl⟩
  | case3 a b =>
    have ha := a.toNat_lt
    have hb := b.toNat_lt
    intro c hc
    simp only [b64Chars, List.mem_cons, List.not_mem_nil, or_false] at hc
    rcases hc with rfl | rfl | rfl
    · exact ⟨_, by omega, rfl⟩
    · exact ⟨_, by omega, rfl⟩
    · exact ⟨_, by omega, rfl⟩
  | case4 a b c raw ih =>
    have ha := a.toNat_lt
    have hb := b.toNat_lt
    have hc := c.toNat_lt
    intro d hd
    simp only [b64Chars, List.mem_cons] at hd
    rcases hd with rfl | rfl | rfl | rfl | hd
    · exact ⟨_, by omega, rfl⟩
    · exact ⟨_, by omega, rfl⟩
    · exact ⟨_, by omega, rfl⟩
    · exact ⟨_, by omega, rfl⟩
    · exact ih d hd

theorem b64Decode_b64Encode (raw : List UInt8) : b64Decode (b64Encode raw) = some raw := by
  have hascii : (b64Chars raw).any (fun c => decide (128 ≤ c.toNat)) = false := by
    rw [List.any_eq_false]
    intro c hc
    obtain ⟨n, hn, rfl⟩ := b64Chars_letters raw c hc
    have hlt := base64Char_ascii hn
    simpa using hlt
  unfold b64Decode b64Encode
  simp only [String.toList_ofList]
  rw [if_neg (by simp [hascii])]
  exact decodeFrom_b64Chars raw

end RoundTrip

end Manus
