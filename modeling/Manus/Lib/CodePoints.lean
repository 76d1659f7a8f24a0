import Mathlib.Data.Nat.Notation
import Mathlib.Tactic.Common

/-! # Texts of code points

A text may hold surrogates on their own. Without them it is a list of characters, which can
be written in UTF-8, and what is written is read back.
-/

namespace Manus

/-- A character, or a surrogate on its own. -/
inductive CodePoint where
  | char (c : Char)
  | surrogate (offset : Fin 2048)
  deriving DecidableEq

variable {text : List CodePoint} {cs cs' : List Char}

/-- The code points of characters. -/
def ofChars (cs : List Char) : List CodePoint := cs.map .char

/-- The characters of a text without surrogates. -/
def chars? : List CodePoint → Option (List Char)
  | [] => some []
  | .char c :: rest => (chars? rest).map (c :: ·)
  | .surrogate _ :: _ => none

theorem chars?_ofChars (cs : List Char) : chars? (ofChars cs) = some cs := by
  induction cs with
  | nil => rfl
  | cons c cs ih => exact congrArg (Option.map (c :: ·)) ih

theorem chars?_eq_some : chars? text = some cs ↔ text = ofChars cs := by
  constructor
  · intro h
    induction text generalizing cs with
    | nil => cases h; rfl
    | cons point text ih =>
      cases point with
      | surrogate offset => cases h
      | char c =>
        rw [chars?, Option.map_eq_some_iff] at h
        obtain ⟨cs', hcs', rfl⟩ := h
        rw [ih hcs']
        rfl
  · rintro rfl
    exact chars?_ofChars cs

theorem ofChars_injective : Function.Injective ofChars := by
  intro cs cs' h
  have hsome := chars?_ofChars cs
  rw [h, chars?_ofChars, Option.some_inj] at hsome
  exact hsome.symm

section Utf8

def utf8Encode (cs : List Char) : List UInt8 := cs.flatMap String.utf8EncodeChar

def utf8Decode (bytes : List UInt8) : Option (List Char) :=
  bytes.toByteArray.utf8Decode?.map Array.toList

theorem utf8Decode_utf8Encode (cs : List Char) : utf8Decode (utf8Encode cs) = some cs := by
  have hbytes : (utf8Encode cs).toByteArray.utf8Decode? = some cs.toArray :=
    List.utf8Decode?_utf8Encode
  rw [utf8Decode, hbytes]
  rfl

theorem utf8Encode_injective : Function.Injective utf8Encode := by
  intro cs cs' h
  have hsome := utf8Decode_utf8Encode cs
  rw [h, utf8Decode_utf8Encode, Option.some_inj] at hsome
  exact hsome.symm

end Utf8

end Manus
