import Manus.Lib.Digits
import Manus.Lib.JsonNumber
import Mathlib.Data.List.TakeWhile

/-! # Reading JSON

A reader of JSON text, with blanks between the tokens and every escape in strings. It reads back
what is written, if it reads back the numbers.
-/

namespace Manus

/-- What stands behind a written value: the end, a comma or a closing bracket. -/
def JsonValue.Closed (rest : List Char) : Prop := ∀ c ∈ rest.head?, c ∈ [',', ']', '\x7d']

/-- A way to read numbers, which reads those that are readable as they are written. -/
structure NumberReader {ν : Type} (T : NumberText ν) where
  scan : List Char → Option (ν × List Char)
  readable : ν → Bool
  scan_text : ∀ {n rest}, readable n = true → JsonValue.Closed rest →
    scan (T.text n ++ rest) = some (n, rest)

section Strings

def hexDigit? (c : Char) : Option ℕ :=
  if '0' ≤ c ∧ c ≤ '9' then some (c.toNat - 48)
  else if 'a' ≤ c ∧ c ≤ 'f' then some (c.toNat - 87)
  else if 'A' ≤ c ∧ c ≤ 'F' then some (c.toNat - 55)
  else none

def hex4? (a b c d : Char) : Option ℕ := do
  return (← hexDigit? a) * 4096 + (← hexDigit? b) * 256 + (← hexDigit? c) * 16 + (← hexDigit? d)

/-- The second half of a character outside the basic plane. -/
def readLow (high : ℕ) : List Char → Option (Char × List Char)
  | '\\' :: 'u' :: a :: b :: c :: d :: rest =>
    (hex4? a b c d).bind fun low =>
      if 56320 ≤ low ∧ low < 57344 then
        some (Char.ofNat (65536 + (high - 55296) * 1024 + (low - 56320)), rest)
      else none
  | _ => none

/-- A character after a backslash. A surrogate on its own is no character. -/
def readEscape : List Char → Option (Char × List Char)
  | 'u' :: a :: b :: c :: d :: rest =>
    (hex4? a b c d).bind fun n =>
      if n < 55296 ∨ 57344 ≤ n then some (Char.ofNat n, rest)
      else if n < 56320 then readLow n rest
      else none
  | letter :: rest =>
    ((('/', '/') :: shortEscapes).find? fun escape => escape.2 == letter).map fun escape =>
      (escape.1, rest)
  | [] => none

/-- The rest of a string, up to its closing quote, and the text behind it. -/
def readStringRest : ℕ → List Char → Option (List Char × List Char)
  | fuel + 1, c :: rest =>
    if c = '"' then some ([], rest)
    else do
      let (d, rest) ← if c = '\\' then readEscape rest
        else if c.toNat < 32 then none else some (c, rest)
      let (cs, rest) ← readStringRest fuel rest
      some (d :: cs, rest)
  | _, _ => none

variable {rest : List Char}

theorem hexDigit?_hexDigit {n : ℕ} (h : n < 16) : hexDigit? (hexDigit n) = some n := by
  have hall : ∀ n < 16, hexDigit? (hexDigit n) = some n := by decide
  exact hall n h

theorem hex4?_digits {n : ℕ} (h : n < 65536) :
    hex4? (hexDigit (n / 4096 % 16)) (hexDigit (n / 256 % 16)) (hexDigit (n / 16 % 16))
      (hexDigit (n % 16)) = some n := by
  have hlt : ∀ m, m % 16 < 16 := fun m => Nat.mod_lt m (by decide)
  simp only [hex4?, hexDigit?_hexDigit (hlt _), Option.bind_eq_bind, Option.bind_some,
    Option.pure_def, Option.some.injEq]
  omega

theorem readEscape_unicode {n : ℕ} (h : n < 55296 ∨ 57344 ≤ n ∧ n < 65536) :
    readEscape ('u' :: (hex4 n ++ rest)) = some (Char.ofNat n, rest) := by
  have hvalue := hex4?_digits (n := n) (by omega)
  simp only [hex4, List.cons_append, List.nil_append, readEscape, hvalue, Option.bind_some]
  rw [if_pos (by omega)]

theorem readEscape_surrogates {n : ℕ} (h : n < 1048576) :
    readEscape ('u' :: (hex4 (55296 + n / 1024) ++ (unicodeEscape (56320 + n % 1024) ++ rest))) =
      some (Char.ofNat (65536 + n), rest) := by
  have hhigh := hex4?_digits (n := 55296 + n / 1024) (by omega)
  have hlow := hex4?_digits (n := 56320 + n % 1024) (by omega)
  have hsum : 65536 + (55296 + n / 1024 - 55296) * 1024 + (56320 + n % 1024 - 56320) =
      65536 + n := by
    omega
  simp only [hex4, unicodeEscape, List.cons_append, List.nil_append, readEscape, readLow, hhigh,
    hlow, Option.bind_some]
  rw [if_neg (by omega), if_pos (by omega), if_pos (by omega), hsum]

/-- A written character is the character itself, or a backslash and what it is read back from. -/
theorem escapeJsonChar_cases (c : Char) :
    (escapeJsonChar c = [c] ∧ c ≠ '"' ∧ c ≠ '\\' ∧ ¬ c.toNat < 32) ∨
      ∃ cs, escapeJsonChar c = '\\' :: cs ∧ ∀ rest, readEscape (cs ++ rest) = some (c, rest) := by
  unfold escapeJsonChar
  split
  case h_1 letter hletter =>
    obtain ⟨before, after, hsplit, -⟩ := List.lookup_eq_some_iff.mp hletter
    have hmem : (c, letter) ∈ shortEscapes := by simp [hsplit]
    simp only [shortEscapes, List.mem_cons, Prod.mk.injEq, List.not_mem_nil, or_false] at hmem
    right
    refine ⟨_, rfl, fun rest => ?_⟩
    rcases hmem with ⟨rfl, rfl⟩ | ⟨rfl, rfl⟩ | ⟨rfl, rfl⟩ | ⟨rfl, rfl⟩ | ⟨rfl, rfl⟩ |
      ⟨rfl, rfl⟩ | ⟨rfl, rfl⟩ <;> rfl
  case h_2 hnone =>
    have hvalid : c.toNat < 55296 ∨ 57343 < c.toNat ∧ c.toNat < 1114112 := c.valid
    split
    case isTrue hplain =>
      left
      refine ⟨rfl, ?_, ?_, by omega⟩
      · rintro rfl
        exact absurd hnone (by decide)
      · rintro rfl
        exact absurd hnone (by decide)
    case isFalse hplain =>
      right
      split
      case isTrue hsmall =>
        refine ⟨_, rfl, fun rest => ?_⟩
        rw [List.cons_append, readEscape_unicode (by omega), Char.ofNat_toNat]
      case isFalse hlarge =>
        refine ⟨'u' :: (hex4 (55296 + (c.toNat - 65536) / 1024) ++
          unicodeEscape (56320 + (c.toNat - 65536) % 1024)), rfl, fun rest => ?_⟩
        rw [List.cons_append, List.append_assoc, readEscape_surrogates (by omega),
          Nat.add_sub_cancel' (by omega), Char.ofNat_toNat]

theorem escapeJsonChar_length (c : Char) : 0 < (escapeJsonChar c).length := by
  rcases escapeJsonChar_cases c with ⟨h, -⟩ | ⟨cs, h, -⟩ <;> simp [h]

theorem readStringRest_write {cs : List Char} {fuel : ℕ} (h : (stringRest cs).length ≤ fuel)
    (rest : List Char) : readStringRest fuel (stringRest cs ++ rest) = some (cs, rest) := by
  induction cs generalizing fuel with
  | nil =>
    obtain ⟨fuel, rfl⟩ : ∃ n, fuel = n + 1 := ⟨fuel - 1, by simp [stringRest] at h; omega⟩
    rfl
  | cons c cs ih =>
    have hpos := escapeJsonChar_length c
    rw [stringRest, List.length_append] at h
    obtain ⟨fuel, rfl⟩ : ∃ n, fuel = n + 1 := ⟨fuel - 1, by omega⟩
    rw [stringRest, List.append_assoc]
    rcases escapeJsonChar_cases c with ⟨hplain, hquote, hslash, hcontrol⟩ | ⟨escape, hescape, hread⟩
    · rw [hplain, List.singleton_append, readStringRest, if_neg hquote, if_neg hslash,
        if_neg hcontrol]
      change (readStringRest fuel _).bind _ = _
      rw [ih (by omega)]
      rfl
    · rw [hescape, List.cons_append, readStringRest, if_neg (by decide), if_pos rfl, hread]
      change (readStringRest fuel _).bind _ = _
      rw [ih (by omega)]
      rfl

end Strings

namespace JsonValue

variable {ν : Type} {T : NumberText ν} (R : NumberReader T)

section Reader

def isBlank (c : Char) : Bool := c ∈ [' ', '\t', '\n', '\r']

def skipBlanks (text : List Char) : List Char := text.dropWhile isBlank

/-- One of the three names. -/
def readName : List Char → Option (JsonValue ν × List Char)
  | 'n' :: 'u' :: 'l' :: 'l' :: rest => some (null, rest)
  | 't' :: 'r' :: 'u' :: 'e' :: rest => some (bool true, rest)
  | 'f' :: 'a' :: 'l' :: 's' :: 'e' :: rest => some (bool false, rest)
  | _ => none

mutual

/-- The value at the beginning of a text, and the text behind it. -/
def readValue : ℕ → List Char → Option (JsonValue ν × List Char)
  | fuel + 1, c :: rest =>
    if c = '"' then (readStringRest fuel rest).map fun (cs, rest) => (str (String.ofList cs), rest)
    else if c = '[' then
      if (skipBlanks rest).head? = some ']' then some (arr [], (skipBlanks rest).tail)
      else do
        let (v, rest) ← readValue fuel (skipBlanks rest)
        let (vs, rest) ← readItems fuel (skipBlanks rest)
        some (arr (v :: vs), rest)
    else if c = '{' then
      if (skipBlanks rest).head? = some '}' then some (obj [], (skipBlanks rest).tail)
      else do
        let (field, rest) ← readField fuel (skipBlanks rest)
        let (fields, rest) ← readFields fuel (skipBlanks rest)
        some (obj (field :: fields), rest)
    else (readName (c :: rest)).or ((R.scan (c :: rest)).map fun (n, rest) => (num n, rest))
  | _, _ => none

/-- The items after the first one, up to the closing bracket. -/
def readItems : ℕ → List Char → Option (List (JsonValue ν) × List Char)
  | fuel + 1, c :: rest =>
    if c = ']' then some ([], rest)
    else if c = ',' then do
      let (v, rest) ← readValue fuel (skipBlanks rest)
      let (vs, rest) ← readItems fuel (skipBlanks rest)
      some (v :: vs, rest)
    else none
  | _, _ => none

/-- A key, a colon and a value. -/
def readField : ℕ → List Char → Option ((String × JsonValue ν) × List Char)
  | fuel + 1, '"' :: rest => do
    let (key, rest) ← readStringRest fuel rest
    match skipBlanks rest with
    | ':' :: rest => do
      let (v, rest) ← readValue fuel (skipBlanks rest)
      some ((String.ofList key, v), rest)
    | _ => none
  | _, _ => none

def readFields : ℕ → List Char → Option (List (String × JsonValue ν) × List Char)
  | fuel + 1, c :: rest =>
    if c = '}' then some ([], rest)
    else if c = ',' then do
      let (field, rest) ← readField fuel (skipBlanks rest)
      let (fields, rest) ← readFields fuel (skipBlanks rest)
      some (field :: fields, rest)
    else none
  | _, _ => none

end

/-- `json.loads(text)`. A key that an object has more than once stays there as often. -/
def loads (text : List Char) : Option (JsonValue ν) :=
  match readValue R (text.length + 1) (skipBlanks text) with
  | some (v, rest) => if skipBlanks rest = [] then some v else none
  | none => none

end Reader

section ReadBack

mutual

/-- The numbers of a value are all readable. -/
def allReadable : JsonValue ν → Bool
  | null | bool _ | str _ => true
  | num n => R.readable n
  | arr items => allReadableItems items
  | obj fields => allReadableFields fields

def allReadableItems : List (JsonValue ν) → Bool
  | [] => true
  | v :: vs => allReadable v && allReadableItems vs

def allReadableFields : List (String × JsonValue ν) → Bool
  | [] => true
  | (_, v) :: fields => allReadable v && allReadableFields fields

end

variable {R} {blank rest : List Char}

theorem skipBlanks_of_head {c : Char} {cs : List Char} (h : isBlank c = false) :
    skipBlanks (c :: cs) = c :: cs :=
  List.dropWhile_cons_of_neg (by simp [h])

theorem skipBlanks_append (hblank : ∀ c ∈ blank, isBlank c = true) {c : Char} {cs : List Char}
    (h : isBlank c = false) : skipBlanks (blank ++ c :: cs) = c :: cs := by
  rw [skipBlanks, List.dropWhile_append_of_pos hblank]
  exact skipBlanks_of_head h

theorem write_begins (v : JsonValue ν) : ∃ c cs, v.write T blank = c :: cs ∧ isBlank c = false ∧
    c ≠ ']' ∧ c ≠ '\x7d' := by
  match v with
  | null | bool true | bool false | str _ | arr [] | arr (_ :: _) | obj [] | obj (_ :: _) =>
    exact ⟨_, _, rfl, by decide, by decide, by decide⟩
  | num n =>
    obtain ⟨c, cs, hn⟩ := List.exists_cons_of_ne_nil (T.ne_nil n)
    have hc := T.chars n c (by simp [hn])
    have hother : ∀ c ∈ [' ', '\t', '\n', '\r', ']', '\x7d'], isNumberChar c = false :=
      List.all_iff_forall_prop.mp (by decide)
    have hnot : c ∉ [' ', '\t', '\n', '\r', ']', '\x7d'] := by
      intro hmem
      rw [hother c hmem] at hc
      cases hc
    simp only [List.mem_cons, List.not_mem_nil, or_false, not_or] at hnot
    refine ⟨c, cs, hn, ?_, hnot.2.2.2.2.1, hnot.2.2.2.2.2⟩
    simp [isBlank, hnot]

theorem skipBlanks_write (hblank : ∀ c ∈ blank, isBlank c = true) (v : JsonValue ν) :
    skipBlanks (blank ++ (v.write T blank ++ rest)) = v.write T blank ++ rest := by
  obtain ⟨c, cs, hv, hc, -⟩ := @write_begins ν T blank v
  rw [hv]
  exact skipBlanks_append hblank hc

theorem skipBlanks_writeItems (vs : List (JsonValue ν)) :
    skipBlanks (writeItems T blank vs ++ rest) = writeItems T blank vs ++ rest := by
  cases vs <;> exact skipBlanks_of_head (by decide)

theorem skipBlanks_writeFields (fields : List (String × JsonValue ν)) :
    skipBlanks (writeFields T blank fields ++ rest) = writeFields T blank fields ++ rest := by
  rcases fields with _ | ⟨⟨k, v⟩, fields⟩ <;> exact skipBlanks_of_head (by decide)

theorem closed_writeItems (vs : List (JsonValue ν)) (rest : List Char) :
    Closed (writeItems T blank vs ++ rest) := by
  intro c hc
  cases vs <;> cases hc <;> decide

theorem closed_writeFields (fields : List (String × JsonValue ν)) (rest : List Char) :
    Closed (writeFields T blank fields ++ rest) := by
  intro c hc
  rcases fields with _ | ⟨⟨k, v⟩, fields⟩ <;> cases hc <;> decide

/-- A value is read back, given fuel for all its characters. -/
def ReadsBack (R : NumberReader T) (blank : List Char) (v : JsonValue ν) : Prop :=
  ∀ fuel rest, (v.write T blank).length < fuel → Closed rest →
    readValue R fuel (v.write T blank ++ rest) = some (v, rest)

theorem readItems_write (hblank : ∀ c ∈ blank, isBlank c = true) {vs : List (JsonValue ν)}
    (hvs : ∀ v ∈ vs, ReadsBack R blank v) {fuel : ℕ} (h : (writeItems T blank vs).length < fuel) :
    readItems R fuel (writeItems T blank vs ++ rest) = some (vs, rest) := by
  obtain ⟨fuel, rfl⟩ : ∃ n, fuel = n + 1 := ⟨fuel - 1, by omega⟩
  induction vs generalizing fuel with
  | nil => rfl
  | cons v vs ih =>
    simp only [writeItems, List.length_cons, List.length_append] at h
    have hv := hvs v List.mem_cons_self fuel (writeItems T blank vs ++ rest) (by omega)
      (closed_writeItems vs rest)
    obtain ⟨fuel, rfl⟩ : ∃ n, fuel = n + 1 := ⟨fuel - 1, by omega⟩
    have hrest := ih (fun w hw => hvs w (List.mem_cons_of_mem _ hw)) fuel (by omega)
    simp only [writeItems, List.cons_append, List.append_assoc, readItems]
    rw [if_neg (by decide), if_pos trivial, skipBlanks_write hblank, hv]
    simp only [Option.bind_eq_bind, Option.bind_some]
    rw [skipBlanks_writeItems, hrest]
    rfl

theorem readField_write (hblank : ∀ c ∈ blank, isBlank c = true) {k : String} {v : JsonValue ν}
    (hv : ReadsBack R blank v) {fuel : ℕ}
    (h : (stringText k).length + (v.write T blank).length < fuel) (hrest : Closed rest) :
    readField R fuel (stringText k ++ ':' :: (blank ++ (v.write T blank ++ rest))) =
      some ((k, v), rest) := by
  obtain ⟨fuel, rfl⟩ : ∃ n, fuel = n + 1 := ⟨fuel - 1, by omega⟩
  rw [stringText, List.length_cons] at h
  have hkey : readStringRest fuel (stringRest k.toList ++ ':' :: (blank ++
      (v.write T blank ++ rest))) = some (k.toList, ':' :: (blank ++ (v.write T blank ++ rest))) :=
    readStringRest_write (by omega) _
  have hcolon : skipBlanks (':' :: (blank ++ (v.write T blank ++ rest))) =
      ':' :: (blank ++ (v.write T blank ++ rest)) := skipBlanks_of_head (by decide)
  rw [stringText, List.cons_append, readField, hkey]
  simp only [Option.bind_eq_bind, Option.bind_some, hcolon]
  rw [skipBlanks_write hblank, hv fuel rest (by omega) hrest, String.ofList_toList]
  rfl

theorem readFields_write (hblank : ∀ c ∈ blank, isBlank c = true)
    {fields : List (String × JsonValue ν)} (hfields : ∀ p ∈ fields, ReadsBack R blank p.2)
    {fuel : ℕ} (h : (writeFields T blank fields).length < fuel) :
    readFields R fuel (writeFields T blank fields ++ rest) = some (fields, rest) := by
  obtain ⟨fuel, rfl⟩ : ∃ n, fuel = n + 1 := ⟨fuel - 1, by omega⟩
  induction fields generalizing fuel with
  | nil => rfl
  | cons p fields ih =>
    obtain ⟨k, v⟩ := p
    simp only [writeFields, List.length_cons, List.length_append] at h
    have hv : ReadsBack R blank v := hfields (k, v) List.mem_cons_self
    have hfield : readField R fuel (stringText k ++ ':' :: (blank ++ (v.write T blank ++
        (writeFields T blank fields ++ rest)))) =
        some ((k, v), writeFields T blank fields ++ rest) :=
      readField_write hblank hv (by omega) (closed_writeFields fields rest)
    have hskip : skipBlanks (blank ++ (stringText k ++ ':' :: (blank ++ (v.write T blank ++
        (writeFields T blank fields ++ rest))))) = stringText k ++ ':' :: (blank ++
        (v.write T blank ++ (writeFields T blank fields ++ rest))) :=
      skipBlanks_append hblank (by decide)
    obtain ⟨fuel, rfl⟩ : ∃ n, fuel = n + 1 := ⟨fuel - 1, by omega⟩
    have hrest := ih (fun q hq => hfields q (List.mem_cons_of_mem _ hq)) fuel (by omega)
    simp only [writeFields, List.cons_append, List.append_assoc, readFields]
    rw [if_neg (by decide), if_pos trivial, hskip, hfield]
    simp only [Option.bind_eq_bind, Option.bind_some]
    rw [skipBlanks_writeFields, hrest]
    rfl

theorem readsBack_arr (hblank : ∀ c ∈ blank, isBlank c = true) {items : List (JsonValue ν)}
    (hitems : ∀ v ∈ items, ReadsBack R blank v) : ReadsBack R blank (arr items) := by
  intro fuel rest h hrest
  obtain ⟨fuel, rfl⟩ : ∃ n, fuel = n + 1 := ⟨fuel - 1, by omega⟩
  cases items with
  | nil => rfl
  | cons v vs =>
    simp only [write, List.length_cons, List.length_append] at h
    obtain ⟨c, cs, hv, hc, hbracket, -⟩ := @write_begins ν T blank v
    have hvalue := hitems v List.mem_cons_self fuel (writeItems T blank vs ++ rest) (by omega)
      (closed_writeItems vs rest)
    have hvs : readItems R fuel (writeItems T blank vs ++ rest) = some (vs, rest) :=
      readItems_write hblank (fun w hw => hitems w (List.mem_cons_of_mem _ hw)) (by omega)
    have hskip : skipBlanks (v.write T blank ++ (writeItems T blank vs ++ rest)) =
        v.write T blank ++ (writeItems T blank vs ++ rest) := by
      rw [hv]
      exact skipBlanks_of_head hc
    have hhead : (v.write T blank ++ (writeItems T blank vs ++ rest)).head? ≠ some ']' := by
      rw [hv]
      simpa using hbracket
    simp only [write, List.cons_append, List.append_assoc, readValue]
    rw [if_neg (by decide), if_pos trivial, hskip, if_neg hhead, hvalue]
    simp only [Option.bind_eq_bind, Option.bind_some]
    rw [skipBlanks_writeItems, hvs]
    rfl

theorem readsBack_obj (hblank : ∀ c ∈ blank, isBlank c = true)
    {fields : List (String × JsonValue ν)} (hfields : ∀ p ∈ fields, ReadsBack R blank p.2) :
    ReadsBack R blank (obj fields) := by
  intro fuel rest h hrest
  obtain ⟨fuel, rfl⟩ : ∃ n, fuel = n + 1 := ⟨fuel - 1, by omega⟩
  rcases fields with _ | ⟨⟨k, v⟩, fields⟩
  · rfl
  · simp only [write, List.length_cons, List.length_append] at h
    have hv : ReadsBack R blank v := hfields (k, v) List.mem_cons_self
    have hfield : readField R fuel (stringText k ++ ':' :: (blank ++ (v.write T blank ++
        (writeFields T blank fields ++ rest)))) =
        some ((k, v), writeFields T blank fields ++ rest) :=
      readField_write hblank hv (by omega) (closed_writeFields fields rest)
    have htail : readFields R fuel (writeFields T blank fields ++ rest) = some (fields, rest) :=
      readFields_write hblank (fun q hq => hfields q (List.mem_cons_of_mem _ hq)) (by omega)
    have hskip : skipBlanks (stringText k ++ ':' :: (blank ++ (v.write T blank ++
        (writeFields T blank fields ++ rest)))) = stringText k ++ ':' :: (blank ++
        (v.write T blank ++ (writeFields T blank fields ++ rest))) :=
      skipBlanks_of_head (by decide)
    have hhead : (stringText k ++ ':' :: (blank ++ (v.write T blank ++
        (writeFields T blank fields ++ rest)))).head? ≠ some '\x7d' := by
      simp [stringText]
    simp only [write, List.cons_append, List.append_assoc, readValue]
    rw [if_neg (by decide), if_neg (by decide), if_pos trivial, hskip, if_neg hhead, hfield]
    simp only [Option.bind_eq_bind, Option.bind_some]
    rw [skipBlanks_writeFields, htail]
    rfl

theorem readsBack_num {n : ν} (h : R.readable n = true) : ReadsBack R blank (num n) := by
  intro fuel rest hfuel hrest
  obtain ⟨fuel, rfl⟩ : ∃ n, fuel = n + 1 := ⟨fuel - 1, by omega⟩
  have hscan : R.scan (T.text n ++ rest) = some (n, rest) := R.scan_text h hrest
  obtain ⟨c, cs, hn⟩ := List.exists_cons_of_ne_nil (T.ne_nil n)
  have hc := T.chars n c (by simp [hn])
  have hne : ∀ d, isNumberChar d = false → c ≠ d := by
    rintro d hd rfl
    rw [hc] at hd
    cases hd
  have hname : readName (ν := ν) (c :: (cs ++ rest)) = none := by
    rw [readName.eq_4]
    · intro _ heq
      exact hne 'n' (by decide) (List.cons.inj heq).1
    · intro _ heq
      exact hne 't' (by decide) (List.cons.inj heq).1
    · intro _ heq
      exact hne 'f' (by decide) (List.cons.inj heq).1
  rw [hn] at hscan
  rw [write, hn, List.cons_append, readValue, if_neg (hne '"' (by decide)),
    if_neg (hne '[' (by decide)), if_neg (hne '\x7b' (by decide)), hname]
  rw [List.cons_append] at hscan
  rw [hscan]
  rfl

mutual

theorem readsBack (hblank : ∀ c ∈ blank, isBlank c = true) :
    ∀ v : JsonValue ν, v.allReadable R = true → ReadsBack R blank v
  | null, _ => by
    intro fuel rest h _
    obtain ⟨fuel, rfl⟩ : ∃ n, fuel = n + 1 := ⟨fuel - 1, by omega⟩
    rfl
  | bool true, _ => by
    intro fuel rest h _
    obtain ⟨fuel, rfl⟩ : ∃ n, fuel = n + 1 := ⟨fuel - 1, by omega⟩
    rfl
  | bool false, _ => by
    intro fuel rest h _
    obtain ⟨fuel, rfl⟩ : ∃ n, fuel = n + 1 := ⟨fuel - 1, by omega⟩
    rfl
  | num n, hn => readsBack_num hn
  | str s, _ => by
    intro fuel rest h _
    obtain ⟨fuel, rfl⟩ : ∃ n, fuel = n + 1 := ⟨fuel - 1, by omega⟩
    rw [write, stringText, List.length_cons] at h
    rw [write, stringText, List.cons_append, readValue, if_pos rfl,
      readStringRest_write (by omega)]
    simp
  | arr items, hitems => readsBack_arr hblank (readsBack_items hblank items hitems)
  | obj fields, hfields => readsBack_obj hblank (readsBack_fields hblank fields hfields)

theorem readsBack_items (hblank : ∀ c ∈ blank, isBlank c = true) :
    ∀ vs : List (JsonValue ν), allReadableItems R vs = true → ∀ v ∈ vs, ReadsBack R blank v
  | v :: _, h, _, .head _ => readsBack hblank v (Bool.and_eq_true_iff.mp h).1
  | _ :: vs, h, v, .tail _ hv => readsBack_items hblank vs (Bool.and_eq_true_iff.mp h).2 v hv

theorem readsBack_fields (hblank : ∀ c ∈ blank, isBlank c = true) :
    ∀ fields : List (String × JsonValue ν), allReadableFields R fields = true →
      ∀ p ∈ fields, ReadsBack R blank p.2
  | (_, v) :: _, h, _, .head _ => readsBack hblank v (Bool.and_eq_true_iff.mp h).1
  | _ :: fields, h, p, .tail _ hp =>
    readsBack_fields hblank fields (Bool.and_eq_true_iff.mp h).2 p hp

end

theorem loads_write (hblank : ∀ c ∈ blank, isBlank c = true) {v : JsonValue ν}
    (h : v.allReadable R = true) : loads R (v.write T blank) = some v := by
  have hskip : skipBlanks (v.write T blank) = v.write T blank := by
    obtain ⟨c, cs, hv, hc, -⟩ := @write_begins ν T blank v
    rw [hv]
    exact skipBlanks_of_head hc
  have hread := readsBack hblank v h ((v.write T blank).length + 1) [] (by omega) nofun
  rw [List.append_nil] at hread
  rw [loads, hskip, hread]
  exact if_pos rfl

end ReadBack

section SortedKeys

theorem sortKeysList_eq (items : List (JsonValue ν)) : sortKeysList items = items.map sortKeys := by
  induction items with
  | nil => rfl
  | cons v vs ih => rw [sortKeysList, ih, List.map_cons]

theorem allReadableFields_eq (fields : List (String × JsonValue ν)) :
    allReadableFields R fields = fields.all fun p => p.2.allReadable R := by
  induction fields with
  | nil => rfl
  | cons p fields ih => rw [allReadableFields, ih, List.all_cons]

variable {R}

mutual

theorem allReadable_sortKeys : ∀ v : JsonValue ν, v.sortKeys.allReadable R = v.allReadable R
  | null | bool _ | str _ | num _ => rfl
  | arr items => by
    rw [sortKeys, allReadable, allReadable, allReadable_sortKeysList items]
  | obj fields => by
    have hperm := List.mergeSort_perm (sortKeysFields fields) fun a b => decide (a.1 ≤ b.1)
    rw [sortKeys, allReadable, allReadable, allReadableFields_eq, hperm.all_eq,
      ← allReadableFields_eq, allReadable_sortKeysFields fields]

theorem allReadable_sortKeysList : ∀ vs : List (JsonValue ν),
    allReadableItems R (sortKeysList vs) = allReadableItems R vs
  | [] => rfl
  | v :: vs => by
    rw [sortKeysList, allReadableItems, allReadableItems, allReadable_sortKeys v,
      allReadable_sortKeysList vs]

theorem allReadable_sortKeysFields : ∀ fields : List (String × JsonValue ν),
    allReadableFields R (sortKeysFields fields) = allReadableFields R fields
  | [] => rfl
  | (k, v) :: fields => by
    rw [sortKeysFields, allReadableFields, allReadableFields, allReadable_sortKeys v,
      allReadable_sortKeysFields fields]

end

theorem loads_dumps {v : JsonValue ν} (h : v.allReadable R = true) :
    loads R (v.dumps T) = some v.sortKeys := by
  apply loads_write (List.forall_mem_nil _)
  rwa [allReadable_sortKeys]

mutual

theorem sortKeys_sortKeys : ∀ v : JsonValue ν, v.sortKeys.sortKeys = v.sortKeys
  | null | bool _ | str _ | num _ => rfl
  | arr items => by
    rw [sortKeys, sortKeys, sortKeysList_eq, sortKeysList_eq, List.map_map]
    exact congrArg arr (List.map_congr_left fun v hv => sorted_items items v hv)
  | obj fields => by
    have hsame : ∀ p ∈ (sortKeysFields fields).mergeSort fun a b => decide (a.1 ≤ b.1),
        (p.1, p.2.sortKeys) = p := by
      intro p hp
      rw [List.mem_mergeSort, sortKeysFields_eq, List.mem_map] at hp
      obtain ⟨q, hq, rfl⟩ := hp
      exact congrArg (Prod.mk q.1) (sorted_fields fields q hq)
    rw [sortKeys, sortKeys, sortKeysFields_eq (List.mergeSort _ _), List.map_congr_left hsame,
      List.map_id', List.mergeSort_of_pairwise]
    apply List.pairwise_mergeSort
    · intro a b c hab hbc
      simp only [decide_eq_true_eq] at hab hbc ⊢
      exact String.le_trans hab hbc
    · intro a b
      simpa using String.le_total a.1 b.1

theorem sorted_items : ∀ vs : List (JsonValue ν), ∀ v ∈ vs, v.sortKeys.sortKeys = v.sortKeys
  | v :: _, _, .head _ => sortKeys_sortKeys v
  | _ :: vs, v, .tail _ h => sorted_items vs v h

theorem sorted_fields : ∀ fields : List (String × JsonValue ν), ∀ p ∈ fields,
    p.2.sortKeys.sortKeys = p.2.sortKeys
  | (_, v) :: _, _, .head _ => sortKeys_sortKeys v
  | _ :: fields, p, .tail _ h => sorted_fields fields p h

end

end SortedKeys

end JsonValue

section Numbers

/-- A zero, or digits that begin with another one. -/
def scanWhole : List Char → Option (List Char × List Char)
  | '0' :: rest => some (['0'], rest)
  | text =>
    if text.takeWhile Char.isDigit = [] then none
    else some (text.takeWhile Char.isDigit, text.dropWhile Char.isDigit)

/-- A point and digits, or nothing. -/
def scanFraction : List Char → List Char × List Char
  | '.' :: rest =>
    if rest.takeWhile Char.isDigit = [] then ([], '.' :: rest)
    else ('.' :: rest.takeWhile Char.isDigit, rest.dropWhile Char.isDigit)
  | text => ([], text)

def scanSign : List Char → List Char × List Char
  | '+' :: rest => (['+'], rest)
  | '-' :: rest => (['-'], rest)
  | text => ([], text)

/-- A letter, a sign or none, and digits; or nothing. -/
def scanExponent : List Char → List Char × List Char
  | c :: text =>
    let (sign, rest) := scanSign text
    if (c = 'e' ∨ c = 'E') ∧ rest.takeWhile Char.isDigit ≠ [] then
      (c :: sign ++ rest.takeWhile Char.isDigit, rest.dropWhile Char.isDigit)
    else ([], c :: text)
  | [] => ([], [])

/-- The number at the beginning of a text, and the text behind it. -/
def scanNumber (text : List Char) : Option (List Char × List Char) :=
  let (sign, rest) := if text.head? = some '-' then (['-'], text.tail) else ([], text)
  (scanWhole rest).map fun (whole, rest) =>
    let (fraction, rest) := scanFraction rest
    let (exponent, rest) := scanExponent rest
    (sign ++ whole ++ fraction ++ exponent, rest)

/-- `int(text)` for the text of a number without a fraction and an exponent. -/
def intOfNumber : List Char → Option ℤ
  | '-' :: digits =>
    if digits.length ≤ maxStrDigits then some (-(Nat.ofDigitChars 10 digits 0 : ℤ)) else none
  | digits =>
    if digits.length ≤ maxStrDigits then some (Nat.ofDigitChars 10 digits 0 : ℤ) else none

variable {F : Type} {floats : Floats F}

/-- How floats are read: `float` reads what `repr` writes, which is a number of JSON. -/
structure FloatReader (floats : Floats F) where
  read : List Char → Option F
  read_repr : ∀ x, read (floats.repr x) = some x
  scan_repr : ∀ x {rest}, JsonValue.Closed rest →
    scanNumber (floats.repr x ++ rest) = some (floats.repr x, rest)

/-- An integer is readable unless it has too many digits; a float always is. -/
def Number.isReadable : Number F → Bool
  | .int n => (Nat.toDigits 10 n.natAbs).length ≤ maxStrDigits
  | .float _ => true

def FloatReader.scan (reader : FloatReader floats) (text : List Char) :
    Option (Number F × List Char) :=
  (scanNumber text).bind fun (lexeme, rest) =>
    if '.' ∈ lexeme ∨ 'e' ∈ lexeme ∨ 'E' ∈ lexeme then
      (reader.read lexeme).map fun x => (.float x, rest)
    else (intOfNumber lexeme).map fun n => (.int n, rest)

theorem toDigits_begins (n : ℕ) :
    Nat.toDigits 10 n = ['0'] ∨ ∃ c cs, Nat.toDigits 10 n = c :: cs ∧ c ≠ '0' := by
  induction n using Nat.strong_induction_on with
  | h n ih =>
    rcases Nat.lt_or_ge n 10 with hlt | hge
    · rw [Nat.toDigits_of_lt_base hlt]
      rcases Nat.eq_zero_or_pos n with rfl | hpos
      · exact Or.inl rfl
      · exact Or.inr ⟨_, _, rfl, by simp; omega⟩
    · rw [Nat.toDigits_of_base_le (by decide) hge]
      right
      rcases ih (n / 10) (by omega) with hzero | ⟨c, cs, hcs, hc⟩
      · have hvalue := @Nat.ofDigitChars_ten_toDigits (n / 10)
        rw [hzero] at hvalue
        have hdiv : n / 10 = 0 := hvalue.symm
        omega
      · rw [hcs]
        exact ⟨c, _, rfl, hc⟩

variable {rest : List Char}

theorem JsonValue.Closed.digits (h : JsonValue.Closed rest) :
    rest.takeWhile Char.isDigit = [] ∧ rest.dropWhile Char.isDigit = rest := by
  cases rest with
  | nil => exact ⟨rfl, rfl⟩
  | cons c rest =>
    have hall : ∀ c ∈ [',', ']', '\x7d'], ¬ c.isDigit = true :=
      List.all_iff_forall_prop.mp (by decide)
    have hc := hall c (h c rfl)
    exact ⟨List.takeWhile_cons_of_neg hc, List.dropWhile_cons_of_neg hc⟩

theorem JsonValue.Closed.fraction (h : JsonValue.Closed rest) : scanFraction rest = ([], rest) := by
  cases rest with
  | nil => rfl
  | cons c rest =>
    rw [scanFraction.eq_2]
    intro text heq
    have hc := h c rfl
    rw [(List.cons.inj heq).1] at hc
    revert hc
    decide

theorem JsonValue.Closed.exponent (h : JsonValue.Closed rest) : scanExponent rest = ([], rest) := by
  cases rest with
  | nil => rfl
  | cons c rest =>
    have hall : ∀ c ∈ [',', ']', '\x7d'], ¬ (c = 'e' ∨ c = 'E') :=
      List.all_iff_forall_prop.mp (by decide)
    exact if_neg fun hboth => hall c (h c rfl) hboth.1

theorem scanWhole_toDigits (n : ℕ) (htake : rest.takeWhile Char.isDigit = [])
    (hdrop : rest.dropWhile Char.isDigit = rest) :
    scanWhole (Nat.toDigits 10 n ++ rest) = some (Nat.toDigits 10 n, rest) := by
  have hdigits : ∀ c ∈ Nat.toDigits 10 n, c.isDigit = true :=
    fun c hc => Nat.isDigit_of_mem_toDigits (by decide) (by decide) hc
  rcases toDigits_begins n with hzero | ⟨c, cs, hcs, hc⟩
  · rw [hzero]
    rfl
  · have hne : Nat.toDigits 10 n ≠ [] := by simp [hcs]
    have htext : (Nat.toDigits 10 n ++ rest).takeWhile Char.isDigit = Nat.toDigits 10 n := by
      rw [List.takeWhile_append_of_pos hdigits, htake, List.append_nil]
    have hrest : (Nat.toDigits 10 n ++ rest).dropWhile Char.isDigit = rest := by
      rw [List.dropWhile_append_of_pos hdigits, hdrop]
    rw [scanWhole.eq_2, htext, hrest, if_neg hne]
    intro text heq
    rw [hcs] at heq
    exact hc (List.cons.inj heq).1

theorem head_toDigits_ne_minus (n : ℕ) : (Nat.toDigits 10 n ++ rest).head? ≠ some '-' := by
  obtain ⟨c, cs, hcs⟩ := List.exists_cons_of_ne_nil (@Nat.toDigits_ne_nil n 10)
  have hdigit : c.isDigit = true :=
    Nat.isDigit_of_mem_toDigits (b := 10) (n := n) (by decide) (by decide) (by simp [hcs])
  rw [hcs]
  rintro ⟨⟩
  cases hdigit

theorem scanNumber_intText (n : ℤ) (h : JsonValue.Closed rest) :
    scanNumber (intText n ++ rest) = some (intText n, rest) := by
  have hwhole := scanWhole_toDigits n.natAbs h.digits.1 h.digits.2
  unfold intText
  split
  · rw [List.cons_append, scanNumber, List.head?_cons, if_pos rfl, List.tail_cons]
    simp only [hwhole, Option.map_some, h.fraction, h.exponent]
    simp
  · rw [scanNumber, if_neg (head_toDigits_ne_minus n.natAbs)]
    simp only [hwhole, Option.map_some, h.fraction, h.exponent]
    simp

theorem intOfNumber_intText {n : ℤ} (h : (Nat.toDigits 10 n.natAbs).length ≤ maxStrDigits) :
    intOfNumber (intText n) = some n := by
  unfold intText
  split
  · rw [intOfNumber, if_pos h, Nat.ofDigitChars_ten_toDigits, Option.some_inj]
    omega
  · rw [intOfNumber.eq_2, if_pos h, Nat.ofDigitChars_ten_toDigits, Option.some_inj]
    · omega
    · intro digits heq
      have hminus := @head_toDigits_ne_minus [] n.natAbs
      rw [heq] at hminus
      exact hminus rfl

/-- The numbers of a document. -/
def FloatReader.numbers (reader : FloatReader floats) : NumberReader floats.numberText where
  scan := reader.scan
  readable := Number.isReadable
  scan_text := by
    rintro (n | x) rest hreadable hrest
    · have hint : ¬ ('.' ∈ intText n ∨ 'e' ∈ intText n ∨ 'E' ∈ intText n) := by
        rintro (h | h | h) <;> rcases intText_chars n _ h with h | h <;> cases h
      change (scanNumber (intText n ++ rest)).bind _ = _
      rw [scanNumber_intText n hrest, Option.bind_some]
      simp only [if_neg hint]
      rw [intOfNumber_intText (of_decide_eq_true hreadable)]
      rfl
    · have hfloat : '.' ∈ floats.repr x ∨ 'e' ∈ floats.repr x ∨ 'E' ∈ floats.repr x :=
        (floats.repr_fraction x).imp_right Or.inl
      change (scanNumber (floats.repr x ++ rest)).bind _ = _
      rw [reader.scan_repr x hrest, Option.bind_some]
      simp only [if_pos hfloat]
      rw [reader.read_repr]
      rfl

end Numbers

end Manus
