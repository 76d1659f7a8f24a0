import Mathlib.Data.Bool.AllAny
import Mathlib.Data.List.Sort
import Mathlib.Data.Nat.Notation
import Mathlib.Tactic.Common

/-! # JSON as text

The text of a JSON value, in ASCII and with the keys of objects in order, with blanks
after the separators or without. Nothing is lost but the order of the keys: the text
determines the value.
-/

namespace Manus

/-- A JSON value with numbers in `ν`. -/
inductive JsonValue (ν : Type) where
  | null
  | bool (b : Bool)
  | num (n : ν)
  | str (s : String)
  | arr (items : List (JsonValue ν))
  | obj (fields : List (String × JsonValue ν))

/-- The characters of a number. -/
def isNumberChar (c : Char) : Bool := c.isDigit || c ∈ ['-', '+', '.', 'e']

/-- How numbers are written: each in its own way, in the characters of a number. -/
structure NumberText (ν : Type) where
  text : ν → List Char
  injective : Function.Injective text
  ne_nil : ∀ n, text n ≠ []
  chars : ∀ n, ∀ c ∈ text n, isNumberChar c = true

section Strings

def hexDigit (n : ℕ) : Char := if n < 10 then Char.ofNat (48 + n) else Char.ofNat (87 + n)

/-- Four hexadecimal digits. -/
def hex4 (n : ℕ) : List Char :=
  [hexDigit (n / 4096 % 16), hexDigit (n / 256 % 16), hexDigit (n / 16 % 16), hexDigit (n % 16)]

def unicodeEscape (n : ℕ) : List Char := '\\' :: 'u' :: hex4 n

/-- The escapes with a letter of their own. -/
def shortEscapes : List (Char × Char) :=
  [('"', '"'), ('\\', '\\'), ('\n', 'n'), ('\r', 'r'), ('\t', 't'), ('\x0c', 'f'), ('\x08', 'b')]

/-- A character inside a string; one outside the basic plane is two surrogates. -/
def escapeJsonChar (c : Char) : List Char :=
  match shortEscapes.lookup c with
  | some letter => ['\\', letter]
  | none =>
    if 32 ≤ c.toNat ∧ c.toNat < 127 then [c]
    else if c.toNat < 65536 then unicodeEscape c.toNat
    else unicodeEscape (55296 + (c.toNat - 65536) / 1024) ++
      unicodeEscape (56320 + (c.toNat - 65536) % 1024)

/-- A string and its closing quote. -/
def stringRest : List Char → List Char
  | [] => ['"']
  | c :: cs => escapeJsonChar c ++ stringRest cs

def stringText (s : String) : List Char := '"' :: stringRest s.toList

def hexValue (c : Char) : ℕ := if c.toNat < 58 then c.toNat - 48 else c.toNat - 87

def hex4Value (a b c d : Char) : ℕ :=
  hexValue a * 4096 + hexValue b * 256 + hexValue c * 16 + hexValue d

/-- The first character of the text of a string, and the text after it. -/
def readJsonChar : List Char → Option (Char × List Char)
  | '\\' :: 'u' :: a :: b :: c :: d :: rest =>
    let n := hex4Value a b c d
    if 55296 ≤ n ∧ n < 56320 then
      match rest with
      | '\\' :: 'u' :: a :: b :: c :: d :: rest =>
        some (Char.ofNat (65536 + (n - 55296) * 1024 + (hex4Value a b c d - 56320)), rest)
      | _ => none
    else some (Char.ofNat n, rest)
  | '\\' :: letter :: rest =>
    ((shortEscapes.find? fun escape => escape.2 == letter).map Prod.fst).map fun c => (c, rest)
  | c :: rest => some (c, rest)
  | [] => none

theorem hexValue_hexDigit {n : ℕ} (h : n < 16) : hexValue (hexDigit n) = n := by
  have hall : ∀ n < 16, hexValue (hexDigit n) = n := by decide
  exact hall n h

theorem hex4Value_digits {n : ℕ} (h : n < 65536) :
    hex4Value (hexDigit (n / 4096 % 16)) (hexDigit (n / 256 % 16)) (hexDigit (n / 16 % 16))
      (hexDigit (n % 16)) = n := by
  have hlt : ∀ m, m % 16 < 16 := fun m => Nat.mod_lt m (by decide)
  simp only [hex4Value, hexValue_hexDigit (hlt _)]
  omega

theorem readJsonChar_unicode {n : ℕ} (hn : n < 55296 ∨ 57344 ≤ n ∧ n < 65536) (rest : List Char) :
    readJsonChar (unicodeEscape n ++ rest) = some (Char.ofNat n, rest) := by
  have hvalue := hex4Value_digits (n := n) (by omega)
  simp only [unicodeEscape, hex4, List.cons_append, List.nil_append, readJsonChar, hvalue]
  rw [if_neg (by omega)]

theorem readJsonChar_surrogates {n : ℕ} (hn : n < 1048576) (rest : List Char) :
    readJsonChar (unicodeEscape (55296 + n / 1024) ++ unicodeEscape (56320 + n % 1024) ++ rest) =
      some (Char.ofNat (65536 + n), rest) := by
  have hhigh := hex4Value_digits (n := 55296 + n / 1024) (by omega)
  have hlow := hex4Value_digits (n := 56320 + n % 1024) (by omega)
  simp only [unicodeEscape, hex4, List.cons_append, List.nil_append, readJsonChar, hhigh, hlow]
  rw [if_pos (by omega)]
  have hsum : 65536 + (55296 + n / 1024 - 55296) * 1024 + (56320 + n % 1024 - 56320) =
      65536 + n := by
    omega
  rw [hsum]

theorem readJsonChar_escape (c : Char) (rest : List Char) :
    readJsonChar (escapeJsonChar c ++ rest) = some (c, rest) := by
  unfold escapeJsonChar
  split
  · rename_i letter hletter
    obtain ⟨before, after, hsplit, -⟩ := List.lookup_eq_some_iff.mp hletter
    have hmem : (c, letter) ∈ shortEscapes := by simp [hsplit]
    simp only [shortEscapes, List.mem_cons, Prod.mk.injEq, List.not_mem_nil, or_false] at hmem
    rcases hmem with ⟨rfl, rfl⟩ | ⟨rfl, rfl⟩ | ⟨rfl, rfl⟩ | ⟨rfl, rfl⟩ | ⟨rfl, rfl⟩ |
      ⟨rfl, rfl⟩ | ⟨rfl, rfl⟩ <;> rfl
  · rename_i hnone
    have hslash : c ≠ '\\' := by
      rintro rfl
      exact absurd hnone (by decide)
    have hvalid : c.toNat < 55296 ∨ 57343 < c.toNat ∧ c.toNat < 1114112 := c.valid
    split
    · simp [readJsonChar, hslash]
    · split
      · rw [readJsonChar_unicode (by omega), Char.ofNat_toNat]
      · rw [readJsonChar_surrogates (by omega), Nat.add_sub_cancel' (by omega), Char.ofNat_toNat]

theorem escapeJsonChar_ne_quote (c : Char) (rest rest' : List Char) :
    escapeJsonChar c ++ rest ≠ '"' :: rest' := by
  intro h
  have hread := congrArg readJsonChar h
  rw [readJsonChar_escape] at hread
  obtain ⟨rfl, -⟩ := Prod.mk.inj (Option.some.inj hread)
  cases h

theorem stringRest_inj {cs cs' rest rest' : List Char}
    (h : stringRest cs ++ rest = stringRest cs' ++ rest') : cs = cs' ∧ rest = rest' := by
  induction cs generalizing cs' with
  | nil =>
    cases cs' with
    | nil => exact ⟨rfl, List.cons.inj h |>.2⟩
    | cons c' cs' =>
      rw [stringRest.eq_2, List.append_assoc] at h
      exact absurd h.symm (escapeJsonChar_ne_quote c' _ _)
  | cons c cs ih =>
    cases cs' with
    | nil =>
      rw [stringRest.eq_2, List.append_assoc] at h
      exact absurd h (escapeJsonChar_ne_quote c _ _)
    | cons c' cs' =>
      simp only [stringRest, List.append_assoc] at h
      have hread := congrArg readJsonChar h
      rw [readJsonChar_escape, readJsonChar_escape] at hread
      obtain ⟨rfl, hrest⟩ := Prod.mk.inj (Option.some.inj hread)
      obtain ⟨rfl, rfl⟩ := ih hrest
      exact ⟨rfl, rfl⟩

theorem stringText_inj {s s' : String} {rest rest' : List Char}
    (h : stringText s ++ rest = stringText s' ++ rest') : s = s' ∧ rest = rest' := by
  obtain ⟨hs, hrest⟩ := stringRest_inj (List.cons.inj h).2
  exact ⟨String.toList_injective hs, hrest⟩

end Strings

namespace JsonValue

variable {ν : Type}

mutual

/-- The value with the keys of its objects in order. -/
def sortKeys : JsonValue ν → JsonValue ν
  | null => null
  | bool b => bool b
  | num n => num n
  | str s => str s
  | arr items => arr (sortKeysList items)
  | obj fields => obj ((sortKeysFields fields).mergeSort fun a b => decide (a.1 ≤ b.1))

def sortKeysList : List (JsonValue ν) → List (JsonValue ν)
  | [] => []
  | v :: vs => sortKeys v :: sortKeysList vs

def sortKeysFields : List (String × JsonValue ν) → List (String × JsonValue ν)
  | [] => []
  | (k, v) :: fields => (k, sortKeys v) :: sortKeysFields fields

end

/-- The values are equal; the order of the keys of an object does not matter. -/
def Same (v w : JsonValue ν) : Prop := v.sortKeys = w.sortKeys

theorem Same.refl (v : JsonValue ν) : v.Same v := rfl

theorem Same.symm {v w : JsonValue ν} (h : v.Same w) : w.Same v := Eq.symm h

theorem sortKeysFields_eq (fields : List (String × JsonValue ν)) :
    sortKeysFields fields = fields.map fun p => (p.1, p.2.sortKeys) := by
  induction fields with
  | nil => rfl
  | cons p fields ih => rw [sortKeysFields, ih, List.map_cons]

theorem Same.exists_mem {fields fields' : List (String × JsonValue ν)}
    (h : (obj fields).Same (obj fields')) {k : String} {v : JsonValue ν} (hv : (k, v) ∈ fields) :
    ∃ w, (k, w) ∈ fields' ∧ v.Same w := by
  unfold Same at h
  rw [sortKeys, sortKeys, sortKeysFields_eq, sortKeysFields_eq, obj.injEq] at h
  have hsorted : (k, v.sortKeys) ∈ fields.map fun p => (p.1, p.2.sortKeys) :=
    List.mem_map_of_mem (f := fun p : String × JsonValue ν => (p.1, p.2.sortKeys)) hv
  have hmem := (List.mem_mergeSort.mpr hsorted : (k, v.sortKeys) ∈ List.mergeSort _
    fun a b => decide (a.1 ≤ b.1))
  rw [h, List.mem_mergeSort, List.mem_map] at hmem
  obtain ⟨⟨k', w⟩, hw, heq⟩ := hmem
  obtain ⟨rfl, hsame⟩ := Prod.mk.inj heq
  exact ⟨w, hw, hsame.symm⟩

variable (T : NumberText ν) (blank : List Char)

mutual

/-- The text, with blanks after `,` and `:`. -/
def write : JsonValue ν → List Char
  | null => ['n', 'u', 'l', 'l']
  | bool true => ['t', 'r', 'u', 'e']
  | bool false => ['f', 'a', 'l', 's', 'e']
  | num n => T.text n
  | str s => stringText s
  | arr [] => ['[', ']']
  | arr (v :: vs) => '[' :: (write v ++ writeItems vs)
  | obj [] => ['{', '}']
  | obj ((k, v) :: fields) =>
    '{' :: (stringText k ++ ':' :: (blank ++ (write v ++ writeFields fields)))

/-- The items after the first one, and the closing bracket. -/
def writeItems : List (JsonValue ν) → List Char
  | [] => [']']
  | v :: vs => ',' :: (blank ++ (write v ++ writeItems vs))

def writeFields : List (String × JsonValue ν) → List Char
  | [] => ['}']
  | (k, v) :: fields =>
    ',' :: (blank ++ (stringText k ++ ':' :: (blank ++ (write v ++ writeFields fields))))

end

/-- `json.dumps(value, sort_keys=True, separators=(",", ":"))`. -/
def dumps (v : JsonValue ν) : List Char := v.sortKeys.write T []

/-- `json.dumps(value, sort_keys=True)`. -/
def dumpsSpaced (v : JsonValue ν) : List Char := v.sortKeys.write T [' ']

section Reading

/-- A number is not continued here. -/
def Stops (rest : List Char) : Prop := ∀ c ∈ rest.head?, isNumberChar c = false

theorem takeWhile_of_stops {rest : List Char} (h : Stops rest) :
    rest.takeWhile isNumberChar = [] := by
  cases rest with
  | nil => rfl
  | cons c rest => rw [List.takeWhile_cons_of_neg (by simp [h c rfl])]

variable {T} {blank} {rest rest' : List Char}

theorem numberText_inj {n m : ν} (hrest : Stops rest) (hrest' : Stops rest')
    (h : T.text n ++ rest = T.text m ++ rest') : n = m ∧ rest = rest' := by
  have htake := congrArg (List.takeWhile isNumberChar) h
  rw [List.takeWhile_append_of_pos (T.chars n), List.takeWhile_append_of_pos (T.chars m),
    takeWhile_of_stops hrest, takeWhile_of_stops hrest', List.append_nil, List.append_nil] at htake
  obtain rfl := T.injective htake
  exact ⟨rfl, List.append_cancel_left h⟩

theorem stops_writeItems (vs : List (JsonValue ν)) (rest : List Char) :
    Stops (writeItems T blank vs ++ rest) := by
  intro c hc
  cases vs <;> cases hc <;> rfl

theorem stops_writeFields (fields : List (String × JsonValue ν)) (rest : List Char) :
    Stops (writeFields T blank fields ++ rest) := by
  intro c hc
  rcases fields with _ | ⟨⟨k, v⟩, fields⟩ <;> cases hc <;> rfl

/-- The kinds of values, told apart by the first character of their text. -/
def kindOf (c : Char) : ℕ := ['n', 't', 'f', '"', '[', '{'].idxOf c

def kind : JsonValue ν → ℕ
  | null => 0
  | bool true => 1
  | bool false => 2
  | str _ => 3
  | arr _ => 4
  | obj _ => 5
  | num _ => 6

theorem kindOf_number {c : Char} (h : isNumberChar c = true) : kindOf c = 6 := by
  apply List.idxOf_of_notMem
  intro hc
  have hnone : ∀ c ∈ ['n', 't', 'f', '"', '[', '{'], isNumberChar c = false :=
    List.all_iff_forall_prop.mp (by decide)
  rw [hnone c hc] at h
  cases h

theorem write_head (v : JsonValue ν) : ∃ c cs, v.write T blank = c :: cs ∧ kindOf c = v.kind ∧
    (kindOf c = 6 → isNumberChar c = true) := by
  match v with
  | null | bool true | bool false | str _ | arr [] | arr (_ :: _) | obj [] | obj (_ :: _) =>
    exact ⟨_, _, rfl, rfl, nofun⟩
  | num n =>
    obtain ⟨c, cs, hn⟩ := List.exists_cons_of_ne_nil (T.ne_nil n)
    have hc := T.chars n c (by simp [hn])
    exact ⟨c, cs, hn, kindOf_number hc, fun _ => hc⟩

theorem kind_eq {v w : JsonValue ν} (h : v.write T blank ++ rest = w.write T blank ++ rest') :
    v.kind = w.kind := by
  obtain ⟨c, cs, hv, hkind, -⟩ := write_head (T := T) v
  obtain ⟨c', cs', hw, hkind', -⟩ := write_head (T := T) w
  rw [hv, hw] at h
  rw [← hkind, ← hkind', (List.cons.inj h).1]

theorem write_ne_bracket (v : JsonValue ν) : v.write T blank ++ rest ≠ ']' :: rest' := by
  intro h
  obtain ⟨c, cs, hv, -, hnumber⟩ := write_head (T := T) v
  rw [hv] at h
  obtain rfl := (List.cons.inj h).1
  exact absurd (hnumber (by decide)) (by decide)

/-- Where the text of the value ends can be told from the text. -/
def Readable (T : NumberText ν) (blank : List Char) (v : JsonValue ν) : Prop :=
  ∀ (w : JsonValue ν) (rest rest' : List Char), Stops rest → Stops rest' →
    v.write T blank ++ rest = w.write T blank ++ rest' → v = w ∧ rest = rest'

theorem writeItems_inj {vs ws : List (JsonValue ν)} (hvs : ∀ v ∈ vs, Readable T blank v)
    (h : writeItems T blank vs ++ rest = writeItems T blank ws ++ rest') :
    vs = ws ∧ rest = rest' := by
  induction vs generalizing ws with
  | nil =>
    cases ws with
    | nil => exact ⟨rfl, (List.cons.inj h).2⟩
    | cons w ws => cases h
  | cons v vs ih =>
    cases ws with
    | nil => cases h
    | cons w ws =>
      simp only [writeItems, List.cons_append, List.append_assoc] at h
      obtain ⟨rfl, hrest⟩ := hvs v List.mem_cons_self w _ _ (stops_writeItems vs rest)
        (stops_writeItems ws rest') (List.append_cancel_left (List.cons.inj h).2)
      obtain ⟨rfl, rfl⟩ := ih (fun v hv => hvs v (List.mem_cons_of_mem _ hv)) hrest
      exact ⟨rfl, rfl⟩

theorem writeField_inj {k k' : String} {v w : JsonValue ν}
    {fields fields' : List (String × JsonValue ν)} (hv : Readable T blank v)
    (h : stringText k ++
        ':' :: (blank ++ (v.write T blank ++ (writeFields T blank fields ++ rest))) =
      stringText k' ++
        ':' :: (blank ++ (w.write T blank ++ (writeFields T blank fields' ++ rest')))) :
    k = k' ∧ v = w ∧ writeFields T blank fields ++ rest = writeFields T blank fields' ++ rest' := by
  obtain ⟨hk, hvalue⟩ := stringText_inj h
  obtain ⟨hvw, hrest⟩ := hv w _ _ (stops_writeFields fields rest) (stops_writeFields fields' rest')
    (List.append_cancel_left (List.cons.inj hvalue).2)
  exact ⟨hk, hvw, hrest⟩

theorem writeFields_inj {fields fields' : List (String × JsonValue ν)}
    (hfields : ∀ p ∈ fields, Readable T blank p.2)
    (h : writeFields T blank fields ++ rest = writeFields T blank fields' ++ rest') :
    fields = fields' ∧ rest = rest' := by
  induction fields generalizing fields' with
  | nil =>
    rcases fields' with _ | ⟨⟨k', w⟩, fields'⟩
    · exact ⟨rfl, (List.cons.inj h).2⟩
    · cases h
  | cons p fields ih =>
    obtain ⟨k, v⟩ := p
    rcases fields' with _ | ⟨⟨k', w⟩, fields'⟩
    · cases h
    · simp only [writeFields, List.cons_append, List.append_assoc] at h
      obtain ⟨rfl, rfl, hrest⟩ := writeField_inj (hfields (k, v) List.mem_cons_self)
        (List.append_cancel_left (List.cons.inj h).2)
      obtain ⟨rfl, rfl⟩ := ih (fun p hp => hfields p (List.mem_cons_of_mem _ hp)) hrest
      exact ⟨rfl, rfl⟩

theorem readable_arr {items : List (JsonValue ν)} (hitems : ∀ v ∈ items, Readable T blank v) :
    Readable T blank (arr items) := by
  intro w rest rest' hrest hrest' h
  have hkind := kind_eq h
  cases w with
  | arr items' =>
    match items, items' with
    | [], [] => exact ⟨rfl, (List.cons.inj (List.cons.inj h).2).2⟩
    | [], w :: ws =>
      simp only [write, List.cons_append, List.append_assoc] at h
      exact absurd (List.cons.inj h).2.symm (write_ne_bracket w)
    | v :: vs, [] =>
      simp only [write, List.cons_append, List.append_assoc] at h
      exact absurd (List.cons.inj h).2 (write_ne_bracket v)
    | v :: vs, w :: ws =>
      simp only [write, List.cons_append, List.append_assoc] at h
      obtain ⟨rfl, htail⟩ := hitems v List.mem_cons_self w _ _ (stops_writeItems vs rest)
        (stops_writeItems ws rest') (List.cons.inj h).2
      obtain ⟨rfl, rfl⟩ := writeItems_inj (fun v hv => hitems v (List.mem_cons_of_mem _ hv)) htail
      exact ⟨rfl, rfl⟩
  | bool b => cases b <;> cases hkind
  | _ => cases hkind

theorem readable_obj {fields : List (String × JsonValue ν)}
    (hfields : ∀ p ∈ fields, Readable T blank p.2) : Readable T blank (obj fields) := by
  intro w rest rest' hrest hrest' h
  have hkind := kind_eq h
  cases w with
  | obj fields' =>
    match fields, fields' with
    | [], [] => exact ⟨rfl, (List.cons.inj (List.cons.inj h).2).2⟩
    | [], (k', w) :: fields' => cases h
    | (k, v) :: fields, [] => cases h
    | (k, v) :: fields, (k', w) :: fields' =>
      simp only [write, List.cons_append, List.append_assoc] at h
      obtain ⟨rfl, rfl, htail⟩ := writeField_inj (hfields (k, v) List.mem_cons_self)
        (List.cons.inj h).2
      obtain ⟨rfl, rfl⟩ := writeFields_inj (fun p hp => hfields p (List.mem_cons_of_mem _ hp)) htail
      exact ⟨rfl, rfl⟩
  | bool b => cases b <;> cases hkind
  | _ => cases hkind

mutual

theorem readable : ∀ v : JsonValue ν, Readable T blank v
  | null => by
    intro w rest rest' _ _ h
    have hkind := kind_eq h
    cases w with
    | null => exact ⟨rfl, List.append_cancel_left h⟩
    | bool b => cases b <;> cases hkind
    | _ => cases hkind
  | bool b => by
    intro w rest rest' _ _ h
    have hkind := kind_eq h
    cases w with
    | bool b' =>
      cases b <;> cases b'
      · exact ⟨rfl, List.append_cancel_left h⟩
      · cases hkind
      · cases hkind
      · exact ⟨rfl, List.append_cancel_left h⟩
    | _ => cases b <;> cases hkind
  | num n => by
    intro w rest rest' hrest hrest' h
    have hkind := kind_eq h
    cases w with
    | num m =>
      obtain ⟨rfl, rfl⟩ := numberText_inj hrest hrest' h
      exact ⟨rfl, rfl⟩
    | bool b => cases b <;> cases hkind
    | _ => cases hkind
  | str s => by
    intro w rest rest' _ _ h
    have hkind := kind_eq h
    cases w with
    | str s' =>
      obtain ⟨rfl, rfl⟩ := stringText_inj h
      exact ⟨rfl, rfl⟩
    | bool b => cases b <;> cases hkind
    | _ => cases hkind
  | arr items => readable_arr (readable_items items)
  | obj fields => readable_obj (readable_fields fields)

theorem readable_items : ∀ vs : List (JsonValue ν), ∀ v ∈ vs, Readable T blank v
  | v :: _, _, .head _ => readable v
  | _ :: vs, v, .tail _ h => readable_items vs v h

theorem readable_fields : ∀ fields : List (String × JsonValue ν), ∀ p ∈ fields, Readable T blank p.2
  | (_, v) :: _, _, .head _ => readable v
  | _ :: fields, p, .tail _ h => readable_fields fields p h

end

theorem write_injective : Function.Injective (write T blank) := by
  intro v w h
  have hstops : Stops [] := nofun
  exact (readable v w [] [] hstops hstops (congrArg (· ++ []) h)).1

theorem same_of_dumps {v w : JsonValue ν} (h : v.dumps T = w.dumps T) : v.Same w :=
  write_injective h

end Reading

end JsonValue

end Manus
