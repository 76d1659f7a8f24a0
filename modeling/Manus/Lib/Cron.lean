import Manus.Lib.Words
import Mathlib.Data.List.DropRight
import Mathlib.Data.List.Forall2
import Mathlib.Tactic.IntervalCases

/-! # The cron language

An expression of five fields and the minutes at which it fires. A field is a list
of entries; an entry is a star, a value or a range, with or without a step, and
months and weekdays have names. Sunday is 0 and 7.
-/

namespace Manus

section Words

/-- The blanks of a text. -/
def isBlankChar (c : Char) : Bool :=
  decide (c.toNat ∈ [0x9, 0xa, 0xb, 0xc, 0xd, 0x20, 0xa0, 0x1680, 0x2028, 0x2029, 0x202f, 0x205f,
    0x3000, 0xfeff]) || (decide (0x2000 ≤ c.toNat) && decide (c.toNat ≤ 0x200a))

def trimBlanks (text : List Char) : List Char :=
  (text.dropWhile isBlankChar).rdropWhile isBlankChar

/-- What stands between the blanks. -/
def blankSeparated (text : List Char) : List (List Char) :=
  (text.splitOnP isBlankChar).filter (· ≠ [])

theorem blankSeparated_cons {c : Char} (hc : isBlankChar c = true) (text : List Char) :
    blankSeparated (c :: text) = blankSeparated text := by
  simp [blankSeparated, List.splitOnP_cons_eq_if_modifyHead, hc]

theorem blankSeparated_append_cons {c : Char} (hc : isBlankChar c = true) {word : List Char}
    (hword : ∀ x ∈ word, isBlankChar x = false) (hne : word ≠ []) (text : List Char) :
    blankSeparated (word ++ c :: text) = word :: blankSeparated text := by
  rw [blankSeparated, List.splitOnP_append_cons_of_forall_mem hword c hc, blankSeparated,
    List.filter_cons_of_pos (by simpa using hne)]

theorem blankSeparated_word {word : List Char} (hword : ∀ x ∈ word, isBlankChar x = false)
    (hne : word ≠ []) : blankSeparated word = [word] := by
  rw [blankSeparated, List.splitOnP_eq_singleton hword,
    List.filter_cons_of_pos (by simpa using hne)]
  rfl

theorem blankSeparated_dropWhile (text : List Char) :
    blankSeparated (text.dropWhile isBlankChar) = blankSeparated text := by
  induction text with
  | nil => rfl
  | cons c text ih =>
    cases hc : isBlankChar c with
    | true => rw [List.dropWhile_cons_of_pos hc, ih, blankSeparated_cons hc]
    | false => rw [List.dropWhile_cons_of_neg (by simp [hc])]

theorem blankSeparated_rdropWhile (text : List Char) :
    blankSeparated (text.rdropWhile isBlankChar) = blankSeparated text := by
  induction text using List.reverseRecOn with
  | nil => rfl
  | append_singleton text c ih =>
    cases hc : isBlankChar c with
    | true =>
      rw [List.rdropWhile_concat_pos _ _ _ hc, ih]
      simp [blankSeparated, List.splitOnP_append_cons _ _ hc]
    | false => rw [List.rdropWhile_concat_neg _ _ _ (by simp [hc])]

theorem isBlankChar_of_mem_blankSeparated {text word : List Char} (h : word ∈ blankSeparated text)
    {c : Char} (hc : c ∈ word) : isBlankChar c = false :=
  (mem_splitOnP (List.mem_filter.mp h).1 hc).2

theorem trimBlanks_of_word {word : List Char} (h : ∀ c ∈ word, isBlankChar c = false) :
    trimBlanks word = word := by
  have hdrop : word.dropWhile isBlankChar = word := by
    cases word with
    | nil => rfl
    | cons c word => exact List.dropWhile_cons_of_neg (by simp [h c List.mem_cons_self])
  rw [trimBlanks, hdrop, List.rdropWhile_eq_self_iff]
  intro hne hblank
  rw [h _ (List.getLast_mem hne)] at hblank
  cases hblank

theorem blankSeparated_trimBlanks (text : List Char) :
    blankSeparated (trimBlanks text) = blankSeparated text := by
  rw [trimBlanks, blankSeparated_rdropWhile, blankSeparated_dropWhile]

end Words

section Numerals

def isNumeral (text : List Char) : Bool := !text.isEmpty && text.all Char.isDigit

/-- The value of a text of digits. -/
def numeralValue (text : List Char) : Option ℕ :=
  if isNumeral text then some (Nat.ofDigitChars 10 text 0) else none

theorem isNumeral_toDigits (n : ℕ) : isNumeral (Nat.toDigits 10 n) = true := by
  have hne : Nat.toDigits 10 n ≠ [] := List.ne_nil_of_length_pos Nat.length_toDigits_pos
  simp only [isNumeral, Bool.and_eq_true, Bool.not_eq_true', List.isEmpty_eq_false_iff,
    List.all_eq_true]
  exact ⟨hne, fun c hc => Nat.isDigit_of_mem_toDigits (by decide) (by decide) hc⟩

theorem numeralValue_toDigits (n : ℕ) : numeralValue (Nat.toDigits 10 n) = some n := by
  rw [numeralValue, if_pos (isNumeral_toDigits n), Nat.ofDigitChars_ten_toDigits]

theorem isDigit_of_isNumeral {text : List Char} (h : isNumeral text = true) :
    ∀ c ∈ text, c.isDigit = true := by
  simp only [isNumeral, Bool.and_eq_true, List.all_eq_true] at h
  exact h.2

theorem ne_nil_of_isNumeral {text : List Char} (h : isNumeral text = true) : text ≠ [] := by
  rintro rfl
  cases h

theorem isBlankChar_of_isDigit {c : Char} (h : c.isDigit = true) : isBlankChar c = false := by
  have hc : 48 ≤ c.toNat ∧ c.toNat ≤ 57 := by
    simp only [Char.isDigit, Bool.and_eq_true, decide_eq_true_eq, ge_iff_le,
      UInt32.le_iff_toNat_le] at h
    exact h
  simp only [isBlankChar, List.mem_cons, List.not_mem_nil, or_false, Bool.or_eq_false_iff,
    decide_eq_false_iff_not, Bool.and_eq_false_iff]
  omega

theorem isNumeral_isBlankChar {text : List Char} (h : isNumeral text = true) :
    ∀ c ∈ text, isBlankChar c = false :=
  fun c hc => isBlankChar_of_isDigit (isDigit_of_isNumeral h c hc)

theorem not_mem_of_isNumeral {text : List Char} (h : isNumeral text = true) {c : Char}
    (hc : c.isDigit = false) : c ∉ text :=
  fun hmem => by simp [isDigit_of_isNumeral h c hmem] at hc

end Numerals

section Fields

/-- A field: its least value, the greatest one that a star stands for, the greatest one that may be
written, and the names of its values. -/
structure CronField where
  low : ℕ
  high : ℕ
  limit : ℕ
  names : List String := []

namespace CronField

def minute : CronField := ⟨0, 59, 59, []⟩

def hour : CronField := ⟨0, 23, 23, []⟩

def dayOfMonth : CronField := ⟨1, 31, 31, []⟩

def month : CronField := ⟨1, 12, 12, ["jan", "feb", "mar", "apr", "may", "jun", "jul", "aug", "sep",
  "oct", "nov", "dec"]⟩

def weekday : CronField := ⟨0, 6, 7, ["sun", "mon", "tue", "wed", "thu", "fri", "sat"]⟩

variable (field : CronField)

/-- A number in range, or a name. -/
def value (text : List Char) : Option ℕ :=
  match numeralValue text with
  | some n => if field.low ≤ n ∧ n ≤ field.limit then some n else none
  | none => (field.names.idxOf? (String.ofList (text.map Char.toLower))).map (· + field.low)

/-- The first and the last value of an entry; a value with a step goes on to the end. -/
def bounds (stepped : Bool) (text : List Char) : Option (ℕ × ℕ) :=
  if text = ['*'] then some (field.low, field.high)
  else match text.splitOn '-' with
    | [first] => (field.value first).map fun n =>
        (n, if stepped then max n field.high else n)
    | [first, last] =>
      (field.value first).bind fun m => (field.value last).bind fun n =>
        if m ≤ n then some (m, n) else none
    | _ => none

def progression (step : ℕ) (bounds : ℕ × ℕ) : List ℕ :=
  (List.range' bounds.1 (bounds.2 + 1 - bounds.1)).filter fun n => (n - bounds.1) % step = 0

def entryValues (text : List Char) : Option (List ℕ) :=
  match text.splitOn '/' with
  | [range] => (field.bounds false range).map (progression 1)
  | [range, step] =>
    (numeralValue step).bind fun n =>
      if n = 0 then none else (field.bounds true range).map (progression n)
  | _ => none

def values (text : List Char) : Option (List ℕ) :=
  ((text.splitOn ',').mapM field.entryValues).map List.flatten

variable {field} {text : List Char} {n : ℕ}

theorem entryValues_numeral (h : numeralValue text = some n) (hlow : field.low ≤ n)
    (hlimit : n ≤ field.limit) : field.entryValues text = some [n] := by
  have htext : isNumeral text = true := by
    unfold numeralValue at h
    split at h
    · assumption
    · cases h
  have hstar : text ≠ ['*'] := by
    rintro rfl
    cases htext
  have hslash : text.splitOn '/' = [text] :=
    List.splitOn_eq_singleton (not_mem_of_isNumeral htext rfl)
  have hdash : text.splitOn '-' = [text] :=
    List.splitOn_eq_singleton (not_mem_of_isNumeral htext rfl)
  simp only [entryValues, hslash, bounds, hstar, if_false, hdash, value, h, hlow, hlimit, and_self,
    if_true, Option.map_some, Bool.false_eq_true]
  simp [progression]

theorem entryValues_of_isNumeral {values : List ℕ} (htext : isNumeral text = true)
    (h : field.entryValues text = some values) :
    ∃ n, numeralValue text = some n ∧ field.low ≤ n ∧ n ≤ field.limit ∧ values = [n] := by
  have hvalue : numeralValue text = some (Nat.ofDigitChars 10 text 0) := if_pos htext
  by_cases hrange : field.low ≤ Nat.ofDigitChars 10 text 0 ∧
      Nat.ofDigitChars 10 text 0 ≤ field.limit
  · rw [entryValues_numeral hvalue hrange.1 hrange.2] at h
    exact ⟨_, hvalue, hrange.1, hrange.2, (Option.some.inj h).symm⟩
  · have hstar : text ≠ ['*'] := by
      rintro rfl
      cases htext
    simp only [entryValues, List.splitOn_eq_singleton (not_mem_of_isNumeral htext (c := '/') rfl),
      bounds, hstar, if_false,
      List.splitOn_eq_singleton (not_mem_of_isNumeral htext (c := '-') rfl),
      value, hvalue, hrange] at h
    cases h

theorem bounds_le (hfield : field.low ≤ field.high) {stepped : Bool} {range : ℕ × ℕ}
    (h : field.bounds stepped text = some range) : range.1 ≤ range.2 := by
  unfold bounds at h
  split at h
  · cases h
    exact hfield
  · split at h
    · obtain ⟨n, -, rfl⟩ := Option.map_eq_some_iff.mp h
      cases stepped
      · exact le_rfl
      · exact le_max_left _ _
    · obtain ⟨m, -, h⟩ := Option.bind_eq_some_iff.mp h
      obtain ⟨n, -, h⟩ := Option.bind_eq_some_iff.mp h
      split at h
      · cases h
        assumption
      · cases h
    · cases h

theorem mem_progression {step : ℕ} {range : ℕ × ℕ} (h : range.1 ≤ range.2) :
    range.1 ∈ progression step range := by
  simp only [progression, List.mem_filter, List.mem_range'_1, Nat.sub_self, Nat.zero_mod,
    decide_true, and_true]
  omega

theorem entryValues_ne_nil (hfield : field.low ≤ field.high) {values : List ℕ}
    (h : field.entryValues text = some values) : values ≠ [] := by
  unfold entryValues at h
  split at h
  · obtain ⟨range, hrange, rfl⟩ := Option.map_eq_some_iff.mp h
    exact List.ne_nil_of_mem (mem_progression (bounds_le hfield hrange))
  · obtain ⟨step, -, h⟩ := Option.bind_eq_some_iff.mp h
    split at h
    · cases h
    · obtain ⟨range, hrange, rfl⟩ := Option.map_eq_some_iff.mp h
      exact List.ne_nil_of_mem (mem_progression (bounds_le hfield hrange))
  · cases h

theorem mapM_eq_some {α β : Type} {f : α → Option β} {l : List α} {values : List β} :
    l.mapM f = some values ↔ List.Forall₂ (fun a b => f a = some b) l values := by
  induction l generalizing values with
  | nil => simp [List.forall₂_nil_left_iff, eq_comm]
  | cons a l ih =>
    rw [List.mapM_cons]
    cases values with
    | nil =>
      rw [List.forall₂_nil_right_iff]
      cases f a <;> cases l.mapM f <;> simp
    | cons b values =>
      rw [List.forall₂_cons, ← ih]
      cases f a <;> cases l.mapM f <;> simp

theorem mem_values {values : List ℕ} (h : field.values text = some values) :
    n ∈ values ↔ ∃ entry ∈ text.splitOn ',',
      ∃ own, field.entryValues entry = some own ∧ n ∈ own := by
  obtain ⟨parts, hparts, rfl⟩ := Option.map_eq_some_iff.mp h
  have hall := mapM_eq_some.mp hparts
  clear h hparts
  generalize text.splitOn ',' = entries at *
  induction hall with
  | nil => simp
  | @cons entry own entries parts hown hrest ih =>
    simp only [List.flatten_cons, List.mem_append, List.mem_cons, exists_eq_or_imp, ih, hown,
      Option.some.injEq, exists_eq_left']

theorem entryValues_of_values {values : List ℕ} (h : field.values text = some values)
    {entry : List Char} (hentry : entry ∈ text.splitOn ',') :
    ∃ own, field.entryValues entry = some own := by
  obtain ⟨parts, hparts, -⟩ := Option.map_eq_some_iff.mp h
  have hall := mapM_eq_some.mp hparts
  clear h hparts
  generalize text.splitOn ',' = entries at *
  induction hall with
  | nil => cases hentry
  | @cons first own entries parts hown hrest ih =>
    rcases List.mem_cons.mp hentry with rfl | hentry
    · exact ⟨own, hown⟩
    · exact ih hentry

theorem values_numbers {numbers : List ℕ} (hne : numbers ≠ [])
    (hrange : ∀ n ∈ numbers, field.low ≤ n ∧ n ≤ field.limit) :
    field.values ([','].intercalate (numbers.map (Nat.toDigits 10))) = some numbers := by
  have hsplit : ([','].intercalate (numbers.map (Nat.toDigits 10))).splitOn ',' =
      numbers.map (Nat.toDigits 10) := by
    refine List.splitOn_intercalate _ (fun digits hdigits => ?_) (by simpa using hne)
    obtain ⟨n, -, rfl⟩ := List.mem_map.mp hdigits
    exact not_mem_of_isNumeral (isNumeral_toDigits n) rfl
  have hparts : (numbers.map (Nat.toDigits 10)).mapM field.entryValues =
      some (numbers.map fun n => [n]) := by
    rw [mapM_eq_some, List.forall₂_map_left_iff, List.forall₂_map_right_iff,
      List.forall₂_same]
    intro n hn
    exact entryValues_numeral (numeralValue_toDigits n) (hrange n hn).1 (hrange n hn).2
  rw [values, hsplit, hparts, Option.map_some, ← List.flatMap_def, List.flatMap_singleton']

theorem values_of_isNumeral {values : List ℕ} (htext : isNumeral text = true)
    (h : field.values text = some values) :
    ∃ n, numeralValue text = some n ∧ field.low ≤ n ∧ n ≤ field.limit ∧ values = [n] := by
  obtain ⟨parts, hparts, rfl⟩ := Option.map_eq_some_iff.mp h
  rw [List.splitOn_eq_singleton (not_mem_of_isNumeral htext rfl), mapM_eq_some] at hparts
  cases hparts with
  | cons hown hnil =>
    cases hnil
    obtain ⟨n, hn, hlow, hlimit, rfl⟩ := entryValues_of_isNumeral htext hown
    exact ⟨n, hn, hlow, hlimit, rfl⟩

theorem values_toDigits (hlow : field.low ≤ n) (hlimit : n ≤ field.limit) :
    field.values (Nat.toDigits 10 n) = some [n] := by
  have hsingle := values_numbers (List.cons_ne_nil n [])
    (List.forall_mem_singleton.mpr (⟨hlow, hlimit⟩ : field.low ≤ n ∧ n ≤ field.limit))
  simpa using hsingle

end CronField

end Fields

section Expressions

/-- An expression by what its fields stand for. A star for the day leaves it to the weekday, and the
other way round; otherwise either of the two will do. -/
structure Cron where
  minutes : List ℕ
  hours : List ℕ
  days : List ℕ
  months : List ℕ
  weekdays : List ℕ
  anyDay : Bool
  anyWeekday : Bool

def startsWithStar (text : List Char) : Bool := text.head? == some '*'

/-- The five fields of an expression. -/
def cronOfFields : List (List Char) → Option Cron
  | [minute, hour, dayOfMonth, month, weekday] =>
    (CronField.minute.values minute).bind fun minutes =>
    (CronField.hour.values hour).bind fun hours =>
    (CronField.dayOfMonth.values dayOfMonth).bind fun days =>
    (CronField.month.values month).bind fun months =>
    (CronField.weekday.values weekday).map fun weekdays =>
      ⟨minutes, hours, days, months, weekdays.map (· % 7), startsWithStar dayOfMonth,
        startsWithStar weekday⟩
  | _ => none

def readCron (expression : String) : Option Cron :=
  cronOfFields (blankSeparated expression.toList)

/-- Minutes since the epoch, a Thursday. -/
abbrev Minute := ℕ

namespace Minute

variable (t : Minute)

def minute : ℕ := t % 60

def hour : ℕ := t / 60 % 24

def weekday : ℕ := (t / 1440 + 4) % 7

/-- The day of the era that begins on the first of March of the year 0, after 400 years again. -/
def dayOfEra : ℕ := (t / 1440 + 719468) % 146097

/-- The day of the year that begins on the first of March. -/
def dayOfYear : ℕ :=
  let day := dayOfEra t
  let year := (day - day / 1460 + day / 36524 - day / 146096) / 365
  day - (365 * year + year / 4 - year / 100)

def dayOfMonth : ℕ := dayOfYear t - (153 * ((5 * dayOfYear t + 2) / 153) + 2) / 5 + 1

def month : ℕ :=
  let march := (5 * dayOfYear t + 2) / 153
  if march < 10 then march + 3 else march - 9

theorem exists_minute {m h w : ℕ} (hm : m ≤ 59) (hh : h ≤ 23) (hw : w < 7) :
    ∃ t, minute t = m ∧ hour t = h ∧ weekday t = w ∧ month t = 1 ∧ 1 ≤ dayOfMonth t ∧
      dayOfMonth t ≤ 7 := by
  have hday : ∃ day < 7, (day + 4) % 7 = w := ⟨(w + 3) % 7, by omega, by omega⟩
  obtain ⟨day, hlt, hweekday⟩ := hday
  have hdiv : (day * 1440 + h * 60 + m) / 1440 = day := by omega
  refine ⟨day * 1440 + h * 60 + m, ?_, ?_, ?_, ?_⟩
  · unfold minute
    omega
  · unfold hour
    omega
  · rw [weekday, hdiv, hweekday]
  · simp only [month, dayOfMonth, dayOfYear, dayOfEra, hdiv]
    interval_cases day <;> decide

end Minute

def Cron.firesAt (cron : Cron) (t : Minute) : Bool :=
  cron.minutes.contains (Minute.minute t) && cron.hours.contains (Minute.hour t) &&
    cron.months.contains (Minute.month t) &&
    if cron.anyDay || cron.anyWeekday then
      cron.days.contains (Minute.dayOfMonth t) && cron.weekdays.contains (Minute.weekday t)
    else cron.days.contains (Minute.dayOfMonth t) || cron.weekdays.contains (Minute.weekday t)

theorem cronOfFields_eq_some {fields : List (List Char)} {cron : Cron}
    (h : cronOfFields fields = some cron) : ∃ minute hour dayOfMonth month weekday,
      fields = [minute, hour, dayOfMonth, month, weekday] ∧ ∃ minutes hours days months weekdays,
        CronField.minute.values minute = some minutes ∧ CronField.hour.values hour = some hours ∧
        CronField.dayOfMonth.values dayOfMonth = some days ∧
        CronField.month.values month = some months ∧
        CronField.weekday.values weekday = some weekdays ∧
        cron = ⟨minutes, hours, days, months, weekdays.map (· % 7), startsWithStar dayOfMonth,
          startsWithStar weekday⟩ := by
  unfold cronOfFields at h
  split at h
  · obtain ⟨minutes, hminutes, h⟩ := Option.bind_eq_some_iff.mp h
    obtain ⟨hours, hhours, h⟩ := Option.bind_eq_some_iff.mp h
    obtain ⟨days, hdays, h⟩ := Option.bind_eq_some_iff.mp h
    obtain ⟨months, hmonths, h⟩ := Option.bind_eq_some_iff.mp h
    obtain ⟨weekdays, hweekdays, rfl⟩ := Option.map_eq_some_iff.mp h
    exact ⟨_, _, _, _, _, rfl, minutes, hours, days, months, weekdays, hminutes, hhours, hdays,
      hmonths, hweekdays, rfl⟩
  · cases h

theorem firesAt_weekdays_iff {m h : ℕ} (hm : m ≤ 59) (hh : h ≤ 23) {days months : List ℕ}
    (hdays : CronField.dayOfMonth.values ['*'] = some days)
    (hmonths : CronField.month.values ['*'] = some months) {weekdays weekdays' : List ℕ}
    (h₁ : ∀ w ∈ weekdays, w < 7) (h₂ : ∀ w ∈ weekdays', w < 7) {star star' : Bool} :
    (∀ t, Cron.firesAt ⟨[m], [h], days, months, weekdays', true, star'⟩ t =
      Cron.firesAt ⟨[m], [h], days, months, weekdays, true, star⟩ t) ↔
      ∀ w, w ∈ weekdays' ↔ w ∈ weekdays := by
  have hdays : days = List.range' 1 31 := Option.some.inj (hdays.symm.trans (by decide))
  have hmonths : months = List.range' 1 12 := Option.some.inj (hmonths.symm.trans (by decide))
  constructor
  · intro hsame w
    by_cases hw : w < 7
    · obtain ⟨t, rfl, rfl, rfl, hmonth, hday⟩ := Minute.exists_minute hm hh hw
      have hmem : Minute.dayOfMonth t ∈ days := by
        rw [hdays, List.mem_range'_1]
        omega
      have hsame := hsame t
      simp only [Cron.firesAt, List.contains_cons, BEq.rfl, Bool.true_or, hmonth, hmonths,
        List.contains_iff_mem.mpr hmem, Bool.true_and] at hsame
      rw [← List.contains_iff_mem, ← List.contains_iff_mem]
      exact Bool.eq_iff_iff.mp hsame
    · exact ⟨fun hmem => absurd (h₂ w hmem) hw, fun hmem => absurd (h₁ w hmem) hw⟩
  · intro hsame t
    have hcontains : weekdays'.contains (Minute.weekday t) = weekdays.contains (Minute.weekday t) :=
      by rw [Bool.eq_iff_iff, List.contains_iff_mem, List.contains_iff_mem, hsame]
    simp only [Cron.firesAt, hcontains, Bool.true_or, if_true]

end Expressions

end Manus
