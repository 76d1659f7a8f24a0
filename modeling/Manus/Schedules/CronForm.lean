import Manus.Lib.Cron

/-! # The schedule form

The form shows an expression as an hour, a day or a week where it has that shape,
and as it stands otherwise. A week is rebuilt from the weekdays that are given by
number: an entry of another kind is lost, so that the schedule fires on other days
unless the numbers name the same ones.
-/

namespace Manus.Schedules

inductive DayValue where
  | mon | tue | wed | thu | fri | sat | sun
  deriving DecidableEq, Repr

def dayOptions : List (DayValue × ℕ) :=
  [(.mon, 1), (.tue, 2), (.wed, 3), (.thu, 4), (.fri, 5), (.sat, 6), (.sun, 0)]

inductive Frequency where
  | hourly | daily | weekly | custom
  deriving DecidableEq, Repr

structure ScheduleCronValues where
  frequency : Frequency
  minute : Option String := none
  time : Option String := none
  days : Option (List DayValue) := none
  customCron : Option String := none
  deriving DecidableEq, Repr

/-- `Number(text)`: digits are their value, nothing is zero, and what cron writes otherwise is no
number. -/
def number (text : String) : Option ℕ :=
  match trimBlanks text.toList with
  | [] => some 0
  | text => numeralValue text

/-- `String(n)`. -/
def numberText : Option ℕ → String
  | none => "NaN"
  | some n => toString n

def pad2 (n : Option ℕ) : String :=
  String.ofList (List.replicate (2 - (numberText n).length) '0' ++ (numberText n).toList)

def buildCronExpression (values : ScheduleCronValues) : String :=
  let parts := ((values.time.getD "00:00").toList.splitOn ':').map String.ofList
  let hour := number (parts[0]?.getD "0")
  let minute := number (parts[1]?.getD "0")
  match values.frequency with
  | .custom => String.ofList (trimBlanks (values.customCron.getD "").toList)
  | .hourly => numberText (number (values.minute.getD "0")) ++ " * * * *"
  | .daily => numberText minute ++ " " ++ numberText hour ++ " * * *"
  | .weekly =>
    let dayNumbers := ((values.days.getD []).filterMap fun day =>
      (dayOptions.find? fun option => option.1 == day).map Prod.snd).mergeSort (· ≤ ·)
    let dayField := if dayNumbers.length > 0 then ",".intercalate (dayNumbers.map toString) else "*"
    numberText minute ++ " " ++ numberText hour ++ " * * " ++ dayField

/-- `expression.trim().split(/\s+/)` has five parts when five are separated by blanks. -/
def parseCronExpression (expression : String) : ScheduleCronValues :=
  match blankSeparated (trimBlanks expression.toList) with
  | [minute, hour, dom, month, dow] =>
    if dom = ['*'] ∧ month = ['*'] ∧ hour = ['*'] ∧ isNumeral minute = true ∧ dow = ['*'] then
      { frequency := .hourly, minute := some (String.ofList minute) }
    else if dom = ['*'] ∧ month = ['*'] ∧ isNumeral minute = true ∧ isNumeral hour = true then
      let time := pad2 (number (String.ofList hour)) ++ ":" ++ pad2 (number (String.ofList minute))
      if dow = ['*'] then { frequency := .daily, time := some time }
      else
        let days := (dow.splitOn ',').filterMap fun n =>
          (dayOptions.find? fun option => some option.2 == number (String.ofList n)).map Prod.fst
        { frequency := .weekly
          time := some time
          days := some (if days.length > 0 then days else [.mon]) }
    else { frequency := .custom, customCron := some expression }
  | _ => { frequency := .custom, customCron := some expression }

/-- The weekdays that the form keeps: the ones given by number, and Monday when there are none. -/
def keptDays (dow : List Char) : List ℕ :=
  match (dow.splitOn ',').filterMap fun entry => (numeralValue entry).filter (· ≤ 6) with
  | [] => [1]
  | days => days

def daysKept (expression : String) : Bool :=
  match blankSeparated expression.toList with
  | [minute, hour, dom, month, dow] =>
    !(dom == ['*'] && month == ['*'] && isNumeral minute && isNumeral hour && dow != ['*']) ||
      (dow.splitOn ',').all fun entry =>
        ((CronField.weekday.entryValues entry).getD []).all fun day =>
          (keptDays dow).contains (day % 7)
  | _ => true

section Numbers

theorem number_word {text : List Char} (hne : text ≠ []) (h : ∀ c ∈ text, isBlankChar c = false) :
    number (String.ofList text) = numeralValue text := by
  unfold number
  rw [String.toList_ofList, trimBlanks_of_word h]
  cases text with
  | nil => exact absurd rfl hne
  | cons c text => rfl

theorem number_numeral {text : List Char} (h : isNumeral text = true) :
    number (String.ofList text) = numeralValue text :=
  number_word (ne_nil_of_isNumeral h) (isNumeral_isBlankChar h)

theorem toList_numberText (n : ℕ) : (numberText (some n)).toList = Nat.toDigits 10 n := by
  rw [numberText, Nat.toString_eq_ofList_toDigits, String.toList_ofList]

theorem toList_pad2 (n : ℕ) : ∃ k, (pad2 (some n)).toList =
    List.replicate k '0' ++ Nat.toDigits 10 n :=
  ⟨_, by rw [pad2, String.toList_ofList, toList_numberText]⟩

theorem isNumeral_pad2 (n : ℕ) : isNumeral (pad2 (some n)).toList = true := by
  obtain ⟨k, hk⟩ := toList_pad2 n
  have hdigits := isDigit_of_isNumeral (isNumeral_toDigits n)
  have hne := ne_nil_of_isNumeral (isNumeral_toDigits n)
  simp only [hk, isNumeral, Bool.and_eq_true, Bool.not_eq_true', List.isEmpty_eq_false_iff, ne_eq,
    List.append_eq_nil_iff, hne, and_false, not_false_eq_true, List.all_eq_true, List.mem_append,
    List.mem_replicate, true_and]
  rintro c (⟨-, rfl⟩ | hc)
  · rfl
  · exact hdigits c hc

theorem number_pad2 (n : ℕ) : number (String.ofList (pad2 (some n)).toList) = some n := by
  rw [number_numeral (isNumeral_pad2 n), numeralValue, if_pos (isNumeral_pad2 n)]
  obtain ⟨k, hk⟩ := toList_pad2 n
  rw [hk, Nat.ofDigitChars_append, Nat.ofDigitChars_replicate_zero, Nat.mul_zero,
    Nat.ofDigitChars_ten_toDigits]

theorem split_time (h m : ℕ) : (pad2 (some h) ++ ":" ++ pad2 (some m)).toList.splitOn ':' =
    [(pad2 (some h)).toList, (pad2 (some m)).toList] := by
  have hcolon : ∀ n, ':' ∉ (pad2 (some n)).toList :=
    fun n => not_mem_of_isNumeral (isNumeral_pad2 n) rfl
  have htext : (pad2 (some h) ++ ":" ++ pad2 (some m)).toList =
      (pad2 (some h)).toList ++ ':' :: (pad2 (some m)).toList := by simp
  rw [htext, List.splitOn_append_cons_self_of_not_mem (hcolon h),
    List.splitOn_eq_singleton (hcolon m)]

end Numbers

section Rebuilding

variable {m h : ℕ}

theorem isBlankChar_star : ∀ c ∈ ['*'], isBlankChar c = false := by
  rintro c hc
  obtain rfl := List.mem_singleton.mp hc
  rfl

theorem readCron_weekly {dayField : String} (hblank : ∀ c ∈ dayField.toList, isBlankChar c = false)
    (hne : dayField.toList ≠ []) :
    readCron (numberText (some m) ++ " " ++ numberText (some h) ++ " * * " ++ dayField) =
      cronOfFields [Nat.toDigits 10 m, Nat.toDigits 10 h, ['*'], ['*'], dayField.toList] := by
  have hword : ∀ n, ∀ c ∈ Nat.toDigits 10 n, isBlankChar c = false :=
    fun n => isNumeral_isBlankChar (isNumeral_toDigits n)
  have hdigits : ∀ n, Nat.toDigits 10 n ≠ [] := fun n => ne_nil_of_isNumeral (isNumeral_toDigits n)
  have htext : (numberText (some m) ++ " " ++ numberText (some h) ++ " * * " ++ dayField).toList =
      Nat.toDigits 10 m ++ ' ' :: (Nat.toDigits 10 h ++ ' ' :: (['*'] ++ ' ' :: (['*'] ++
        ' ' :: dayField.toList))) := by
    simp only [String.toList_append, toList_numberText, List.append_assoc]
    rfl
  rw [readCron, htext, blankSeparated_append_cons rfl (hword m) (hdigits m),
    blankSeparated_append_cons rfl (hword h) (hdigits h),
    blankSeparated_append_cons rfl isBlankChar_star (List.cons_ne_nil _ _),
    blankSeparated_append_cons rfl isBlankChar_star (List.cons_ne_nil _ _),
    blankSeparated_word hblank hne]

theorem readCron_daily :
    readCron (numberText (some m) ++ " " ++ numberText (some h) ++ " * * *") =
      cronOfFields [Nat.toDigits 10 m, Nat.toDigits 10 h, ['*'], ['*'], ['*']] := by
  have hweekly : readCron (numberText (some m) ++ " " ++ numberText (some h) ++ " * * " ++ "*") =
      cronOfFields [Nat.toDigits 10 m, Nat.toDigits 10 h, ['*'], ['*'], ['*']] :=
    readCron_weekly isBlankChar_star (List.cons_ne_nil _ _)
  rwa [String.append_assoc] at hweekly

theorem readCron_hourly : readCron (numberText (some m) ++ " * * * *") =
    cronOfFields [Nat.toDigits 10 m, ['*'], ['*'], ['*'], ['*']] := by
  have hwords : blankSeparated "* * * *".toList = [['*'], ['*'], ['*'], ['*']] := by decide
  have htext : (numberText (some m) ++ " * * * *").toList =
      Nat.toDigits 10 m ++ ' ' :: "* * * *".toList := by
    rw [String.toList_append, toList_numberText]
    rfl
  rw [readCron, htext, blankSeparated_append_cons rfl (isNumeral_isBlankChar (isNumeral_toDigits m))
    (ne_nil_of_isNumeral (isNumeral_toDigits m)), hwords]

theorem build_daily : buildCronExpression
      { frequency := .daily, time := some (pad2 (some h) ++ ":" ++ pad2 (some m)) } =
    numberText (some m) ++ " " ++ numberText (some h) ++ " * * *" := by
  simp only [buildCronExpression, Option.getD_some, split_time, List.map_cons, List.map_nil,
    List.getElem?_cons_zero, List.getElem?_cons_succ, number_pad2]

def dayNumber (day : DayValue) : Option ℕ :=
  (dayOptions.find? fun option => option.1 == day).map Prod.snd

theorem build_weekly {days : List DayValue} : buildCronExpression
      { frequency := .weekly, time := some (pad2 (some h) ++ ":" ++ pad2 (some m))
        days := some days } =
    numberText (some m) ++ " " ++ numberText (some h) ++ " * * " ++
      if ((days.filterMap dayNumber).mergeSort (· ≤ ·)).length > 0 then
        ",".intercalate (((days.filterMap dayNumber).mergeSort (· ≤ ·)).map toString) else "*" := by
  simp only [buildCronExpression, Option.getD_some, split_time, List.map_cons, List.map_nil,
    List.getElem?_cons_zero, List.getElem?_cons_succ, number_pad2]
  rfl

theorem dayNumber_of_number (n : Option ℕ) :
    ((dayOptions.find? fun option => some option.2 == n).map Prod.fst).bind dayNumber =
      n.filter (· ≤ 6) := by
  cases n with
  | none => rfl
  | some n =>
    by_cases hn : n ≤ 6
    · interval_cases n <;> rfl
    · have hnone : (dayOptions.find? fun option => some option.2 == some n) = none := by
        simp only [dayOptions, List.find?_eq_none, List.mem_cons, List.not_mem_nil, or_false,
          forall_eq_or_imp, forall_eq, beq_iff_eq, Option.some.injEq]
        omega
      rw [hnone]
      simp [Option.filter, hn]

theorem dayNumbers_kept {dow : List Char} (hdow : ∀ c ∈ dow, isBlankChar c = false)
    (hentries : ∀ entry ∈ dow.splitOn ',', entry ≠ []) (days : List DayValue)
    (hdays : days = (dow.splitOn ',').filterMap fun n =>
      (dayOptions.find? fun option => some option.2 == number (String.ofList n)).map Prod.fst) :
    (if days.length > 0 then days else [.mon]).filterMap dayNumber = keptDays dow := by
  have hnumbers : days.filterMap dayNumber =
      (dow.splitOn ',').filterMap fun entry => (numeralValue entry).filter (· ≤ 6) := by
    rw [hdays, List.filterMap_filterMap]
    refine List.filterMap_congr fun entry hentry => ?_
    have hword : ∀ c ∈ entry, isBlankChar c = false :=
      fun c hc => hdow c (mem_splitOnP hentry hc).1
    rw [dayNumber_of_number, number_word (hentries entry hentry) hword]
  unfold keptDays
  rw [← hnumbers]
  cases days with
  | nil => rfl
  | cons day days =>
    obtain ⟨n, hn⟩ : ∃ n, dayNumber day = some n := by cases day <;> exact ⟨_, rfl⟩
    rw [if_pos (by simp : (day :: days).length > 0), List.filterMap_cons_some hn]

theorem keptDays_ne_nil (dow : List Char) : keptDays dow ≠ [] := by
  unfold keptDays
  split
  · exact List.cons_ne_nil _ _
  · assumption

theorem keptDays_le (dow : List Char) : ∀ n ∈ keptDays dow, n ≤ 6 := by
  unfold keptDays
  split
  · decide
  · intro n hn
    obtain ⟨entry, -, hentry⟩ := List.mem_filterMap.mp hn
    simpa using (Option.filter_eq_some_iff.mp hentry).2

theorem toList_intercalate_numbers (numbers : List ℕ) :
    (",".intercalate (numbers.map toString)).toList =
      [','].intercalate (numbers.map (Nat.toDigits 10)) := by
  rw [String.toList_intercalate, List.map_map]
  congr 1
  refine List.map_congr_left fun n _ => ?_
  rw [Function.comp_apply, Nat.toString_eq_ofList_toDigits, String.toList_ofList]

theorem isBlankChar_numbers (numbers : List ℕ) :
    ∀ c ∈ [','].intercalate (numbers.map (Nat.toDigits 10)), isBlankChar c = false := by
  have hdigits : ∀ n, ∀ c ∈ Nat.toDigits 10 n, isBlankChar c = false :=
    fun n => isNumeral_isBlankChar (isNumeral_toDigits n)
  induction numbers with
  | nil => simp
  | cons n numbers ih =>
    cases numbers with
    | nil => simpa using hdigits n
    | cons n' numbers =>
      rw [List.map_cons, List.map_cons, List.intercalate_cons_cons]
      simp only [List.mem_append, List.mem_singleton]
      rintro c ((hc | rfl) | hc)
      · exact hdigits n c hc
      · rfl
      · exact ih c hc

/-- What the form rebuilds of a week. -/
theorem readCron_kept {dow : List Char} {days months : List ℕ} (hm : m ≤ 59) (hh : h ≤ 23)
    (hdays : CronField.dayOfMonth.values ['*'] = some days)
    (hmonths : CronField.month.values ['*'] = some months) :
    readCron (numberText (some m) ++ " " ++ numberText (some h) ++ " * * " ++
        ",".intercalate (((keptDays dow).mergeSort (· ≤ ·)).map toString)) =
      some ⟨[m], [h], days, months, ((keptDays dow).mergeSort (· ≤ ·)).map (· % 7), true,
        startsWithStar ([','].intercalate
          (((keptDays dow).mergeSort (· ≤ ·)).map (Nat.toDigits 10)))⟩ := by
  have hne : (keptDays dow).mergeSort (· ≤ ·) ≠ [] := by
    rw [ne_eq, ← List.length_eq_zero_iff, List.length_mergeSort, List.length_eq_zero_iff]
    exact keptDays_ne_nil dow
  have hle : ∀ n ∈ (keptDays dow).mergeSort (· ≤ ·), 0 ≤ n ∧ n ≤ 7 :=
    fun n hn => ⟨Nat.zero_le n, (keptDays_le dow n (List.mem_mergeSort.mp hn)).trans (by decide)⟩
  have hweekdays : CronField.weekday.values ([','].intercalate
      (((keptDays dow).mergeSort (· ≤ ·)).map (Nat.toDigits 10))) =
        some ((keptDays dow).mergeSort (· ≤ ·)) := CronField.values_numbers hne hle
  have hfield :
      [','].intercalate (((keptDays dow).mergeSort (· ≤ ·)).map (Nat.toDigits 10)) ≠ [] := by
    intro hnil
    rw [hnil] at hweekdays
    cases hweekdays
  have hminutes : CronField.minute.values (Nat.toDigits 10 m) = some [m] :=
    CronField.values_toDigits (Nat.zero_le m) hm
  have hhours : CronField.hour.values (Nat.toDigits 10 h) = some [h] :=
    CronField.values_toDigits (Nat.zero_le h) hh
  rw [readCron_weekly]
  · simp only [cronOfFields, toList_intercalate_numbers, hminutes, hhours, hdays, hmonths,
      hweekdays, Option.bind_some, Option.map_some]
    rfl
  · rw [toList_intercalate_numbers]
    exact isBlankChar_numbers _
  · rwa [toList_intercalate_numbers]

/-- The weekdays of a list are the kept ones when all of them are kept. -/
theorem mem_weekdays_iff {dow : List Char} {weekdays : List ℕ}
    (hweekdays : CronField.weekday.values dow = some weekdays) :
    (∀ w, w ∈ ((keptDays dow).mergeSort (· ≤ ·)).map (· % 7) ↔ w ∈ weekdays.map (· % 7)) ↔
      ∀ day ∈ weekdays, day % 7 ∈ keptDays dow := by
  have hsorted : ∀ w, w ∈ ((keptDays dow).mergeSort (· ≤ ·)).map (· % 7) ↔ w ∈ keptDays dow := by
    intro w
    simp only [List.mem_map, List.mem_mergeSort]
    constructor
    · rintro ⟨n, hn, rfl⟩
      rwa [Nat.mod_eq_of_lt (Nat.lt_succ_of_le (keptDays_le dow n hn))]
    · exact fun hw => ⟨w, hw, Nat.mod_eq_of_lt (Nat.lt_succ_of_le (keptDays_le dow w hw))⟩
  -- What is given by number is among the weekdays of the list.
  have hnumbers : ∀ n, n ∈ (dow.splitOn ',').filterMap
      (fun entry => (numeralValue entry).filter (· ≤ 6)) → n ∈ weekdays := by
    intro n hn
    obtain ⟨entry, hentry, hvalue⟩ := List.mem_filterMap.mp hn
    obtain ⟨hvalue, hle⟩ := Option.filter_eq_some_iff.mp hvalue
    refine (CronField.mem_values hweekdays).mpr ⟨entry, hentry, [n], ?_, List.mem_singleton_self n⟩
    exact CronField.entryValues_numeral hvalue (Nat.zero_le n)
      ((decide_eq_true_eq.mp hle).trans (by decide))
  simp only [hsorted]
  constructor
  · intro h day hday
    exact (h (day % 7)).mpr (List.mem_map_of_mem hday)
  · intro h w
    constructor
    · intro hw
      have hlt : w % 7 = w := Nat.mod_eq_of_lt (Nat.lt_succ_of_le (keptDays_le dow w hw))
      unfold keptDays at hw
      split at hw
      · rename_i hnil
        obtain ⟨entry, hentry⟩ := List.exists_mem_of_ne_nil _ (List.splitOn_ne_nil ',' dow)
        obtain ⟨own, hown⟩ := CronField.entryValues_of_values hweekdays hentry
        obtain ⟨day, hday⟩ := List.exists_mem_of_ne_nil _
          (CronField.entryValues_ne_nil (by decide) hown)
        have hmem := (CronField.mem_values hweekdays).mpr ⟨entry, hentry, own, hown, hday⟩
        have hkept := h day hmem
        rw [keptDays, hnil, List.mem_singleton] at hkept
        rw [List.mem_singleton.mp hw, ← hkept]
        exact List.mem_map_of_mem hmem
      · exact List.mem_map.mpr ⟨w, hnumbers w hw, hlt⟩
    · intro hw
      obtain ⟨day, hday, rfl⟩ := List.mem_map.mp hw
      exact h day hday

end Rebuilding

section Shapes

variable {minute hour dow : List Char} {minutes hours days months weekdays : List ℕ}
  (hminutes : CronField.minute.values minute = some minutes)
  (hhours : CronField.hour.values hour = some hours)
  (hdays : CronField.dayOfMonth.values ['*'] = some days)
  (hmonths : CronField.month.values ['*'] = some months)
  (hweekdays : CronField.weekday.values dow = some weekdays)

include hminutes

theorem rebuilt_hourly (hminute : isNumeral minute = true) :
    readCron (buildCronExpression
        { frequency := .hourly, minute := some (String.ofList minute) }) =
      cronOfFields [minute, ['*'], ['*'], ['*'], ['*']] := by
  obtain ⟨m, hm, -, hlimit, rfl⟩ := CronField.values_of_isNumeral hminute hminutes
  have hbuild : buildCronExpression
        { frequency := .hourly, minute := some (String.ofList minute) } =
      numberText (some m) ++ " * * * *" := by
    simp only [buildCronExpression, Option.getD_some, number_numeral hminute, hm]
  have hrebuilt : CronField.minute.values (Nat.toDigits 10 m) = some [m] :=
    CronField.values_toDigits (Nat.zero_le m) hlimit
  simp only [hbuild, readCron_hourly, cronOfFields, hrebuilt, hminutes]

include hhours

theorem rebuilt_daily (hminute : isNumeral minute = true) (hhour : isNumeral hour = true) :
    readCron (buildCronExpression
        { frequency := .daily
          time := some (pad2 (number (String.ofList hour)) ++ ":" ++
            pad2 (number (String.ofList minute))) }) =
      cronOfFields [minute, hour, ['*'], ['*'], ['*']] := by
  obtain ⟨m, hm, -, hmlimit, rfl⟩ := CronField.values_of_isNumeral hminute hminutes
  obtain ⟨h, hh, -, hhlimit, rfl⟩ := CronField.values_of_isNumeral hhour hhours
  have hminutes' : CronField.minute.values (Nat.toDigits 10 m) = some [m] :=
    CronField.values_toDigits (Nat.zero_le m) hmlimit
  have hhours' : CronField.hour.values (Nat.toDigits 10 h) = some [h] :=
    CronField.values_toDigits (Nat.zero_le h) hhlimit
  rw [number_numeral hminute, number_numeral hhour, hm, hh, build_daily]
  simp only [readCron_daily, cronOfFields, hminutes', hhours', hminutes, hhours]

include hdays hmonths hweekdays

theorem rebuilt_weekly_iff (hminute : isNumeral minute = true) (hhour : isNumeral hour = true)
    (hblank : ∀ c ∈ dow, isBlankChar c = false) {star : Bool} :
    (∃ cron', readCron (buildCronExpression
        { frequency := .weekly
          time := some (pad2 (number (String.ofList hour)) ++ ":" ++
            pad2 (number (String.ofList minute)))
          days := some (if ((dow.splitOn ',').filterMap fun n => (dayOptions.find? fun option =>
              some option.2 == number (String.ofList n)).map Prod.fst).length > 0
            then (dow.splitOn ',').filterMap fun n => (dayOptions.find? fun option =>
              some option.2 == number (String.ofList n)).map Prod.fst
            else [.mon]) }) = some cron' ∧
      ∀ t, cron'.firesAt t =
        Cron.firesAt ⟨minutes, hours, days, months, weekdays.map (· % 7), true, star⟩ t) ↔
      ∀ day ∈ weekdays, day % 7 ∈ keptDays dow := by
  obtain ⟨m, hm, -, hmlimit, rfl⟩ := CronField.values_of_isNumeral hminute hminutes
  obtain ⟨h, hh, -, hhlimit, rfl⟩ := CronField.values_of_isNumeral hhour hhours
  have hentries : ∀ entry ∈ dow.splitOn ',', entry ≠ [] := by
    rintro entry hentry rfl
    obtain ⟨own, hown⟩ := CronField.entryValues_of_values hweekdays hentry
    cases hown
  have hsome : ((keptDays dow).mergeSort (· ≤ ·)).length > 0 := by
    rw [List.length_mergeSort]
    exact List.length_pos_iff.mpr (keptDays_ne_nil dow)
  have hlt : ∀ days : List ℕ, ∀ w ∈ days.map (· % 7), w < 7 := by
    intro days w hw
    obtain ⟨n, -, rfl⟩ := List.mem_map.mp hw
    exact Nat.mod_lt _ (by decide)
  rw [number_numeral hminute, number_numeral hhour, hm, hh, build_weekly,
    dayNumbers_kept hblank hentries _ rfl, if_pos hsome,
    readCron_kept hmlimit hhlimit hdays hmonths]
  simp only [Option.some.injEq, exists_eq_left']
  rw [firesAt_weekdays_iff hmlimit hhlimit hdays hmonths (hlt _) (hlt _),
    mem_weekdays_iff hweekdays]

end Shapes

theorem daysKept_entries {dow : List Char} {weekdays : List ℕ}
    (hweekdays : CronField.weekday.values dow = some weekdays) :
    (∀ day ∈ weekdays, day % 7 ∈ keptDays dow) ↔ ((dow.splitOn ',').all fun entry =>
      ((CronField.weekday.entryValues entry).getD []).all fun day =>
        (keptDays dow).contains (day % 7)) = true := by
  simp only [List.all_eq_true, List.contains_iff_mem]
  constructor
  · intro h entry hentry day hday
    obtain ⟨own, hown⟩ := CronField.entryValues_of_values hweekdays hentry
    rw [hown, Option.getD_some] at hday
    exact h day ((CronField.mem_values hweekdays).mpr ⟨entry, hentry, own, hown, hday⟩)
  · intro h day hday
    obtain ⟨entry, hentry, own, hown, hmem⟩ := (CronField.mem_values hweekdays).mp hday
    exact h entry hentry day (by rwa [hown, Option.getD_some])

/-- A schedule that is shown in the form and saved fires as before exactly when the form keeps all
weekdays that its expression names. -/
theorem rebuilt_fires_iff (expression : String) (cron : Cron)
    (hcron : readCron expression = some cron) :
    (∃ cron', readCron (buildCronExpression (parseCronExpression expression)) = some cron' ∧
      ∀ t, cron'.firesAt t = cron.firesAt t) ↔ daysKept expression = true := by
  obtain ⟨minute, hour, dom, month, dow, hfields, minutes, hours, days, months, weekdays, hminutes,
    hhours, hdays, hmonths, hweekdays, rfl⟩ := cronOfFields_eq_some hcron
  have hblank : ∀ c ∈ dow, isBlankChar c = false := by
    have hmem : dow ∈ blankSeparated expression.toList := by simp [hfields]
    exact fun c hc => isBlankChar_of_mem_blankSeparated hmem hc
  have hread : readCron expression = cronOfFields [minute, hour, dom, month, dow] := by
    rw [readCron, hfields]
  unfold parseCronExpression daysKept
  rw [blankSeparated_trimBlanks, hfields]
  dsimp only
  by_cases hhourly :
      dom = ['*'] ∧ month = ['*'] ∧ hour = ['*'] ∧ isNumeral minute = true ∧ dow = ['*']
  · rw [if_pos hhourly]
    obtain ⟨rfl, rfl, rfl, hminute, rfl⟩ := hhourly
    rw [rebuilt_hourly hminutes hminute, ← hread]
    exact iff_of_true ⟨_, hcron, fun _ => rfl⟩ (by simp)
  rw [if_neg hhourly]
  by_cases hclock : dom = ['*'] ∧ month = ['*'] ∧ isNumeral minute = true ∧ isNumeral hour = true
  · rw [if_pos hclock]
    obtain ⟨rfl, rfl, hminute, hhour⟩ := hclock
    by_cases hdow : dow = ['*']
    · subst hdow
      rw [if_pos rfl, rebuilt_daily hminutes hhours hminute hhour, ← hread]
      exact iff_of_true ⟨_, hcron, fun _ => rfl⟩ (by simp)
    · rw [if_neg hdow]
      refine (rebuilt_weekly_iff hminutes hhours hdays hmonths hweekdays hminute hhour hblank).trans
        ((daysKept_entries hweekdays).trans ?_)
      simp [hminute, hhour, hdow]
  · rw [if_neg hclock]
    have hcustom : readCron (buildCronExpression
        { frequency := .custom, customCron := some expression }) = readCron expression := by
      simp only [buildCronExpression, Option.getD_some, readCron, String.toList_ofList,
        blankSeparated_trimBlanks]
    refine iff_of_true ⟨_, hcustom.trans hcron, fun _ => rfl⟩ ?_
    have hother :
        (dom == ['*'] && month == ['*'] && isNumeral minute && isNumeral hour) = false := by
      refine Bool.eq_false_iff.mpr fun h => hclock ?_
      simpa only [Bool.and_eq_true, beq_iff_eq, and_assoc] using h
    rw [hother]
    rfl

theorem numberedDays_kept : ∃ cron, readCron "30 14 * * 5,1,3" = some cron ∧
    ∃ cron', readCron (buildCronExpression (parseCronExpression "30 14 * * 5,1,3")) = some cron' ∧
      ∀ t, cron'.firesAt t = cron.firesAt t := by
  have hread : (readCron "30 14 * * 5,1,3").isSome = true := by decide +kernel
  obtain ⟨cron, hcron⟩ := Option.isSome_iff_exists.mp hread
  exact ⟨cron, hcron, (rebuilt_fires_iff _ _ hcron).mpr (by decide +kernel)⟩

/-- Weekdays given as a range: on Tuesday, January 6, 1970, at nine. -/
theorem rangeOfDays_lost :
    (readCron "0 9 * * 1-5").map (fun cron => cron.firesAt (5 * 1440 + 9 * 60)) = some true ∧
    (readCron (buildCronExpression (parseCronExpression "0 9 * * 1-5"))).map
      (fun cron => cron.firesAt (5 * 1440 + 9 * 60)) = some false := by
  constructor <;> decide +kernel

end Manus.Schedules
