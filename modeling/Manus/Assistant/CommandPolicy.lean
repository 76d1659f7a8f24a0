import Manus.Context.Guards
import Manus.Lib.Except
import Manus.Lib.IpAddress
import Manus.Lib.Words
import Mathlib.Data.Bool.AllAny

/-! # The command policy

The assistant may propose read-only commands only. A command is taken apart at its bar and
at its white space, checked piece by piece, and put together again. What is accepted is a
language: the word `show`, arguments, and at most one output filter.
-/

namespace Manus.CommandPolicy

section Policy

def maxCommandChars : ℕ := 200

def maxFilterPatternChars : ℕ := 80

/-- `_ARGUMENT`. -/
def isArgumentChar (c : Char) : Bool := c.isAlphanum || c ∈ "_./:*,@%+=()[]-".toList

/-- `_PATTERN`. -/
def isPatternChar (c : Char) : Bool := c.isAlphanum || c ∈ "_ ./:^*+,()[]-".toList

def patternFilters : List (List Char) :=
  ["include", "exclude", "begin", "section", "match", "except", "find"].map String.toList

def displayKinds : List (List Char) := ["set", "json", "xml"].map String.toList

/-- `ch.isprintable()`, for a character of ASCII. -/
def isPrintable (c : Char) : Bool := 32 ≤ c.toNat && c.toNat ≤ 126

/-- `text.split()`. -/
def splitText (text : List Char) : List (List Char) := words isPySpace text

/-- `text.lower()`, for a text in ASCII. -/
def lower (text : List Char) : List Char := text.map Char.toLower

local instance filtersLawful : LawfulBEq (List Char) := inferInstance

/-- `_check_filter`. -/
def checkFilter (segment : List Char) : Except String (List Char) :=
  match splitText segment with
  | [] => .error "an output filter after '|' is missing"
  | word :: rest =>
    let name := lower word
    let rest := unwords ' ' rest
    if name ∈ patternFilters then
      if rest = [] ∨ maxFilterPatternChars < rest.length ∨ ¬ rest.all isPatternChar then
        .error "the output filter pattern is missing or contains unsafe characters"
      else .ok (name ++ ' ' :: rest)
    else if name = "count".toList ∧ rest = [] then .ok name
    else if name = "no-more".toList ∧ rest = [] then .ok name
    else if name = "display".toList ∧ lower rest ∈ displayKinds then
      .ok ("display ".toList ++ lower rest)
    else
      .error "only the output filters include, exclude, begin, section and count are allowed"

def addFilter (command : List Char) : List (List Char) → Except String (List Char)
  | [_, segment] => (checkFilter segment).map fun filter => command ++ " | ".toList ++ filter
  | _ => .ok command

def checkCommand (raw : String) : Except String String :=
  let text := raw.toList
  if ¬ text.all fun c => decide (c.toNat < 128) then .error "commands must be plain ASCII text"
  else if ¬ text.all fun c => isPrintable c || c == '\t' then
    .error "commands must be a single line without control characters"
  else
    let segments := text.splitOn '|'
    if 2 < segments.length then .error "only one output filter is allowed"
    else
      match splitText (segments.headD []) with
      | [] => .error "only full 'show' commands are allowed"
      | verb :: arguments =>
        if lower verb ≠ "show".toList then .error "only full 'show' commands are allowed"
        else if arguments = [] ∨ ¬ arguments.all fun argument => argument.all isArgumentChar then
          .error "the show command needs arguments made of plain names and addresses"
        else do
          let command ← addFilter (unwords ' ' ("show".toList :: arguments)) segments
          if maxCommandChars < command.length then
            .error "a command may be at most 200 characters"
          else return String.ofList command

end Policy

section Language

def isBlank (c : Char) : Bool := c == ' ' || c == '\t'

/-- The text with runs of spaces and tabs collapsed and its ends trimmed. -/
def collapsed (text : List Char) : List Char := collapse isBlank ' ' text

/-- An output filter as it is written and as it is sent: seven filters with a pattern, two without
one, and the display of a kind. -/
inductive FilterForm : List Char → List Char → Prop where
  | pattern {name pattern : List Char} (known : lower name ∈ patternFilters)
      (spaced : collapsed pattern = pattern) (notEmpty : pattern ≠ [])
      (short : pattern.length ≤ maxFilterPatternChars)
      (plain : ∀ c ∈ pattern, isPatternChar c = true) :
      FilterForm (name ++ ' ' :: pattern) (lower name ++ ' ' :: pattern)
  | plain {name : List Char} (known : lower name ∈ ["count".toList, "no-more".toList]) :
      FilterForm name (lower name)
  | display {name kind : List Char} (known : lower name = "display".toList)
      (kinds : lower kind ∈ displayKinds) :
      FilterForm (name ++ ' ' :: kind) ("display ".toList ++ lower kind)

def IsFilter (filter : List Char) : Prop := ∃ sent, FilterForm filter sent

structure Headed (verb : List Char) (arguments : List (List Char)) : Prop where
  verb : lower verb = "show".toList
  some : arguments ≠ []
  valid : ∀ argument ∈ arguments, argument ≠ [] ∧ ∀ c ∈ argument, isArgumentChar c = true

/-- The commands with filters of some kind: printable text that is, once collapsed, the verb with
its arguments, or that followed by a bar and a filter. The length is that with a space on each side
of the bar. -/
def InLanguage (Filter : List Char → Prop) (text : List Char) : Prop :=
  (∀ c ∈ text, isPrintable c = true ∨ c = '\t') ∧ ∃ verb arguments, Headed verb arguments ∧
    ((collapsed text = unwords ' ' (verb :: arguments) ∧
        (unwords ' ' (verb :: arguments)).length ≤ maxCommandChars) ∨
      ∃ before after filter, AtMostOne ' ' before ∧ AtMostOne ' ' after ∧ Filter filter ∧
        collapsed text = unwords ' ' (verb :: arguments) ++ before ++ '|' :: (after ++ filter) ∧
        (unwords ' ' (verb :: arguments)).length + 3 + filter.length ≤ maxCommandChars)

end Language

section Characters

variable {c : Char} {text name : List Char}

theorem isBlank_space : isBlank ' ' = true := rfl

theorem isBlank_of_isPrintable (h : isPrintable c = true ∨ c = '\t') :
    isPySpace c = isBlank c := by
  rcases h with h | rfl
  · simp only [isPrintable, Bool.and_eq_true, decide_eq_true_eq] at h
    have hcode : ∀ n < 127, 32 ≤ n → isPySpace (Char.ofNat n) = isBlank (Char.ofNat n) := by
      decide +kernel
    have hc := hcode c.toNat (by omega) h.1
    rwa [Char.ofNat_toNat] at hc
  · rfl

theorem splitText_eq (h : ∀ c ∈ text, isPrintable c = true ∨ c = '\t') :
    splitText text = words isBlank text :=
  words_congr fun c hc => isBlank_of_isPrintable (h c hc)

theorem toNat_lt_of_isAlphanum (h : c.isAlphanum = true) : c.toNat < 127 := by
  have hle : c.val ≤ 'Z'.val ∨ c.val ≤ 'z'.val ∨ c.val ≤ '9'.val := by
    rcases Bool.or_eq_true_iff.mp h with h | h
    · rcases Bool.or_eq_true_iff.mp h with h | h
      · exact .inl (of_decide_eq_true h).2
      · exact .inr (.inl (of_decide_eq_true (Bool.and_eq_true_iff.mp h).2))
    · exact .inr (.inr (of_decide_eq_true (Bool.and_eq_true_iff.mp h).2))
  rcases hle with hle | hle | hle
  all_goals exact (UInt32.le_iff_toNat_le.mp hle).trans_lt (by decide)

theorem of_alphabet {alphabet : Char → Bool} {P : Char → Prop} [DecidablePred P]
    (hshort : ∀ c, alphabet c = true → c.toNat < 127)
    (hall : ∀ n < 127, alphabet (Char.ofNat n) = true → P (Char.ofNat n)) (c : Char)
    (h : alphabet c = true) : P c := by
  have hc := hall c.toNat (hshort c h)
  rw [Char.ofNat_toNat] at hc
  exact hc h

theorem isArgumentChar_short (c : Char) (h : isArgumentChar c = true) : c.toNat < 127 := by
  rcases Bool.or_eq_true _ _ ▸ h with h | h
  · exact toNat_lt_of_isAlphanum h
  · have hshort : ∀ d ∈ "_./:*,@%+=()[]-".toList, d.toNat < 127 :=
      List.all_iff_forall_prop.mp (by decide)
    exact hshort c (of_decide_eq_true h)

theorem isPatternChar_short (c : Char) (h : isPatternChar c = true) : c.toNat < 127 := by
  rcases Bool.or_eq_true _ _ ▸ h with h | h
  · exact toNat_lt_of_isAlphanum h
  · have hshort : ∀ d ∈ "_ ./:^*+,()[]-".toList, d.toNat < 127 :=
      List.all_iff_forall_prop.mp (by decide)
    exact hshort c (of_decide_eq_true h)

theorem of_isArgumentChar : ∀ c, isArgumentChar c = true →
    isBlank c = false ∧ c ≠ '|' ∧ isPrintable c = true :=
  of_alphabet isArgumentChar_short (by decide +kernel)

theorem of_isPatternChar : ∀ c, isPatternChar c = true → c ≠ '|' ∧ isPrintable c = true :=
  of_alphabet isPatternChar_short (by decide +kernel)

def isLetter (c : Char) : Bool := c.toLower ∈ "abcdefghijklmnopqrstuvwxyz-".toList

theorem isLetter_short (c : Char) (h : isLetter c = true) : c.toNat < 127 := by
  have hlower : ∀ d ∈ "abcdefghijklmnopqrstuvwxyz-".toList, d.toNat < 127 :=
    List.all_iff_forall_prop.mp (by decide)
  have hc := hlower _ (of_decide_eq_true h)
  by_cases hupper : c.val ≥ 'A'.val ∧ c.val ≤ 'Z'.val
  · have hle : c.val.toNat ≤ 'Z'.val.toNat := UInt32.le_iff_toNat_le.mp hupper.2
    exact hle.trans_lt (by decide)
  · have hsame : c.toLower = c := dif_neg hupper
    rwa [hsame] at hc

theorem of_isLetter : ∀ c, isLetter c = true →
    isBlank c = false ∧ c ≠ '|' ∧ isPrintable c = true :=
  of_alphabet isLetter_short (by decide +kernel)

theorem of_lower_mem {known : List (List Char)} (h : lower name ∈ known)
    (hletters : ∀ word ∈ known, ∀ d ∈ word, d ∈ "abcdefghijklmnopqrstuvwxyz-".toList) :
    ∀ c ∈ name, isBlank c = false ∧ c ≠ '|' ∧ isPrintable c = true := by
  intro c hc
  apply of_isLetter
  rw [isLetter, decide_eq_true_eq]
  exact hletters _ h _ (List.mem_map_of_mem hc)

theorem lettered_of_all {known : List (List Char)}
    (h : (known.all fun word => word.all fun d =>
      decide (d ∈ "abcdefghijklmnopqrstuvwxyz-".toList)) = true) :
    ∀ word ∈ known, ∀ d ∈ word, d ∈ "abcdefghijklmnopqrstuvwxyz-".toList := by
  intro word hword
  exact List.all_iff_forall_prop.mp (List.all_eq_true.mp h word hword)

theorem isWord_of_lower_mem {known : List (List Char)} (h : lower name ∈ known)
    (hletters : ∀ word ∈ known, ∀ d ∈ word, d ∈ "abcdefghijklmnopqrstuvwxyz-".toList)
    (hne : [] ∉ known) : IsWord isBlank name := by
  constructor
  · rintro rfl
    exact hne h
  · exact fun c hc => (of_lower_mem h hletters c hc).1

theorem lower_lower (text : List Char) : lower (lower text) = lower text := by
  have hlower : ∀ c : Char, c.toLower.toLower = c.toLower := by
    intro c
    by_cases hshort : c.toNat < 127
    · have hcode : ∀ n < 127, (Char.ofNat n).toLower.toLower = (Char.ofNat n).toLower := by
        decide +kernel
      have hc := hcode c.toNat hshort
      rwa [Char.ofNat_toNat] at hc
    · have hsame : c.toLower = c := by
        apply dif_neg
        rintro ⟨-, hle⟩
        have hle : c.val.toNat ≤ 'Z'.val.toNat := UInt32.le_iff_toNat_le.mp hle
        exact hshort (hle.trans_lt (by decide))
      rw [hsame, hsame]
  simp [lower, hlower]

theorem length_lower (text : List Char) : (lower text).length = text.length := by
  simp [lower]

end Characters

section Filters

variable {segment filter : List Char}

theorem patternFilters_letters :
    ∀ word ∈ patternFilters, ∀ d ∈ word, d ∈ "abcdefghijklmnopqrstuvwxyz-".toList :=
  lettered_of_all (by decide)

theorem displayKinds_letters :
    ∀ word ∈ displayKinds, ∀ d ∈ word, d ∈ "abcdefghijklmnopqrstuvwxyz-".toList :=
  lettered_of_all (by decide)

theorem plainFilters_letters : ∀ word ∈ ["count".toList, "no-more".toList], ∀ d ∈ word,
    d ∈ "abcdefghijklmnopqrstuvwxyz-".toList :=
  lettered_of_all (by decide)

theorem isWord_display {name : List Char} (h : lower name = "display".toList) :
    IsWord isBlank name :=
  isWord_of_lower_mem (List.mem_singleton.mpr h) (lettered_of_all (by decide)) (by decide)

/-- A filter is accepted if its collapsed text has one of the forms. -/
theorem checkFilter_iff (hplain : ∀ c ∈ segment, isPrintable c = true ∨ c = '\t') :
    checkFilter segment = .ok filter ↔ FilterForm (collapsed segment) filter := by
  unfold checkFilter
  rw [splitText_eq hplain]
  constructor
  · intro h
    cases hwords : words isBlank segment with
    | nil =>
      rw [hwords] at h
      cases h
    | cons word rest =>
      have hcollapsed : collapsed segment = unwords ' ' (word :: rest) := by
        rw [collapsed, collapse, hwords]
      have hrest : ∀ other ∈ rest, IsWord isBlank other := fun other hother =>
        isWord_of_mem_words (show other ∈ words isBlank segment by
          rw [hwords]
          exact List.mem_cons_of_mem _ hother)
      rw [hwords] at h
      dsimp only at h
      rw [hcollapsed]
      split at h
      · next hknown =>
        split at h
        · cases h
        · next hvalid =>
          cases h
          push Not at hvalid
          obtain ⟨hne, hshort, hchars⟩ := hvalid
          have hsome : rest ≠ [] := by
            rintro rfl
            exact hne rfl
          rw [unwords_cons word hsome]
          exact .pattern hknown (collapse_unwords isBlank_space hrest) hne hshort
            (List.all_eq_true.mp hchars)
      · have hsingle : unwords ' ' rest = [] → unwords ' ' (word :: rest) = word := by
          intro hnil
          rw [unwords_eq_nil hrest hnil, unwords_singleton]
        split at h
        · next hcount =>
          cases h
          rw [hsingle hcount.2]
          exact .plain (by simp [hcount.1])
        · split at h
          · next hnoMore =>
            cases h
            rw [hsingle hnoMore.2]
            exact .plain (by simp [hnoMore.1])
          · split at h
            · next hdisplay =>
              cases h
              have hsome : rest ≠ [] := by
                rintro rfl
                exact absurd hdisplay.2 (by decide)
              rw [unwords_cons word hsome]
              exact .display hdisplay.1 hdisplay.2
            · cases h
  · intro h
    have hwords : words isBlank segment = words isBlank (collapsed segment) :=
      (words_collapse isBlank_space segment).symm
    rw [hwords]
    generalize collapsed segment = text at h
    clear hwords
    cases h with
    | @pattern name pattern hknown hspaced hne hshort hchars =>
      have hword : IsWord isBlank name :=
        isWord_of_lower_mem hknown patternFilters_letters (by decide)
      rw [words_append_cons isBlank_space hword]
      have hpattern : unwords ' ' (words isBlank pattern) = pattern := hspaced
      dsimp only
      rw [if_pos hknown, hpattern, if_neg]
      push Not
      exact ⟨hne, hshort, List.all_eq_true.mpr hchars⟩
    | plain hknown =>
      have hword := isWord_of_lower_mem hknown plainFilters_letters (by decide)
      rw [words_word hword]
      simp only [List.mem_cons, List.not_mem_nil, or_false] at hknown
      rcases hknown with hknown | hknown
      · simp [hknown, patternFilters, unwords_nil]
      · simp [hknown, patternFilters, unwords_nil]
    | @display name kind hknown hkinds =>
      have hword := isWord_of_lower_mem hkinds displayKinds_letters (by decide)
      rw [words_append_cons isBlank_space (isWord_display hknown), words_word hword]
      simp only [unwords_singleton, hknown, hkinds]
      simp [patternFilters]

theorem FilterForm.spaced (h : FilterForm segment filter) : collapsed segment = segment := by
  cases h with
  | @pattern name pattern hknown hspaced hne hshort hchars =>
    have hword := isWord_of_lower_mem hknown patternFilters_letters (by decide)
    have hwords : words isBlank pattern ≠ [] := by
      intro hnil
      rw [collapsed, collapse, hnil] at hspaced
      exact hne hspaced.symm
    rw [collapsed, collapse, words_append_cons isBlank_space hword, unwords_cons _ hwords]
    exact congrArg _ (congrArg _ hspaced)
  | plain hknown =>
    have hword := isWord_of_lower_mem hknown plainFilters_letters (by decide)
    rw [collapsed, collapse, words_word hword, unwords_singleton]
  | @display name kind hknown hkinds =>
    have hword := isWord_of_lower_mem hkinds displayKinds_letters (by decide)
    rw [collapsed, collapse, words_append_cons isBlank_space (isWord_display hknown),
      words_word hword, unwords_cons _ (List.cons_ne_nil _ _), unwords_singleton]

theorem FilterForm.again (h : FilterForm segment filter) : FilterForm filter filter := by
  cases h with
  | @pattern name pattern hknown hspaced hne hshort hchars =>
    have hlower : lower (lower name) ∈ patternFilters := by rwa [lower_lower]
    have hagain := FilterForm.pattern hlower hspaced hne hshort hchars
    rwa [lower_lower] at hagain
  | plain hknown =>
    have hlower : lower (lower segment) ∈ ["count".toList, "no-more".toList] := by
      rwa [lower_lower]
    have hagain := FilterForm.plain hlower
    rwa [lower_lower] at hagain
  | @display name kind hknown hkinds =>
    have hlower : lower (lower kind) ∈ displayKinds := by rwa [lower_lower]
    have hdisplay : lower "display".toList = "display".toList := by decide
    have hagain := FilterForm.display hdisplay hlower
    rwa [lower_lower] at hagain

theorem FilterForm.length (h : FilterForm segment filter) : filter.length = segment.length := by
  cases h with
  | pattern => simp [length_lower]
  | plain => exact length_lower segment
  | @display name kind hknown hkinds =>
    have hname : name.length = 7 := by
      rw [← length_lower, hknown]
      rfl
    simp [length_lower, hname]
    omega

theorem FilterForm.characters (h : FilterForm segment filter) :
    ∀ c ∈ segment, c ≠ '|' ∧ isPrintable c = true := by
  cases h with
  | @pattern name pattern hknown hspaced hne hshort hchars =>
    intro c hc
    rcases List.mem_append.mp hc with hc | hc
    · exact (of_lower_mem hknown patternFilters_letters c hc).2
    · rcases List.mem_cons.mp hc with rfl | hc
      · decide
      · exact of_isPatternChar c (hchars c hc)
  | plain hknown => exact fun c hc => (of_lower_mem hknown plainFilters_letters c hc).2
  | @display name kind hknown hkinds =>
    intro c hc
    rcases List.mem_append.mp hc with hc | hc
    · exact (of_lower_mem (List.mem_singleton.mpr hknown) (lettered_of_all (by decide)) c hc).2
    · rcases List.mem_cons.mp hc with rfl | hc
      · decide
      · exact (of_lower_mem hkinds displayKinds_letters c hc).2

end Filters

section Commands

variable {raw : String} {command : String} {text head : List Char}

variable {verb : List Char} {arguments : List (List Char)}

theorem Headed.isWord (h : Headed verb arguments) :
    ∀ word ∈ verb :: arguments, IsWord isBlank word := by
  intro word hword
  rcases List.mem_cons.mp hword with rfl | hargument
  · exact isWord_of_lower_mem (List.mem_singleton.mpr h.verb) (lettered_of_all (by decide))
      (by decide)
  · obtain ⟨hne, hchars⟩ := h.valid word hargument
    exact ⟨hne, fun c hc => (of_isArgumentChar c (hchars c hc)).1⟩

theorem Headed.again (h : Headed verb arguments) : Headed "show".toList arguments :=
  ⟨by decide, h.some, h.valid⟩

theorem Headed.characters (h : Headed verb arguments) :
    ∀ c ∈ unwords ' ' (verb :: arguments), c ≠ '|' ∧ isPrintable c = true := by
  intro c hc
  rcases mem_unwords hc with rfl | ⟨word, hword, hmem⟩
  · decide
  · rcases List.mem_cons.mp hword with rfl | hargument
    · exact (of_lower_mem (List.mem_singleton.mpr h.verb) (lettered_of_all (by decide)) c hmem).2
    · exact (of_isArgumentChar c ((h.valid word hargument).2 c hmem)).2

theorem Headed.length (h : Headed verb arguments) :
    (unwords ' ' ("show".toList :: arguments)).length =
      (unwords ' ' (verb :: arguments)).length := by
  rw [unwords_cons _ h.some, unwords_cons _ h.some, List.length_append, List.length_append,
    ← length_lower verb, h.verb]

inductive Accepts (text : List Char) : List Char → Prop where
  | bare {verb : List Char} {arguments : List (List Char)} (headed : Headed verb arguments)
      (noBar : '|' ∉ text) (read : words isBlank text = verb :: arguments) :
      Accepts text (unwords ' ' ("show".toList :: arguments))
  | filtered {verb : List Char} {arguments : List (List Char)} {front segment filter : List Char}
      (headed : Headed verb arguments) (split : text = front ++ '|' :: segment)
      (noBar : '|' ∉ front ∧ '|' ∉ segment) (read : words isBlank front = verb :: arguments)
      (form : FilterForm (collapsed segment) filter) :
      Accepts text (unwords ' ' ("show".toList :: arguments) ++ " | ".toList ++ filter)

theorem headed_iff (hwords : words isBlank text = verb :: arguments) :
    Headed verb arguments ↔ lower verb = "show".toList ∧ ¬ (arguments = [] ∨
      ¬ (arguments.all fun argument => argument.all isArgumentChar) = true) := by
  have hwordOf : ∀ argument ∈ arguments, IsWord isBlank argument := fun argument hmem =>
    isWord_of_mem_words (show argument ∈ words isBlank text by
      rw [hwords]
      exact List.mem_cons_of_mem _ hmem)
  simp only [not_or, not_not, List.all_eq_true]
  constructor
  · intro h
    exact ⟨h.verb, h.some, fun argument hmem => (h.valid argument hmem).2⟩
  · rintro ⟨hverb, hsome, hvalid⟩
    exact ⟨hverb, hsome,
      fun argument hmem => ⟨(hwordOf argument hmem).ne_nil, hvalid argument hmem⟩⟩

theorem piece_of_splitOn (hplain : ∀ c ∈ text, isPrintable c = true ∨ c = '\t')
    {piece : List Char} (h : piece ∈ text.splitOn '|') :
    ∀ c ∈ piece, isPrintable c = true ∨ c = '\t' :=
  fun c hc => hplain c (mem_splitOnP (p := (· == '|')) h hc).1

theorem accepts_of_checkCommand (h : checkCommand raw = .ok command) :
    (∀ c ∈ raw.toList, isPrintable c = true ∨ c = '\t') ∧ ∃ sent, Accepts raw.toList sent ∧
      sent.length ≤ maxCommandChars ∧ command = String.ofList sent := by
  unfold checkCommand at h
  dsimp only at h
  split at h
  · cases h
  split at h
  · cases h
  split at h
  · cases h
  · next hprintable hfew =>
    have hplain : ∀ c ∈ raw.toList, isPrintable c = true ∨ c = '\t' := by
      intro c hc
      simpa using List.all_eq_true.mp (not_not.mp hprintable) c hc
    refine ⟨hplain, ?_⟩
    have hpieces := @piece_of_splitOn raw.toList hplain
    cases hsegments : raw.toList.splitOn '|' with
    | nil => exact absurd hsegments (List.splitOnP_ne_nil _ _)
    | cons front rest =>
      rw [hsegments] at h hfew hpieces
      rw [List.headD_cons, splitText_eq (hpieces List.mem_cons_self)] at h
      split at h
      · cases h
      · next verb arguments hwords =>
        split at h
        · cases h
        · next hverb =>
          split at h
          · cases h
          · next hvalid =>
            have hheaded : Headed verb arguments :=
              (headed_iff hwords).mpr ⟨not_not.mp hverb, hvalid⟩
            obtain ⟨sent, hsent, h⟩ := bind_eq_ok.mp h
            split at h
            · cases h
            · next hshort =>
              cases h
              refine ⟨sent, ?_, Nat.not_lt.mp hshort, rfl⟩
              cases rest with
              | nil =>
                cases hsent
                obtain ⟨htext, hbar⟩ := splitOn_eq_singleton_iff.mp hsegments
                rw [htext]
                exact .bare hheaded hbar hwords
              | cons segment rest =>
                cases rest with
                | nil =>
                  obtain ⟨filter, hfilter, rfl⟩ := map_eq_ok.mp hsent
                  obtain ⟨htext, hbars⟩ := splitOn_eq_pair_iff.mp hsegments
                  rw [htext]
                  apply Accepts.filtered hheaded rfl hbars hwords
                  exact (checkFilter_iff (hpieces (by simp))).mp hfilter
                | cons other rest => simp at hfew

theorem checkCommand_of_accepts (hplain : ∀ c ∈ raw.toList, isPrintable c = true ∨ c = '\t')
    {sent : List Char} (h : Accepts raw.toList sent) (hshort : sent.length ≤ maxCommandChars) :
    checkCommand raw = .ok (String.ofList sent) := by
  have hascii : raw.toList.all (fun c => decide (c.toNat < 128)) = true := by
    rw [List.all_eq_true]
    intro c hc
    rcases hplain c hc with h | rfl
    · simp only [isPrintable, Bool.and_eq_true, decide_eq_true_eq] at h
      rw [decide_eq_true_eq]
      omega
    · decide
  have hprintable : raw.toList.all (fun c => isPrintable c || c == '\t') = true := by
    rw [List.all_eq_true]
    intro c hc
    simpa using hplain c hc
  have hpieces := @piece_of_splitOn raw.toList hplain
  unfold checkCommand
  dsimp only
  rw [if_neg (not_not.mpr hascii), if_neg (not_not.mpr hprintable)]
  cases h with
  | @bare verb arguments hheaded hbar hwords =>
    have hsegments : raw.toList.splitOn '|' = [raw.toList] :=
      splitOn_eq_singleton_iff.mpr ⟨rfl, hbar⟩
    obtain ⟨hverb, hvalid⟩ := (headed_iff hwords).mp hheaded
    rw [hsegments, if_neg (by simp), List.headD_cons, splitText_eq hplain, hwords]
    dsimp only
    rw [if_neg (not_not.mpr hverb), if_neg hvalid]
    simp only [addFilter, bind, Except.bind]
    rw [if_neg (Nat.not_lt.mpr hshort)]
    rfl
  | @filtered verb arguments front segment filter hheaded hsplit hbars hwords hform =>
    have hsegments : raw.toList.splitOn '|' = [front, segment] :=
      splitOn_eq_pair_iff.mpr ⟨hsplit, hbars⟩
    rw [hsegments] at hpieces
    obtain ⟨hverb, hvalid⟩ := (headed_iff hwords).mp hheaded
    have hfilter : checkFilter segment = .ok filter :=
      (checkFilter_iff (hpieces (by simp))).mpr hform
    rw [hsegments, if_neg (by simp), List.headD_cons, splitText_eq (hpieces (by simp)), hwords]
    dsimp only
    rw [if_neg (not_not.mpr hverb), if_neg hvalid]
    simp only [addFilter, hfilter, Except.map, bind, Except.bind]
    rw [if_neg (Nat.not_lt.mpr hshort)]
    rfl

theorem Accepts.collapsed {sent : List Char} (h : Accepts text sent) :
    ∃ verb arguments, Headed verb arguments ∧
      ((collapsed text = unwords ' ' (verb :: arguments) ∧
          (unwords ' ' (verb :: arguments)).length = sent.length) ∨
        ∃ before after filter, AtMostOne ' ' before ∧ AtMostOne ' ' after ∧ IsFilter filter ∧
          collapsed text = unwords ' ' (verb :: arguments) ++ before ++ '|' :: (after ++ filter) ∧
          (unwords ' ' (verb :: arguments)).length + 3 + filter.length = sent.length) := by
  cases h with
  | @bare verb arguments hheaded hbar hwords =>
    refine ⟨verb, arguments, hheaded, Or.inl ⟨?_, hheaded.length.symm⟩⟩
    rw [CommandPolicy.collapsed, collapse, hwords]
  | @filtered verb arguments front segment filter hheaded hsplit hbars hwords hform =>
    obtain ⟨before, after, hbefore, hafter, hcollapse, -⟩ :=
      @collapse_append_bar Char isBlank ' ' '|' rfl front segment
    refine ⟨verb, arguments, hheaded, Or.inr ⟨before, after, CommandPolicy.collapsed segment,
      hbefore, hafter, ⟨filter, hform⟩, ?_, ?_⟩⟩
    · rw [hsplit, CommandPolicy.collapsed, hcollapse, collapse, hwords]
      rfl
    · rw [List.length_append, List.length_append, hheaded.length, hform.length]
      rfl

theorem accepts_of_head (hheaded : Headed verb arguments)
    (h : collapsed text = unwords ' ' (verb :: arguments)) :
    Accepts text (unwords ' ' ("show".toList :: arguments)) := by
  apply Accepts.bare hheaded
  · intro hbar
    have hmem : '|' ∈ collapsed text := mem_collapse_of_mem rfl hbar
    rw [h] at hmem
    exact (hheaded.characters '|' hmem).1 rfl
  · rw [← words_collapse isBlank_space, show collapse isBlank ' ' text = _ from h]
    exact words_unwords isBlank_space hheaded.isWord

theorem accepts_of_filter (hheaded : Headed verb arguments) {before after filter sent : List Char}
    (hbefore : AtMostOne ' ' before) (hafter : AtMostOne ' ' after) (hform : FilterForm filter sent)
    (h : collapsed text = unwords ' ' (verb :: arguments) ++ before ++ '|' :: (after ++ filter)) :
    Accepts text (unwords ' ' ("show".toList :: arguments) ++ " | ".toList ++ sent) := by
  have hgap : ∀ {gap : List Char}, AtMostOne ' ' gap → '|' ∉ gap := by
    rintro gap (rfl | rfl) <;> decide
  have hhead : '|' ∉ unwords ' ' (verb :: arguments) ++ before := by
    intro hbar
    rcases List.mem_append.mp hbar with hbar | hbar
    · exact (hheaded.characters '|' hbar).1 rfl
    · exact hgap hbefore hbar
  have htext : '|' ∈ text := by
    have hmem : '|' ∈ collapsed text := by
      rw [h]
      simp
    rcases mem_collapse hmem with heq | hmem
    · exact absurd heq (by decide)
    · exact hmem
  obtain ⟨front, segment, rfl, hfront⟩ := List.eq_append_cons_of_mem htext
  obtain ⟨before', after', hbefore', hafter', hcollapse, -⟩ :=
    @collapse_append_bar Char isBlank ' ' '|' rfl front segment
  rw [collapsed, hcollapse] at h
  have hcollapsed : '|' ∉ collapse isBlank ' ' front ++ before' := by
    intro hbar
    rcases List.mem_append.mp hbar with hbar | hbar
    · rcases mem_collapse hbar with heq | hbar
      · exact absurd heq (by decide)
      · exact hfront hbar
    · exact hgap hbefore' hbar
  obtain ⟨hleft, hright⟩ := (append_cons_inj_of_notMem_left hcollapsed hhead).mp h
  have hwords : words isBlank front = verb :: arguments := by
    have hsame := congrArg (words isBlank) hleft
    rwa [words_append_gap isBlank_space hbefore', words_append_gap isBlank_space hbefore,
      words_collapse isBlank_space, words_unwords isBlank_space hheaded.isWord] at hsame
  have hsegment : collapsed segment = filter := by
    have hsame := congrArg (words isBlank) hright
    rw [words_gap_append isBlank_space hafter', words_gap_append isBlank_space hafter,
      words_collapse isBlank_space] at hsame
    rw [collapsed, collapse, hsame]
    exact hform.spaced
  apply Accepts.filtered hheaded rfl ⟨hfront, ?_⟩ hwords (hsegment ▸ hform)
  intro hbar
  have hmem : '|' ∈ collapsed segment := mem_collapse_of_mem rfl hbar
  rw [hsegment] at hmem
  exact (hform.characters '|' hmem).1 rfl

/-- What is sent is one line, and it is accepted as it is. -/
theorem Accepts.again {sent : List Char} (h : Accepts text sent) :
    (∀ c ∈ sent, isPrintable c = true) ∧ Accepts sent sent := by
  cases h with
  | @bare verb arguments hheaded hbar hwords =>
    constructor
    · exact fun c hc => (hheaded.again.characters c hc).2
    · exact accepts_of_head hheaded.again (collapse_unwords isBlank_space hheaded.again.isWord)
  | @filtered verb arguments front segment filter hheaded hsplit hbars hwords hform =>
    constructor
    · intro c hc
      rcases List.mem_append.mp hc with hc | hc
      · rcases List.mem_append.mp hc with hc | hc
        · exact (hheaded.again.characters c hc).2
        · have hbar : ∀ d ∈ " | ".toList, isPrintable d = true :=
            List.all_iff_forall_prop.mp (by decide)
          exact hbar c hc
      · exact (hform.again.characters c hc).2
    · have hsplit : unwords ' ' ("show".toList :: arguments) ++ " | ".toList ++ filter =
          (unwords ' ' ("show".toList :: arguments) ++ [' ']) ++ '|' :: (' ' :: filter) := by simp
      apply Accepts.filtered hheaded.again hsplit
      · constructor
        · intro hbar
          rcases List.mem_append.mp hbar with hbar | hbar
          · exact (hheaded.again.characters '|' hbar).1 rfl
          · exact absurd hbar (by decide)
        · intro hbar
          rcases List.mem_cons.mp hbar with heq | hbar
          · exact absurd heq (by decide)
          · exact (hform.again.characters '|' hbar).1 rfl
      · rw [words_append_sep isBlank_space]
        exact words_unwords isBlank_space hheaded.again.isWord
      · have hcollapsed : CommandPolicy.collapsed (' ' :: filter) = filter := by
          rw [CommandPolicy.collapsed, collapse, words_cons_sep isBlank_space]
          exact hform.again.spaced
        rw [hcollapsed]
        exact hform.again

/-- The policy accepts the commands with a filter, and nothing else; what it returns is one line
that it accepts unchanged. -/
theorem checkCommand_iff (raw : String) :
    ((∃ command, checkCommand raw = .ok command) ↔ InLanguage IsFilter raw.toList) ∧
      ∀ command, checkCommand raw = .ok command →
        (∀ c ∈ command.toList, isPrintable c = true) ∧ checkCommand command = .ok command := by
  constructor
  · constructor
    · rintro ⟨command, h⟩
      obtain ⟨hplain, sent, haccepts, hshort, -⟩ := accepts_of_checkCommand h
      obtain ⟨verb, arguments, hheaded, ⟨hcollapsed, hlength⟩ |
        ⟨before, after, filter, hbefore, hafter, hfilter, hcollapsed, hlength⟩⟩ :=
          haccepts.collapsed
      · exact ⟨hplain, verb, arguments, hheaded, Or.inl ⟨hcollapsed, hlength ▸ hshort⟩⟩
      · exact ⟨hplain, verb, arguments, hheaded, Or.inr ⟨before, after, filter, hbefore, hafter,
          hfilter, hcollapsed, hlength ▸ hshort⟩⟩
    · rintro ⟨hplain, verb, arguments, hheaded, ⟨hcollapsed, hshort⟩ |
        ⟨before, after, filter, hbefore, hafter, ⟨sent, hform⟩, hcollapsed, hshort⟩⟩
      · refine ⟨_, checkCommand_of_accepts hplain (accepts_of_head hheaded hcollapsed) ?_⟩
        rwa [hheaded.length]
      · refine ⟨_, checkCommand_of_accepts hplain
          (accepts_of_filter hheaded hbefore hafter hform hcollapsed) ?_⟩
        rw [List.length_append, List.length_append, hheaded.length, hform.length]
        exact hshort
  · intro command h
    obtain ⟨-, sent, haccepts, hshort, rfl⟩ := accepts_of_checkCommand h
    obtain ⟨hprintable, hagain⟩ := haccepts.again
    rw [String.toList_ofList]
    refine ⟨hprintable, ?_⟩
    apply checkCommand_of_accepts _ _ hshort
    · rw [String.toList_ofList]
      exact fun c hc => Or.inl (hprintable c hc)
    · rw [String.toList_ofList]
      exact hagain

def ListedWithPattern (filter : List Char) : Prop :=
  ∃ name pattern, lower name ∈ patternFilters ++ ["count".toList, "no-more".toList,
      "display".toList] ∧ filter = name ++ ' ' :: pattern ∧ pattern.length ≤ maxFilterPatternChars ∧
    ∀ c ∈ pattern, isPatternChar c = true

/-- Not every listed filter takes a pattern. -/
theorem count_takes_no_pattern :
    InLanguage ListedWithPattern "show version | count errors".toList ∧
    checkCommand "show version | count errors" = .error
      "only the output filters include, exclude, begin, section and count are allowed" ∧
    checkCommand "show version | count" = .ok "show version | count" := by
  have hplain : ∀ c ∈ "show version | count errors".toList, isPrintable c = true ∨ c = '\t' :=
    List.all_iff_forall_prop.mp (by decide)
  have hversion : ∀ c ∈ "version".toList, isArgumentChar c = true :=
    List.all_iff_forall_prop.mp (by decide)
  have hpattern : ∀ c ∈ "errors".toList, isPatternChar c = true :=
    List.all_iff_forall_prop.mp (by decide)
  refine ⟨⟨hplain, "show".toList, ["version".toList], ?_, Or.inr ⟨[' '], [' '],
    "count errors".toList, Or.inr rfl, Or.inr rfl, ?_, by decide, by decide⟩⟩, ?_, ?_⟩
  · exact ⟨by decide, by decide, by simpa using hversion⟩
  · exact ⟨"count".toList, "errors".toList, by decide, rfl, by decide, hpattern⟩
  · decide +kernel
  · decide +kernel

end Commands

end Manus.CommandPolicy
