import Manus.Expression.Routing

/-! # Values that are split back

A list of values is written with commas between them, and a splitter of its own takes it
apart again. It counts braces, and within braces a quote hides what follows, also in the
subject of an expression, where the parser gives quotes no meaning. What the splitter makes
of one value alone decides whether the list comes back.
-/

namespace Manus.Expression

section Scans

/-- Where the splitter stands: in how many braces, and within which quote. -/
inductive Scan where
  | outside (depth : ℕ)
  | within (depth : ℕ) (quote : Char) (escaped : Bool)
  deriving DecidableEq

def scanChar : Scan → Char → Option Scan
  | .within depth quote true, _ => some (.within depth quote false)
  | .within depth quote false, c =>
    if c = '\\' then some (.within depth quote true)
    else if c = quote then some (.outside depth)
    else some (.within depth quote false)
  | .outside depth, c =>
    if depth ≠ 0 ∧ (c = '\'' ∨ c = '"') then some (.within depth c false)
    else if c = '{' then some (.outside (depth + 1))
    else if c = '}' then some (.outside (depth - 1))
    else if c = ',' ∧ depth = 0 then none
    else some (.outside depth)

def scan (state : Scan) (text : List Char) : Option Scan := text.foldlM scanChar state

def splitIn : Scan → List Char → List Char → List (List Char)
  | .outside depth, current, text => splitFrom depth none false current text
  | .within depth quote escaped, current, text => splitFrom depth (some quote) escaped current text

variable {state next : Scan} {text current : List Char}

@[simp] theorem scan_nil (state : Scan) : scan state [] = some state := rfl

@[simp] theorem scan_cons (state : Scan) (c : Char) (text : List Char) :
    scan state (c :: text) = (scanChar state c).bind fun next => scan next text := rfl

theorem scan_append (state : Scan) (text rest : List Char) :
    scan state (text ++ rest) = (scan state text).bind fun next => scan next rest :=
  List.foldlM_append

theorem splitIn_nil (state : Scan) (current : List Char) :
    splitIn state current [] = [pyStrip current.reverse] := by
  cases state <;> simp [splitIn, splitFrom]

theorem splitIn_cons {c : Char} (h : scanChar state c = some next) :
    splitIn state current (c :: text) = splitIn next (c :: current) text := by
  cases state with
  | within depth quote escaped =>
    cases escaped with
    | true =>
      cases h
      simp [splitIn, splitFrom]
    | false =>
      simp only [scanChar] at h
      simp only [splitIn, splitFrom]
      split_ifs at h ⊢ <;> cases h <;> rfl
  | outside depth =>
    simp only [scanChar] at h
    simp only [splitIn, splitFrom]
    split_ifs at h ⊢ <;> cases h <;> rfl

theorem scanChar_eq_none {c : Char} (h : scanChar state c = none) :
    state = .outside 0 ∧ c = ',' := by
  cases state with
  | within depth quote escaped =>
    cases escaped with
    | true => cases h
    | false =>
      simp only [scanChar] at h
      split_ifs at h
  | outside depth =>
    simp only [scanChar] at h
    split_ifs at h with hquote hopen hclose hcut
    obtain ⟨rfl, rfl⟩ := hcut
    exact ⟨rfl, rfl⟩

theorem splitIn_comma (current text : List Char) :
    splitIn (.outside 0) current (',' :: text) =
      pyStrip current.reverse :: splitIn (.outside 0) [] text := by
  simp [splitIn, splitFrom]

theorem splitIn_append (current : List Char) (h : scan state text = some next) (rest : List Char) :
    splitIn state current (text ++ rest) = splitIn next (text.reverse ++ current) rest := by
  induction text generalizing state current with
  | nil =>
    cases h
    rfl
  | cons c text ih =>
    obtain ⟨middle, hchar, hrest⟩ := Option.bind_eq_some_iff.mp h
    rw [List.cons_append, splitIn_cons hchar, ih _ hrest, List.reverse_cons, List.append_assoc]
    rfl

theorem splitIn_of_cut (current : List Char) (h : scan state text = none) (rest : List Char) :
    ∃ before after pieces, text = before ++ ',' :: after ∧
      splitIn state current (text ++ rest) = pyStrip (current.reverse ++ before) :: pieces := by
  induction text generalizing state current with
  | nil => cases h
  | cons c text ih =>
    cases hchar : scanChar state c with
    | none =>
      obtain ⟨rfl, rfl⟩ := scanChar_eq_none hchar
      refine ⟨[], text, splitIn (.outside 0) [] (text ++ rest), rfl, ?_⟩
      rw [List.append_nil]
      exact splitIn_comma current (text ++ rest)
    | some next =>
      rw [scan_cons, hchar] at h
      obtain ⟨before, after, pieces, rfl, hsplit⟩ := ih (c :: current) h
      refine ⟨c :: before, after, pieces, rfl, ?_⟩
      rw [List.cons_append, splitIn_cons hchar, hsplit, List.reverse_cons, List.append_assoc]
      rfl

theorem splitIn_head (state : Scan) (current text : List Char) :
    ∃ taken pieces, splitIn state current text = pyStrip (current.reverse ++ taken) :: pieces := by
  cases h : scan state text with
  | none =>
    obtain ⟨before, -, pieces, -, hsplit⟩ := splitIn_of_cut current h []
    rw [List.append_nil] at hsplit
    exact ⟨before, pieces, hsplit⟩
  | some next =>
    have hsplit := splitIn_append current h []
    rw [List.append_nil, splitIn_nil, List.reverse_append, List.reverse_reverse] at hsplit
    exact ⟨text, [], hsplit⟩

end Scans

section Strips

def Trimmed (text : List Char) : Prop := pyStrip text = text

variable {text lead rest : List Char}

theorem pyStrip_append_lead (hlead : ∀ c ∈ lead, isPySpace c = true) (text : List Char) :
    pyStrip (lead ++ text) = pyStrip text := by
  rw [pyStrip, pyStrip, List.dropWhile_append_of_pos hlead]

theorem Trimmed.head {c : Char} (h : Trimmed (c :: text)) : isPySpace c = false := by
  by_contra hspace
  have hlength : (pyStrip (c :: text)).length ≤ text.length := by
    rw [← List.singleton_append, pyStrip_append_lead]
    · exact pyStrip_length text
    · intro d hd
      rw [List.mem_singleton.mp hd]
      simpa using hspace
  rw [show pyStrip (c :: text) = c :: text from h, List.length_cons] at hlength
  omega

theorem length_pyStrip_between {c d : Char} (hc : isPySpace c = false) (hd : isPySpace d = false)
    (text rest : List Char) :
    (c :: text).length < (pyStrip (c :: text ++ d :: rest)).length := by
  have hfront : (c :: text ++ d :: rest).dropWhile isPySpace = c :: text ++ d :: rest := by
    rw [List.cons_append, List.dropWhile_cons_of_neg (by simp [hc])]
  have hback : (d :: (c :: text).reverse).dropWhile isPySpace = d :: (c :: text).reverse :=
    List.dropWhile_cons_of_neg (by simp [hd])
  rw [pyStrip, hfront, List.reverse_append, List.reverse_cons, List.append_assoc,
    List.singleton_append, List.dropWhile_append, hback]
  split
  · simp
  · simp only [List.length_reverse, List.length_append, List.length_cons]
    omega

theorem pyStrip_ne_nil {c : Char} (hc : isPySpace c = false) (text : List Char) :
    pyStrip (c :: text) ≠ [] := by
  intro hnil
  rw [pyStrip, List.dropWhile_cons_of_neg (by simp [hc]), List.reverse_eq_nil_iff] at hnil
  have hall := List.dropWhile_eq_nil_iff.mp hnil c (by simp)
  rw [hc] at hall
  cases hall

end Strips

section Joins

/-- A value that the splitter can give: trimmed, and not beginning with a comma. -/
structure Piece (value : List Char) : Prop where
  trimmed : Trimmed value
  begins : ∃ c text, value = c :: text ∧ c ≠ ','

/-- `', '.join(values)`. -/
def joined (values : List (List Char)) : List Char := [',', ' '].intercalate values

variable {value lead : List Char} {values : List (List Char)}

theorem split_of_cut (hpiece : Piece value) (hlead : ∀ c ∈ lead, isPySpace c = true)
    (hcut : scan (.outside 0) value = none) (rest : List Char) :
    ∃ piece pieces, (splitIn (.outside 0) lead (value ++ rest)).filter (· ≠ []) =
      piece :: pieces ∧ piece.length < value.length := by
  obtain ⟨before, after, pieces, rfl, hsplit⟩ := splitIn_of_cut lead hcut rest
  obtain ⟨c, text, htext, hcomma⟩ := hpiece.begins
  rw [pyStrip_append_lead (by simpa using hlead)] at hsplit
  cases before with
  | nil =>
    cases htext
    exact absurd rfl hcomma
  | cons d before =>
    have hspace := Trimmed.head hpiece.trimmed
    refine ⟨pyStrip (d :: before), pieces.filter (· ≠ []), ?_, ?_⟩
    · rw [hsplit, List.filter_cons_of_pos (by simpa using pyStrip_ne_nil hspace before)]
    · have hlength := pyStrip_length (d :: before)
      simp only [List.length_append, List.length_cons] at hlength ⊢
      omega

theorem split_of_open (hpiece : Piece value) (hlead : ∀ c ∈ lead, isPySpace c = true)
    {state : Scan} (hscan : scan (.outside 0) value = some state) (hopen : state ≠ .outside 0)
    (rest : List Char) :
    ∃ piece pieces, (splitIn (.outside 0) lead (value ++ ',' :: rest)).filter (· ≠ []) =
      piece :: pieces ∧ value.length < piece.length := by
  obtain ⟨c, text, rfl, -⟩ := hpiece.begins
  have hspace := hpiece.trimmed.head
  obtain ⟨next, hnext⟩ : ∃ next, scanChar state ',' = some next := by
    cases hchar : scanChar state ',' with
    | none => exact absurd (scanChar_eq_none hchar).1 hopen
    | some next => exact ⟨next, rfl⟩
  obtain ⟨taken, pieces, hsplit⟩ := splitIn_head next (',' :: ((c :: text).reverse ++ lead)) rest
  rw [← splitIn_cons hnext, ← splitIn_append _ hscan] at hsplit
  have hread : (',' :: ((c :: text).reverse ++ lead)).reverse ++ taken =
      lead.reverse ++ (c :: text ++ ',' :: taken) := by
    simp
  rw [hread, pyStrip_append_lead (by simpa using hlead)] at hsplit
  have hlength := length_pyStrip_between hspace (by decide : isPySpace ',' = false) text taken
  refine ⟨_, pieces.filter (· ≠ []), ?_, hlength⟩
  rw [hsplit, List.filter_cons_of_pos]
  simpa using pyStrip_ne_nil hspace (text ++ ',' :: taken)

/-- A list of values comes back if none of them is cut and only the last one may stay open. -/
theorem split_joined_iff (hne : values ≠ []) (hpieces : ∀ value ∈ values, Piece value)
    (hlead : ∀ c ∈ lead, isPySpace c = true) :
    (splitIn (.outside 0) lead (joined values)).filter (· ≠ []) = values ↔
      (∀ value ∈ values, (scan (.outside 0) value).isSome = true) ∧
        ∀ value ∈ values.dropLast, scan (.outside 0) value = some (.outside 0) := by
  induction values generalizing lead with
  | nil => exact absurd rfl hne
  | cons value values ih =>
    obtain ⟨hpiece, hothers⟩ := List.forall_mem_cons.mp hpieces
    obtain ⟨c, text, htext, -⟩ := hpiece.begins
    have hstrip : pyStrip (lead.reverse ++ value) = value := by
      rw [pyStrip_append_lead (by simpa using hlead)]
      exact hpiece.trimmed
    have hvalue : value ≠ [] := by
      rw [htext]
      exact List.cons_ne_nil c text
    cases values with
    | nil =>
      rw [joined, List.intercalate_singleton]
      cases hscan : scan (.outside 0) value with
      | none =>
        obtain ⟨piece, pieces, hsplit, hshort⟩ := split_of_cut hpiece hlead hscan []
        rw [List.append_nil] at hsplit
        rw [hsplit]
        simp only [List.forall_mem_singleton, hscan, Option.isSome_none, Bool.false_eq_true,
          false_and, iff_false, List.cons.injEq, not_and]
        rintro rfl
        omega
      | some state =>
        have hsplit := splitIn_append lead hscan []
        rw [List.append_nil, splitIn_nil, List.reverse_append, List.reverse_reverse, hstrip]
          at hsplit
        rw [hsplit]
        simp [hscan, hvalue]
    | cons other values =>
      have hjoined : joined (value :: other :: values) =
          value ++ ',' :: (' ' :: joined (other :: values)) := by
        rw [joined, List.intercalate_cons_cons, List.append_assoc]
        rfl
      rw [hjoined]
      cases hscan : scan (.outside 0) value with
      | none =>
        obtain ⟨piece, pieces, hsplit, hshort⟩ := split_of_cut hpiece hlead hscan
          (',' :: (' ' :: joined (other :: values)))
        rw [hsplit]
        simp only [List.forall_mem_cons, hscan, Option.isSome_none, Bool.false_eq_true,
          false_and, iff_false, List.cons.injEq, not_and]
        rintro rfl
        omega
      | some state =>
        by_cases hopen : state = .outside 0
        · subst hopen
          have hspace : scanChar (.outside 0) ' ' = some (.outside 0) := rfl
          rw [splitIn_append _ hscan, splitIn_comma, List.reverse_append, List.reverse_reverse,
            hstrip, splitIn_cons hspace, List.filter_cons_of_pos (by simpa using hvalue),
            List.cons.injEq]
          have hrest := ih (List.cons_ne_nil other values) hothers
            (show ∀ c ∈ [' '], isPySpace c = true by simp [isPySpace])
          rw [List.dropLast_cons_cons, List.forall_mem_cons, List.forall_mem_cons, hrest]
          simp [hscan]
        · obtain ⟨piece, pieces, hsplit, hlong⟩ := split_of_open hpiece hlead hscan hopen
            (' ' :: joined (other :: values))
          rw [hsplit, List.dropLast_cons_cons]
          constructor
          · intro h
            obtain ⟨rfl, -⟩ := List.cons.inj h
            omega
          · rintro ⟨-, hclosed⟩
            have hlast := hclosed value List.mem_cons_self
            rw [hscan] at hlast
            exact absurd (Option.some.inj hlast) hopen

end Joins

end Manus.Expression
