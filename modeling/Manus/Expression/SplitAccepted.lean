import Manus.Expression.SplitBack
import Mathlib.Data.Bool.AllAny

/-! # Accepted expressions that are split back

In an expression that the parser accepts, the splitter loses its way only in a subject. Both
read strings alike, up to the same quote, and every brace outside of the strings and the
subjects opens or closes an expression. So an expression whose subjects have no quotes and
no braces leaves the splitter where it began.
-/

namespace Manus.Expression

section Subjects

mutual

/-- The subjects of an expression and of the expressions among its arguments. -/
def Expr.subjects : Expr → List String
  | .mk subject calls => subject :: callsSubjects calls

def callsSubjects : List Call → List String
  | [] => []
  | call :: calls => call.subjects ++ callsSubjects calls

def Call.subjects : Call → List String
  | .mk _ args => argsSubjects args

def argsSubjects : List Node → List String
  | [] => []
  | arg :: args => arg.subjects ++ argsSubjects args

def Node.subjects : Node → List String
  | .literal _ => []
  | .expr e => e.subjects

end

def Inert (c : Char) : Prop := c ∉ ['\'', '"', '{', '}']

instance : DecidablePred Inert := fun c => inferInstanceAs (Decidable (c ∉ _))

def PlainSubject (subject : String) : Prop := ∀ c ∈ subject.toList, Inert c

def Level (depth : ℕ) (text : List Char) : Prop :=
  scan (.outside depth) text = some (.outside depth)

variable {depth : ℕ} {text rest : List Char}

theorem Level.append (h : Level depth text) (hrest : Level depth rest) :
    Level depth (text ++ rest) := by
  rw [Level, scan_append, show scan (.outside depth) text = _ from h]
  exact hrest

theorem scanChar_inert {c : Char} (h : Inert c) (hcut : depth ≠ 0 ∨ c ≠ ',') :
    scanChar (.outside depth) c = some (.outside depth) := by
  simp only [Inert, List.mem_cons, List.not_mem_nil, or_false, not_or] at h
  obtain ⟨hsingle, hdouble, hopen, hclose⟩ := h
  have hcomma : ¬ (c = ',' ∧ depth = 0) := by
    rintro ⟨rfl, rfl⟩
    simp at hcut
  simp [scanChar, hsingle, hdouble, hopen, hclose, hcomma]

theorem level_of_inert (h : ∀ c ∈ text, Inert c) (hcut : ∀ c ∈ text, depth ≠ 0 ∨ c ≠ ',') :
    Level depth text := by
  induction text with
  | nil => rfl
  | cons c text ih =>
    obtain ⟨hc, htext⟩ := List.forall_mem_cons.mp h
    obtain ⟨hcutc, hcuttext⟩ := List.forall_mem_cons.mp hcut
    rw [Level, scan_cons, scanChar_inert hc hcutc]
    exact ih htext hcuttext

theorem level_within (hdepth : 1 ≤ depth) (h : ∀ c ∈ text, Inert c) : Level depth text :=
  level_of_inert h fun _ _ => Or.inl (by omega)

theorem inert_of_space {c : Char} (h : isPySpace c = true) : Inert c ∧ c ≠ ',' := by
  have hspecial : ∀ d ∈ ['\'', '"', '{', '}', ','], isPySpace d = false :=
    List.all_iff_forall_prop.mp (by decide)
  constructor
  · intro hmem
    rw [hspecial c (List.mem_append_left [','] hmem)] at h
    cases h
  · rintro rfl
    cases h

theorem level_spaces (h : ∀ c ∈ text, isPySpace c = true) : Level depth text :=
  level_of_inert (fun c hc => (inert_of_space (h c hc)).1)
    fun c hc => Or.inr (inert_of_space (h c hc)).2

theorem mem_pyStrip_or {c : Char} (h : c ∈ text) : isPySpace c = true ∨ c ∈ pyStrip text := by
  by_cases hspace : isPySpace c = true
  · exact Or.inl hspace
  · right
    have hkeep : ∀ {l : List Char}, c ∈ l → c ∈ l.dropWhile isPySpace := by
      intro l hl
      rw [← List.takeWhile_append_dropWhile (p := isPySpace) (l := l)] at hl
      rcases List.mem_append.mp hl with hl | hl
      · exact absurd (List.mem_takeWhile_imp hl) hspace
      · exact hl
    rw [pyStrip, List.mem_reverse]
    apply hkeep
    rw [List.mem_reverse]
    exact hkeep h

theorem inert_of_stripped (h : ∀ c ∈ pyStrip text, Inert c) : ∀ c ∈ text, Inert c := by
  intro c hc
  rcases mem_pyStrip_or hc with hspace | hc
  · exact (inert_of_space hspace).1
  · exact h c hc

theorem skipSpace_eq (rest : List Char) :
    ∃ spaces, rest = spaces ++ skipSpace rest ∧ ∀ c ∈ spaces, isPySpace c = true :=
  ⟨rest.takeWhile isPySpace, List.takeWhile_append_dropWhile.symm,
    fun _ hc => List.mem_takeWhile_imp hc⟩

end Subjects

section Parsers

variable {α : Type}

/-- A parser that takes text which the splitter leaves at its depth, from some depth on, if the
subjects in what it reads are plain. -/
def Levels (least : ℕ) (subjects : α → List String) (parser : Parser α) : Prop :=
  ∀ rest a after, parser rest = .ok (a, after) → ∃ taken, rest = taken ++ after ∧
    ((∀ subject ∈ subjects a, PlainSubject subject) → ∀ depth, least ≤ depth → Level depth taken)

variable {rest after : List Char} {c : Char}

theorem expect_eq_ok {done : Unit} (h : expect c rest = .ok (done, after)) :
    ∃ spaces, rest = spaces ++ c :: after ∧ ∀ d ∈ spaces, isPySpace d = true := by
  obtain ⟨spaces, hrest, hspaces⟩ := skipSpace_eq rest
  unfold expect at h
  split at h
  · cases h
  · next d more hskip =>
    split at h
    · next heq =>
      cases h
      rw [hskip, heq] at hrest
      exact ⟨spaces, hrest, hspaces⟩
    · cases h

theorem cutSubject_eq {brackets : ℕ} {braces : ℤ} {text subject : List Char}
    (h : cutSubject brackets braces text = some (subject, after)) : text = subject ++ after := by
  induction text generalizing brackets braces subject with
  | nil => cases h
  | cons c text ih =>
    simp only [cutSubject] at h
    split at h
    · cases h
      rfl
    · obtain ⟨⟨subject', after'⟩, hcut, h⟩ := Option.map_eq_some_iff.mp h
      cases h
      rw [List.cons_append, ← ih hcut]

/-- The parser and the splitter end a string at the same quote. -/
theorem cutString_scan {quote : Char} (hquote : quote ≠ '\\') (depth : ℕ)
    {text chars : List Char}
    (h : cutString quote text = some (chars, after)) :
    ∃ taken, text = taken ++ after ∧
      scan (.within depth quote false) taken = some (.outside depth) := by
  fun_induction cutString quote text generalizing chars with
  | case1 => cases h
  | case2 =>
    cases h
    exact ⟨[quote], rfl, by simp [scanChar, hquote]⟩
  | case3 => cases h
  | case4 c d text hescape ih =>
    obtain ⟨⟨chars', after'⟩, hcut, h⟩ := Option.map_eq_some_iff.mp h
    cases h
    obtain ⟨taken, rfl, hscan⟩ := ih hcut
    obtain ⟨rfl, -⟩ := hescape
    exact ⟨'\\' :: d :: taken, rfl, by simpa [scanChar] using hscan⟩
  | case5 d text hescape =>
    cases h
    exact ⟨[quote], rfl, by simp [scanChar, hquote]⟩
  | case6 c d text hescape hne ih =>
    obtain ⟨⟨chars', after'⟩, hcut, h⟩ := Option.map_eq_some_iff.mp h
    cases h
    obtain ⟨taken, htaken, hscan⟩ := ih hcut
    refine ⟨c :: taken, by rw [htaken, List.cons_append], ?_⟩
    by_cases hbackslash : c = '\\'
    · -- what follows the backslash is neither a quote nor a backslash
      subst hbackslash
      cases taken with
      | nil => cases hscan
      | cons d' taken =>
        obtain ⟨rfl, -⟩ := List.cons.inj htaken
        have hplain : d ≠ quote ∧ d ≠ '\\' := by simpa using hescape
        simpa [scanChar, hplain.1, hplain.2] using hscan
    · simpa [scanChar, hbackslash, hne] using hscan

/-- A literal without quotes is a word or a number. -/
theorem parseBare_inert {node : Node} (h : parseBare rest = .ok (node, after)) :
    ∃ taken, rest = taken ++ after ∧ (∀ c ∈ taken, Inert c) ∧ node.subjects = [] := by
  let stays := fun c : Char => decide (c ≠ ',' ∧ c ≠ ')')
  have hsplit : rest = rest.takeWhile stays ++ rest.dropWhile stays :=
    List.takeWhile_append_dropWhile.symm
  refine ⟨rest.takeWhile stays, ?_⟩
  unfold parseBare at h
  dsimp only at h
  split at h
  · next hword =>
    cases h
    refine ⟨hsplit, inert_of_stripped ?_, rfl⟩
    rw [hword]
    exact List.all_iff_forall_prop.mp (by decide)
  · split at h
    · next hword =>
      cases h
      refine ⟨hsplit, inert_of_stripped ?_, rfl⟩
      rw [hword]
      exact List.all_iff_forall_prop.mp (by decide)
    · split at h
      · next x hnumber =>
        cases h
        refine ⟨hsplit, inert_of_stripped ?_, rfl⟩
        intro c hc hspecial
        have hnumeric : Double.NotNumeric c := by
          simp only [List.mem_cons, List.not_mem_nil, or_false] at hspecial
          rcases hspecial with rfl | rfl | rfl | rfl <;>
            exact ⟨by decide, by decide, by decide, by decide⟩
        exact Double.not_mem_of_ofText? hnumeric hnumber hc
      · cases h

variable {parseExpr : Parser Expr}

theorem parseArg_levels (h : Levels 0 Expr.subjects parseExpr) :
    Levels 1 Node.subjects (parseArg parseExpr) := by
  intro rest node after hread
  obtain ⟨spaces, hrest, hspaces⟩ := skipSpace_eq rest
  unfold parseArg at hread
  split at hread
  · next hskip =>
    rw [hskip] at hrest
    obtain ⟨taken, htaken, hinert, -⟩ := parseBare_inert hread
    refine ⟨spaces ++ taken, by rw [List.append_assoc, ← htaken]; exact hrest, ?_⟩
    intro _ depth hdepth
    exact (level_spaces hspaces).append (level_within hdepth hinert)
  · next c text hskip =>
    rw [hskip] at hrest
    split at hread
    · next hquote =>
      split at hread
      · next chars hcut =>
        cases hread
        have hbackslash : c ≠ '\\' := by
          rcases hquote with rfl | rfl <;> decide
        obtain ⟨taken, htaken, -⟩ := cutString_scan hbackslash 0 hcut
        refine ⟨spaces ++ c :: taken, by rw [hrest, htaken]; simp, ?_⟩
        intro _ depth hdepth
        obtain ⟨taken', htaken', hscan⟩ := cutString_scan hbackslash depth hcut
        obtain rfl : taken = taken' := List.append_cancel_right (htaken.symm.trans htaken')
        apply (level_spaces hspaces).append
        have hopen : scanChar (.outside depth) c = some (.within depth c false) := by
          have hne : depth ≠ 0 := by omega
          simp [scanChar, hquote, hne]
        rw [Level, scan_cons, hopen]
        exact hscan
      · cases hread
    · split at hread
      · obtain ⟨⟨e, after'⟩, he, hread⟩ := bind_eq_ok.mp hread
        cases hread
        obtain ⟨taken, htaken, hlevel⟩ := h _ _ _ he
        refine ⟨spaces ++ taken, by rw [hrest, htaken, List.append_assoc], ?_⟩
        intro hplain depth _
        exact (level_spaces hspaces).append (hlevel hplain depth (Nat.zero_le depth))
      · obtain ⟨taken, htaken, hinert, -⟩ := parseBare_inert hread
        refine ⟨spaces ++ taken, by rw [hrest, htaken, List.append_assoc], ?_⟩
        intro _ depth hdepth
        exact (level_spaces hspaces).append (level_within hdepth hinert)

theorem parseMoreArgs_levels (h : Levels 0 Expr.subjects parseExpr) (fuel : ℕ) :
    Levels 1 argsSubjects (parseMoreArgs parseExpr fuel) := by
  induction fuel with
  | zero =>
    intro rest args after hread
    cases hread
  | succ fuel ih =>
    intro rest args after hread
    rw [parseMoreArgs] at hread
    obtain ⟨⟨arg, middle⟩, harg, hmore⟩ := bind_eq_ok.mp hread
    obtain ⟨taken, rfl, hlevel⟩ := parseArg_levels h _ _ _ harg
    obtain ⟨spaces, hmiddle, hspaces⟩ := skipSpace_eq middle
    dsimp only at hmore
    split at hmore
    · next hskip =>
      cases hmore
      rw [hskip] at hmiddle
      refine ⟨taken ++ (spaces ++ [')']), by rw [hmiddle]; simp, ?_⟩
      intro hplain depth hdepth
      apply (hlevel (by simpa [argsSubjects] using hplain) depth hdepth).append
      exact (level_spaces hspaces).append
        (level_within hdepth (List.all_iff_forall_prop.mp (by decide)))
    · next more hskip =>
      obtain ⟨⟨args', after'⟩, hargs, hdone⟩ := bind_eq_ok.mp hmore
      cases hdone
      rw [hskip] at hmiddle
      obtain ⟨taken', rfl, hlevel'⟩ := ih _ _ _ hargs
      refine ⟨taken ++ (spaces ++ (',' :: taken')), by rw [hmiddle]; simp, ?_⟩
      intro hplain depth hdepth
      simp only [argsSubjects, List.forall_mem_append] at hplain
      apply (hlevel hplain.1 depth hdepth).append
      apply (level_spaces hspaces).append
      have hcomma : Level depth [','] :=
        level_within hdepth (List.all_iff_forall_prop.mp (by decide))
      exact hcomma.append (hlevel' hplain.2 depth hdepth)
    · cases hmore

theorem parseArgs_levels (h : Levels 0 Expr.subjects parseExpr) :
    Levels 1 argsSubjects (parseArgs parseExpr) := by
  intro rest args after hread
  obtain ⟨spaces, hrest, hspaces⟩ := skipSpace_eq rest
  unfold parseArgs at hread
  split at hread
  · next hskip =>
    cases hread
    rw [hskip] at hrest
    refine ⟨spaces ++ [')'], by rw [hrest]; simp, ?_⟩
    intro _ depth hdepth
    exact (level_spaces hspaces).append
      (level_within hdepth (List.all_iff_forall_prop.mp (by decide)))
  · obtain ⟨taken, htaken, hlevel⟩ := parseMoreArgs_levels h _ _ _ _ hread
    refine ⟨spaces ++ taken, by rw [List.append_assoc, ← htaken]; exact hrest, ?_⟩
    intro hplain depth hdepth
    exact (level_spaces hspaces).append (hlevel hplain depth hdepth)

theorem inert_of_isNameChar (h : isNameChar c = true) : Inert c := by
  have hspecial : ∀ d ∈ ['\'', '"', '{', '}'], isNameChar d = false :=
    List.all_iff_forall_prop.mp (by decide)
  intro hmem
  rw [hspecial c hmem] at h
  cases h

theorem parseCall_levels (h : Levels 0 Expr.subjects parseExpr) (first : Bool) :
    Levels 1 Call.subjects (parseCall parseExpr first) := by
  intro rest call after hread
  obtain ⟨spaces, hrest, hspaces⟩ := skipSpace_eq rest
  unfold parseCall at hread
  dsimp only at hread
  split at hread
  · cases hread
  · split at hread
    · cases hread
    · split at hread
      · cases hread
      · obtain ⟨⟨done, middle⟩, hexpect, hread⟩ := bind_eq_ok.mp hread
        obtain ⟨⟨args, after'⟩, hargs, hread⟩ := bind_eq_ok.mp hread
        dsimp only at hread
        split at hread
        · cases hread
        · obtain ⟨-, -, hread⟩ := bind_eq_ok.mp hread
          cases hread
          obtain ⟨gap, hname, hgap⟩ := expect_eq_ok hexpect
          obtain ⟨taken, htaken, hlevel⟩ := parseArgs_levels h _ _ _ hargs
          dsimp only at htaken
          rw [← List.takeWhile_append_dropWhile (p := isNameChar) (l := skipSpace rest),
            hname, htaken] at hrest
          refine ⟨spaces ++ ((skipSpace rest).takeWhile isNameChar ++ (gap ++ ('(' :: taken))),
            hrest.trans (by simp), ?_⟩
          intro hplain depth hdepth
          apply (level_spaces hspaces).append
          apply Level.append
          · apply level_within hdepth
            intro c hc
            exact inert_of_isNameChar (List.mem_takeWhile_imp hc)
          · apply (level_spaces hgap).append
            have hopen : Level depth ['('] :=
              level_within hdepth (List.all_iff_forall_prop.mp (by decide))
            exact hopen.append (hlevel (by simpa [Call.subjects] using hplain) depth hdepth)

theorem parseCalls_levels (h : Levels 0 Expr.subjects parseExpr) (fuel : ℕ) (first : Bool) :
    Levels 1 callsSubjects (parseCalls parseExpr fuel first) := by
  induction fuel generalizing first with
  | zero =>
    intro rest calls after hread
    cases hread
  | succ fuel ih =>
    intro rest calls after hread
    obtain ⟨spaces, hrest, hspaces⟩ := skipSpace_eq rest
    rw [parseCalls] at hread
    split at hread
    · next more hskip =>
      obtain ⟨⟨call, middle⟩, hcall, hread⟩ := bind_eq_ok.mp hread
      obtain ⟨⟨calls', after'⟩, hcalls, hread⟩ := bind_eq_ok.mp hread
      cases hread
      obtain ⟨taken, rfl, hlevel⟩ := parseCall_levels h first _ _ _ hcall
      obtain ⟨taken', rfl, hlevel'⟩ := ih false _ _ _ hcalls
      rw [hskip] at hrest
      refine ⟨spaces ++ (':' :: (taken ++ taken')), by rw [hrest]; simp, ?_⟩
      intro hplain depth hdepth
      simp only [callsSubjects, List.forall_mem_append] at hplain
      apply (level_spaces hspaces).append
      have hcolon : Level depth [':'] :=
        level_within hdepth (List.all_iff_forall_prop.mp (by decide))
      apply hcolon.append
      exact (hlevel hplain.1 depth hdepth).append (hlevel' hplain.2 depth hdepth)
    · cases hread
      refine ⟨spaces, hrest, ?_⟩
      intro _ depth _
      exact level_spaces hspaces

theorem parseExprBody_levels (h : Levels 0 Expr.subjects parseExpr) :
    Levels 0 Expr.subjects (parseExprBody parseExpr) := by
  intro rest e after hread
  unfold parseExprBody at hread
  obtain ⟨⟨done, rest₁⟩, hopen, hread⟩ := bind_eq_ok.mp hread
  dsimp only at hread
  split at hread
  · cases hread
  · next subject rest₂ hcut =>
    obtain ⟨⟨calls, rest₃⟩, hcalls, hread⟩ := bind_eq_ok.mp hread
    obtain ⟨⟨done, rest₄⟩, hclose, hread⟩ := bind_eq_ok.mp hread
    cases hread
    obtain ⟨lead, rfl, hlead⟩ := expect_eq_ok hopen
    obtain ⟨gap, rfl, hgap⟩ := expect_eq_ok hclose
    obtain ⟨taken, rfl, hlevel⟩ := parseCalls_levels h _ _ _ _ _ hcalls
    obtain rfl := cutSubject_eq hcut
    refine ⟨lead ++ ('{' :: (subject ++ (taken ++ (gap ++ ['}'])))), by simp, ?_⟩
    intro hplain depth _
    simp only [Expr.subjects, List.forall_mem_cons] at hplain
    apply (level_spaces hlead).append
    have hsubject : ∀ c ∈ subject, Inert c := by
      apply inert_of_stripped
      have hplainSubject := hplain.1
      rwa [PlainSubject, String.toList_ofList] at hplainSubject
    have hwithin : Level (depth + 1) (subject ++ (taken ++ gap)) :=
      (level_within (Nat.succ_pos depth) hsubject).append
        ((hlevel hplain.2 _ (Nat.succ_pos depth)).append (level_spaces hgap))
    have hbrace : scanChar (.outside depth) '{' = some (.outside (depth + 1)) := by
      simp [scanChar]
    have hend : scan (.outside (depth + 1)) ['}'] = some (.outside depth) := by
      simp [scanChar]
    have htext : subject ++ (taken ++ (gap ++ ['}'])) = subject ++ (taken ++ gap) ++ ['}'] := by
      simp
    rw [Level, scan_cons, hbrace, htext]
    simp only [Option.bind_some]
    rw [scan_append, show scan (.outside (depth + 1)) _ = _ from hwithin]
    exact hend

theorem parseExprTo_levels (levels : ℕ) : Levels 0 Expr.subjects (parseExprTo levels) := by
  induction levels with
  | zero =>
    intro rest e after hread
    cases hread
  | succ levels ih => exact parseExprBody_levels ih

end Parsers

section Values

/-- A value of a route: a literal without separators, or an expression that the parser accepts. -/
inductive RouteValue (value : String) : Prop where
  | literal (trimmed : Trimmed value.toList) (notBlank : value.toList ≠ [])
      (plain : ∀ c ∈ value.toList, Inert c ∧ c ≠ ',')
  | accepted (trimmed : Trimmed value.toList) (e : Expr) (read : parseExpression value = .ok e)

/-- The value alone has no comma outside of the braces that the splitter counts. -/
def Uncut (value : String) : Prop := (scan (.outside 0) value.toList).isSome = true

/-- The value alone leaves the splitter outside of all braces and quotes. -/
def Closed (value : String) : Prop := scan (.outside 0) value.toList = some (.outside 0)

variable {value : String} {values : List String}

theorem parseExpression_eq_ok (htrimmed : Trimmed value.toList) {e : Expr}
    (h : parseExpression value = .ok e) : ∃ rest, parseExprTo maxNesting value.toList =
      .ok (e, rest) ∧ skipSpace rest = [] := by
  unfold parseExpression at h
  rw [show pyStrip value.toList = value.toList from htrimmed] at h
  dsimp only at h
  split at h
  · next e' htop =>
    cases h
    obtain ⟨⟨e', rest⟩, hread, htop⟩ := bind_eq_ok.mp htop
    dsimp only at htop
    split at htop
    · cases htop
    · cases htop
    · next hskip _ =>
      split at htop
      · cases htop
        exact ⟨rest, hread, hskip⟩
      · cases htop
  · cases h

theorem begins_of_accepted (htrimmed : Trimmed value.toList) {e : Expr}
    (h : parseExpression value = .ok e) : ∃ text, value.toList = '{' :: text := by
  obtain ⟨rest, hread, -⟩ := parseExpression_eq_ok htrimmed h
  obtain ⟨⟨done, middle⟩, hopen, -⟩ := bind_eq_ok.mp hread
  obtain ⟨spaces, hspaces, hall⟩ := expect_eq_ok hopen
  cases spaces with
  | nil => exact ⟨middle, hspaces⟩
  | cons c spaces =>
    rw [hspaces] at htrimmed
    have hspace := hall c List.mem_cons_self
    rw [Trimmed.head htrimmed] at hspace
    cases hspace

theorem RouteValue.piece (h : RouteValue value) : Piece value.toList := by
  cases h with
  | literal htrimmed hblank hplain =>
    refine ⟨htrimmed, ?_⟩
    cases htext : value.toList with
    | nil => exact absurd htext hblank
    | cons c text =>
      rw [htext] at hplain
      exact ⟨c, text, rfl, (hplain c List.mem_cons_self).2⟩
  | accepted htrimmed e hread =>
    obtain ⟨text, htext⟩ := begins_of_accepted htrimmed hread
    exact ⟨htrimmed, '{', text, htext, by decide⟩

theorem closed_of_literal (hplain : ∀ c ∈ value.toList, Inert c ∧ c ≠ ',') : Closed value :=
  level_of_inert (fun c hc => (hplain c hc).1) fun c hc => Or.inr (hplain c hc).2

/-- An expression with plain subjects leaves nothing open. -/
theorem closed_of_plain (htrimmed : Trimmed value.toList) {e : Expr}
    (h : parseExpression value = .ok e) (hplain : ∀ subject ∈ e.subjects, PlainSubject subject) :
    Closed value := by
  obtain ⟨rest, hread, hskip⟩ := parseExpression_eq_ok htrimmed h
  obtain ⟨taken, htaken, hlevel⟩ := parseExprTo_levels maxNesting _ _ _ hread
  obtain ⟨spaces, hrest, hspaces⟩ := skipSpace_eq rest
  rw [hskip, List.append_nil] at hrest
  rw [Closed, htaken, hrest]
  exact (hlevel hplain 0 le_rfl).append (level_spaces hspaces)

theorem splitValues_eq_iff (hne : values ≠ [])
    (hpieces : ∀ value ∈ values, Piece value.toList) :
    splitValues (", ".intercalate values) = values ↔
      (∀ value ∈ values, Uncut value) ∧ ∀ value ∈ values.dropLast, Closed value := by
  have hjoined : (", ".intercalate values).toList = joined (values.map String.toList) := by
    rw [String.toList_intercalate]
    rfl
  have hsplit := split_joined_iff (show values.map String.toList ≠ [] by simpa using hne)
    (by simpa using hpieces) (show ∀ c ∈ ([] : List Char), isPySpace c = true by simp)
  have hvalues : splitValues (", ".intercalate values) = values ↔
      (splitIn (.outside 0) [] (joined (values.map String.toList))).filter (· ≠ []) =
        values.map String.toList := by
    rw [splitValues, hjoined]
    constructor
    · intro h
      have hlists := congrArg (List.map String.toList) h
      simpa [Function.comp_def, splitIn] using hlists
    · intro h
      have htexts := congrArg (List.map String.ofList) h
      simpa [Function.comp_def, splitIn] using htexts
  rw [hvalues, hsplit, ← List.map_dropLast]
  simp only [List.forall_mem_map]
  rfl

/-- Values whose expressions have plain subjects come back. -/
theorem splitValues_of_plain (hne : values ≠ []) (hvalues : ∀ value ∈ values, RouteValue value)
    (hplain : ∀ value ∈ values, ∀ e, parseExpression value = .ok e →
      ∀ subject ∈ e.subjects, PlainSubject subject) :
    splitValues (", ".intercalate values) = values := by
  have hclosed : ∀ value ∈ values, Closed value := by
    intro value hmem
    cases hvalues value hmem with
    | literal htrimmed hblank hinert => exact closed_of_literal hinert
    | accepted htrimmed e hread =>
      exact closed_of_plain htrimmed hread (hplain value hmem e hread)
  apply (splitValues_eq_iff hne fun value hmem => (hvalues value hmem).piece).mpr
  constructor
  · intro value hmem
    rw [Uncut, show scan (.outside 0) value.toList = _ from hclosed value hmem]
    rfl
  · intro value hmem
    exact hclosed value (List.mem_of_mem_dropLast hmem)

theorem routeValue_of_isOk (htrimmed : Trimmed value.toList)
    (h : (parseExpression value).isOk = true) : RouteValue value := by
  obtain ⟨e, he⟩ := isOk_iff.mp h
  exact .accepted htrimmed e he

theorem splitValues_role :
    splitValues (", ".intercalate ["\x7bdevice.role:in('a, b')\x7d", "core"]) =
      ["\x7bdevice.role:in('a, b')\x7d", "core"] := by
  apply splitValues_of_plain (List.cons_ne_nil _ _)
  · intro value hvalue
    rcases List.mem_pair.mp hvalue with rfl | rfl
    · exact routeValue_of_isOk rfl (by decide +kernel)
    · exact .literal rfl (by decide) (List.all_iff_forall_prop.mp (by decide))
  · have hall : ∀ value ∈ ["\x7bdevice.role:in('a, b')\x7d", "core"],
        ((parseExpression value).toOption.all fun e => e.subjects.all fun subject =>
          subject.toList.all fun c => decide (Inert c)) = true := by decide +kernel
    intro value hvalue e he subject hsubject c hc
    have hplain := hall value hvalue
    simp only [he, Except.toOption, Option.all_some, List.all_eq_true] at hplain
    exact of_decide_eq_true (hplain subject hsubject c hc)

/-- The list comes back exactly if no value is cut and only the last one may stay open. -/
theorem splitValues_join_iff (hne : values ≠ []) (hvalues : ∀ value ∈ values, RouteValue value) :
    splitValues (", ".intercalate values) = values ↔
      (∀ value ∈ values, Uncut value) ∧ ∀ value ∈ values.dropLast, Closed value :=
  splitValues_eq_iff hne fun value hmem => (hvalues value hmem).piece

theorem splitValues_join_iff_role :
    splitValues (", ".intercalate ["\x7bdevice.role:in('a, b', \"c\")\x7d", "core"]) =
      ["\x7bdevice.role:in('a, b', \"c\")\x7d", "core"] := by
  apply (splitValues_join_iff (List.cons_ne_nil _ _) ?_).mpr
  · constructor
    · intro value hvalue
      rcases List.mem_pair.mp hvalue with rfl | rfl <;> rfl
    · intro value hvalue
      obtain rfl := List.mem_singleton.mp hvalue
      rfl
  · intro value hvalue
    rcases List.mem_pair.mp hvalue with rfl | rfl
    · exact routeValue_of_isOk rfl (by decide +kernel)
    · exact .literal rfl (by decide) (List.all_iff_forall_prop.mp (by decide))

/-- A quote in a subject hides the comma after the expression. -/
theorem splitValues_quote :
    RouteValue "\x7bnautobot.location.O'Hare:exists()\x7d" ∧ RouteValue "core" ∧
    splitValues (", ".intercalate ["\x7bnautobot.location.O'Hare:exists()\x7d", "core"]) =
      ["\x7bnautobot.location.O'Hare:exists()\x7d, core"] := by
  refine ⟨routeValue_of_isOk rfl (by decide +kernel),
    .literal rfl (by decide) (List.all_iff_forall_prop.mp (by decide)), ?_⟩
  decide +kernel

end Values

end Manus.Expression
