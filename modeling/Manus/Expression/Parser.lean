import Manus.Expression.Functions

/-! # Parsing of attribute expressions

A recursive descent over what is left of the text. Arguments nest to a bounded
depth; the chains of calls and the lists of arguments are loops in which every
round takes at least one character.
-/

namespace Manus.Expression

section Syntax

mutual

inductive Node where
  | literal (value : Value)
  | expr (e : Expr)

inductive Call where
  | mk (name : String) (args : List Node)

/-- A path, the empty one being the path of the step, and a chain of calls. -/
inductive Expr where
  | mk (subject : String) (calls : List Call)

end

def Call.name : Call → String
  | mk name _ => name

def Call.args : Call → List Node
  | mk _ args => args

def Expr.subject : Expr → String
  | mk subject _ => subject

def Expr.calls : Expr → List Call
  | mk _ calls => calls

/-- The type that the chain ends in; a path without calls has none. -/
def returnsOf (e : Expr) : Option ReturnType :=
  e.calls.getLast?.bind fun call => (functionSpec call.name).map FunctionSpec.returns

def maxNesting : ℕ := 16

end Syntax

section Scanning

/-- Why and where the parser stops; `unfinished` when a loop had too few rounds. -/
inductive Refusal where
  | refused (message : String) (rest : List Char)
  | unfinished

/-- A parser, with what it leaves of the text. -/
abbrev Parser (α : Type) := List Char → Except Refusal (α × List Char)

def refuse {α : Type} (message : String) (rest : List Char) : Except Refusal α :=
  .error (.refused message rest)

def skipSpace (rest : List Char) : List Char := rest.dropWhile isPySpace

def expect (c : Char) : Parser Unit := fun rest =>
  match skipSpace rest with
  | [] => refuse ("expected " ++ reprText (String.ofList [c])) []
  | d :: more =>
    if d = c then .ok ((), more)
    else refuse ("expected " ++ reprText (String.ofList [c])) (d :: more)

/-- `_subject_end`: the text up to the colon or the brace that ends the subject. -/
def cutSubject (brackets : ℕ) (braces : ℤ) : List Char → Option (List Char × List Char)
  | [] => none
  | c :: text =>
    if (c = '}' ∨ c = ':') ∧ brackets = 0 ∧ braces = 0 then some ([], c :: text)
    else
      let brackets := if c = '[' then brackets + 1 else if c = ']' then brackets - 1 else brackets
      let braces := if c = '{' then braces + 1 else if c = '}' then braces - 1 else braces
      (cutSubject brackets braces text).map fun r => (c :: r.1, r.2)

def isExpression (value : String) : Bool :=
  let text := pyStrip value.toList
  3 ≤ text.length && text.head? == some '{' && text.getLast? == some '}' &&
    match cutSubject 0 0 (text.drop 1) with
    | some (_, ':' :: _) => true
    | _ => false

/-- The characters of a string up to its closing quote. A backslash stands for itself unless a
quote or a backslash follows it. -/
def cutString (quote : Char) : List Char → Option (List Char × List Char)
  | [] => none
  | [c] => if c = quote then some ([], []) else none
  | c :: d :: text =>
    if c = '\\' ∧ (d = quote ∨ d = '\\') then
      (cutString quote text).map fun r => (d :: r.1, r.2)
    else if c = quote then some ([], d :: text)
    else (cutString quote (d :: text)).map fun r => (c :: r.1, r.2)

def isNameStart (c : Char) : Bool := c.isAlpha || c == '_'

def isNameChar (c : Char) : Bool := c.isAlphanum || c == '_'

end Scanning

section Parsing

/-- A literal without quotes, up to the next comma or parenthesis. -/
def parseBare : Parser Node := fun rest =>
  let stays := fun c => c ≠ ',' ∧ c ≠ ')'
  let token := pyStrip (rest.takeWhile fun c => decide (stays c))
  let after := rest.dropWhile fun c => decide (stays c)
  if token = "true".toList then .ok (.literal (.bool true), after)
  else if token = "false".toList then .ok (.literal (.bool false), after)
  else
    match Double.ofText? token with
    | some x => .ok (.literal (.number x), after)
    | none => refuse "expected a quoted string, a number, true/false or \x7breference\x7d" rest

variable (parseExpr : Parser Expr)

def parseArg : Parser Node := fun rest =>
  match skipSpace rest with
  | [] => parseBare []
  | c :: text =>
    if c = '\'' ∨ c = '"' then
      match cutString c text with
      | some (chars, after) => .ok (.literal (.text (String.ofList chars)), after)
      | none => refuse "unterminated string" []
    else if c = '{' then do
      let (e, after) ← parseExpr (c :: text)
      return (.expr e, after)
    else parseBare (c :: text)

/-- The arguments from one on. -/
def parseMoreArgs : ℕ → Parser (List Node)
  | 0, _ => .error .unfinished
  | fuel + 1, rest => do
    let (arg, after) ← parseArg parseExpr rest
    match skipSpace after with
    | ')' :: after => return ([arg], after)
    | ',' :: after => do
      let (args, after) ← parseMoreArgs fuel after
      return (arg :: args, after)
    | after => refuse "expected ',' or ')'" after

def parseArgs : Parser (List Node) := fun rest =>
  match skipSpace rest with
  | ')' :: after => .ok ([], after)
  | rest => parseMoreArgs parseExpr (rest.length + 1) rest

/-- The checks of single arguments. -/
def checkArgs (name : String) (args : List Node) (rest : List Char) : Except Refusal Unit :=
  if name = "and" ∨ name = "or" then
    match args with
    | .expr e :: _ =>
      if returnsOf e = some .bool then .ok ()
      else refuse (name ++ "() needs a boolean expression such as \x7bx:exists()\x7d") rest
    | _ => refuse (name ++ "() needs a boolean expression such as \x7bx:exists()\x7d") rest
  else if (regexFunctions.lookup name).isSome then
    match args with
    | .literal (.text "") :: _ => refuse (name ++ "() needs a non-empty pattern") rest
    | _ => .ok ()
  else .ok ()

def parseCall (first : Bool) : Parser Call := fun rest =>
  let rest := skipSpace rest
  let name := String.ofList (rest.takeWhile isNameChar)
  if !(rest.head?.any isNameStart) then refuse "expected a function name" rest
  else
    match functionSpec name with
    | none => refuse ("unknown function " ++ reprText name) rest
    | some spec =>
      if name ∈ firstOnlyFunctions ∧ first = false then
        refuse (name ++ "() must be the first function in the chain") rest
      else do
        let ((), after) ← expect '(' (rest.dropWhile isNameChar)
        let (args, after) ← parseArgs parseExpr after
        if args.length < spec.minArgs ∨ spec.maxArgs.any (· < args.length) then
          refuse ("wrong number of arguments for " ++ name ++ "()") after
        else do
          checkArgs name args after
          return (.mk name args, after)

def parseCalls : ℕ → Bool → Parser (List Call)
  | 0, _, _ => .error .unfinished
  | fuel + 1, first, rest =>
    match skipSpace rest with
    | ':' :: after => do
      let (call, after) ← parseCall parseExpr first after
      let (calls, after) ← parseCalls fuel false after
      return (call :: calls, after)
    | after => .ok ([], after)

def parseExprBody : Parser Expr := fun rest => do
  let ((), rest) ← expect '{' rest
  match cutSubject 0 0 rest with
  | none => refuse "missing closing '\x7d'" rest
  | some (subject, rest) => do
    let (calls, rest) ← parseCalls parseExpr (rest.length + 1) true rest
    let ((), rest) ← expect '}' rest
    return (.mk (String.ofList (pyStrip subject)) calls, rest)

/-- `parse_expr`, with the number of levels that may still be opened. -/
def parseExprTo : ℕ → Parser Expr
  | 0, rest => refuse "expressions are nested more than 16 levels deep" rest
  | levels + 1, rest => parseExprBody (parseExprTo levels) rest

def parseTopLevel (text : List Char) : Except Refusal Expr := do
  let (e, rest) ← parseExprTo maxNesting text
  match skipSpace rest, e.calls.getLast? with
  | c :: rest, _ => refuse "unexpected text after the closing '\x7d'" (c :: rest)
  | [], none => refuse "a function is required after ':'" []
  | [], some call =>
    if returnsOf e = some .bool then return e
    else refuse ("the last function " ++ reprText call.name ++ " must return a boolean") []

/-- The message of the `ValueError`. -/
def Refusal.text (text : List Char) : Refusal → String
  | .refused message rest => "invalid expression " ++ reprText (String.ofList text) ++ ": " ++
      message ++ " at position " ++ toString (text.length - rest.length)
  | .unfinished => ""

def parseExpression (value : String) : Except String Expr :=
  let text := pyStrip value.toList
  match parseTopLevel text with
  | .ok e => .ok e
  | .error refusal => .error (refusal.text text)

end Parsing

section WellFormed

mutual

/-- Every call names a function and has as many arguments as it takes, and the functions that read
the subject stand first in their chains. -/
def Expr.WellFormed : Expr → Prop
  | .mk _ calls => CallsWellFormed true calls

def CallsWellFormed (first : Bool) : List Call → Prop
  | [] => True
  | call :: calls => call.WellFormed first ∧ CallsWellFormed false calls

def Call.WellFormed (first : Bool) : Call → Prop
  | .mk name args =>
    (∃ spec, functionSpec name = some spec ∧ spec.Takes args.length) ∧
      (name ∈ firstOnlyFunctions → first = true) ∧ ArgsWellFormed args

def ArgsWellFormed : List Node → Prop
  | [] => True
  | arg :: args => arg.WellFormed ∧ ArgsWellFormed args

def Node.WellFormed : Node → Prop
  | .literal _ => True
  | .expr e => e.WellFormed

end

/-- The parser does not run out of rounds, and what it accepts has the property. -/
def Yields {α : Type} (P : α → Prop) : Except Refusal α → Prop
  | .ok a => P a
  | .error (.refused _ _) => True
  | .error .unfinished => False

/-- A parser of things with the property; it only takes characters off the text. -/
def ParsesTo {α : Type} (P : α → Prop) (parser : Parser α) : Prop :=
  ∀ rest, Yields (fun r => P r.1 ∧ r.2.length ≤ rest.length) (parser rest)

variable {α β : Type} {P : α → Prop} {Q : β → Prop}

theorem Yields.refuse (message : String) (rest : List Char) : Yields P (refuse message rest) :=
  trivial

theorem Yields.bind {x : Except Refusal α} {f : α → Except Refusal β} (hx : Yields P x)
    (hf : ∀ a, P a → Yields Q (f a)) : Yields Q (x >>= f) := by
  cases x with
  | ok a => exact hf a hx
  | error refusal => cases refusal <;> exact hx

theorem Yields.mono {R : α → Prop} {x : Except Refusal α} (hx : Yields P x)
    (h : ∀ a, P a → R a) : Yields R x := by
  cases x with
  | ok a => exact h a hx
  | error refusal => cases refusal <;> exact hx

theorem skipSpace_length (rest : List Char) : (skipSpace rest).length ≤ rest.length :=
  (List.dropWhile_suffix _).length_le

theorem skipSpace_cons {rest after : List Char} {c : Char} (h : skipSpace rest = c :: after) :
    after.length < rest.length := by
  have hlength := skipSpace_length rest
  rw [h, List.length_cons] at hlength
  omega

theorem expect_yields (c : Char) (rest : List Char) :
    Yields (fun r => r.2.length ≤ rest.length) (expect c rest) := by
  unfold expect
  split
  · exact .refuse _ _
  · rename_i hd
    split
    · exact (skipSpace_cons hd).le
    · exact .refuse _ _

theorem cutSubject_length {brackets : ℕ} {braces : ℤ} {text subject after : List Char}
    (h : cutSubject brackets braces text = some (subject, after)) : after.length ≤ text.length := by
  induction text generalizing brackets braces subject with
  | nil => cases h
  | cons c text ih =>
    simp only [cutSubject] at h
    split at h
    · cases h
      exact le_rfl
    · obtain ⟨⟨subject', after'⟩, hcut, h⟩ := Option.map_eq_some_iff.mp h
      cases h
      exact (ih hcut).trans (Nat.le_succ _)

theorem cutString_length {quote : Char} {text chars after : List Char}
    (h : cutString quote text = some (chars, after)) : after.length ≤ text.length := by
  fun_induction cutString quote text generalizing chars with
  | case1 => cases h
  | case2 =>
    cases h
    simp
  | case3 => cases h
  | case4 c d text hescape ih =>
    obtain ⟨⟨chars', after'⟩, hcut, h⟩ := Option.map_eq_some_iff.mp h
    cases h
    exact (ih hcut).trans ((Nat.le_succ _).trans (Nat.le_succ _))
  | case5 d text =>
    cases h
    simp
  | case6 c d text hescape hquote ih =>
    obtain ⟨⟨chars', after'⟩, hcut, h⟩ := Option.map_eq_some_iff.mp h
    cases h
    exact (ih hcut).trans (Nat.le_succ _)

theorem parseBare_parses : ParsesTo Node.WellFormed parseBare := by
  intro rest
  have hafter : (rest.dropWhile fun c => decide (c ≠ ',' ∧ c ≠ ')')).length ≤ rest.length :=
    (List.dropWhile_suffix _).length_le
  unfold parseBare
  dsimp only
  split
  · exact ⟨trivial, hafter⟩
  · split
    · exact ⟨trivial, hafter⟩
    · split
      · exact ⟨trivial, hafter⟩
      · exact .refuse _ _

variable {parseExpr : Parser Expr}

theorem parseArg_parses (h : ParsesTo Expr.WellFormed parseExpr) :
    ParsesTo Node.WellFormed (parseArg parseExpr) := by
  intro rest
  have hspace := skipSpace_length rest
  unfold parseArg
  split
  · exact .refuse _ _
  · rename_i c text htext
    rw [htext] at hspace
    split
    · split
      · rename_i hcut
        exact ⟨trivial, (cutString_length hcut).trans (skipSpace_cons htext).le⟩
      · exact .refuse _ _
    · split
      · exact (h (c :: text)).bind fun r hr => ⟨hr.1, hr.2.trans hspace⟩
      · exact (parseBare_parses (c :: text)).mono fun r hr => ⟨hr.1, hr.2.trans hspace⟩

theorem parseMoreArgs_yields (h : ParsesTo Expr.WellFormed parseExpr) {fuel : ℕ}
    {rest : List Char} (hfuel : rest.length < fuel) :
    Yields (fun r => ArgsWellFormed r.1 ∧ r.2.length ≤ rest.length)
      (parseMoreArgs parseExpr fuel rest) := by
  induction fuel generalizing rest with
  | zero => omega
  | succ fuel ih =>
    rw [parseMoreArgs]
    apply (parseArg_parses h rest).bind
    rintro ⟨arg, after⟩ ⟨harg, hafter⟩
    dsimp only
    split
    · rename_i hclose
      exact ⟨⟨harg, trivial⟩, (skipSpace_cons hclose).le.trans hafter⟩
    · rename_i more hcomma
      have hmore := (skipSpace_cons hcomma).trans_le hafter
      apply (ih (by omega : more.length < fuel)).bind
      rintro ⟨args, after'⟩ ⟨hargs, hafter'⟩
      exact ⟨⟨harg, hargs⟩, hafter'.trans hmore.le⟩
    · exact .refuse _ _

theorem parseArgs_parses (h : ParsesTo Expr.WellFormed parseExpr) :
    ParsesTo ArgsWellFormed (parseArgs parseExpr) := by
  intro rest
  unfold parseArgs
  split
  · rename_i hclose
    exact ⟨trivial, (skipSpace_cons hclose).le⟩
  · apply (parseMoreArgs_yields h (Nat.lt_succ_self _)).mono
    exact fun r hr => ⟨hr.1, hr.2.trans (skipSpace_length rest)⟩

theorem checkArgs_yields (name : String) (args : List Node) (rest : List Char) :
    Yields (fun _ => True) (checkArgs name args rest) := by
  unfold checkArgs
  split
  · split
    · split
      · trivial
      · exact .refuse _ _
    · exact .refuse _ _
  · split
    · split
      · exact .refuse _ _
      · trivial
    · trivial

theorem parseCall_parses (h : ParsesTo Expr.WellFormed parseExpr) (first : Bool) :
    ParsesTo (Call.WellFormed first) (parseCall parseExpr first) := by
  intro rest
  have hspace := skipSpace_length rest
  unfold parseCall
  dsimp only
  split
  · exact .refuse _ _
  · split
    · exact .refuse _ _
    · rename_i spec hspec
      split
      · exact .refuse _ _
      · rename_i hfirst
        have hname : ((skipSpace rest).dropWhile isNameChar).length ≤ rest.length :=
          (List.dropWhile_suffix _).length_le.trans hspace
        apply (expect_yields _ _).bind
        rintro ⟨_, after⟩ (hafter : after.length ≤ _)
        apply (parseArgs_parses h after).bind
        rintro ⟨args, after'⟩ ⟨hargs, hafter'⟩
        dsimp only
        split
        · exact .refuse _ _
        · rename_i hcount
          apply (checkArgs_yields _ _ _).bind
          rintro - -
          refine ⟨⟨⟨spec, hspec, ?_⟩, ?_, hargs⟩, hafter'.trans (hafter.trans hname)⟩
          · push Not at hcount
            refine ⟨hcount.1, fun m hm => ?_⟩
            have hmax := hcount.2
            rw [hm] at hmax
            simpa using hmax
          · intro hmem
            by_contra hf
            exact hfirst ⟨hmem, by simpa using hf⟩

theorem parseCalls_yields (h : ParsesTo Expr.WellFormed parseExpr) {fuel : ℕ} {first : Bool}
    {rest : List Char} (hfuel : rest.length < fuel) :
    Yields (fun r => CallsWellFormed first r.1 ∧ r.2.length ≤ rest.length)
      (parseCalls parseExpr fuel first rest) := by
  induction fuel generalizing first rest with
  | zero => omega
  | succ fuel ih =>
    rw [parseCalls]
    split
    · rename_i more hcolon
      have hmore := skipSpace_cons hcolon
      apply (parseCall_parses h first more).bind
      rintro ⟨call, after⟩ ⟨hcall, hafter : after.length ≤ more.length⟩
      apply (ih (by omega : after.length < fuel)).bind
      rintro ⟨calls, after'⟩ ⟨hcalls, hafter'⟩
      exact ⟨⟨hcall, hcalls⟩, hafter'.trans (hafter.trans hmore.le)⟩
    · exact ⟨trivial, skipSpace_length rest⟩

theorem parseExprBody_parses (h : ParsesTo Expr.WellFormed parseExpr) :
    ParsesTo Expr.WellFormed (parseExprBody parseExpr) := by
  intro rest
  unfold parseExprBody
  apply (expect_yields _ _).bind
  rintro ⟨_, rest₁⟩ (hrest₁ : rest₁.length ≤ _)
  dsimp only
  split
  · exact .refuse _ _
  · rename_i subject rest₂ hcut
    have hrest₂ := cutSubject_length hcut
    apply (parseCalls_yields h (Nat.lt_succ_self _)).bind
    rintro ⟨calls, rest₃⟩ ⟨hcalls, hrest₃⟩
    apply (expect_yields _ _).bind
    rintro ⟨_, rest₄⟩ (hrest₄ : rest₄.length ≤ _)
    exact ⟨hcalls, hrest₄.trans (hrest₃.trans (hrest₂.trans hrest₁))⟩

theorem parseExprTo_parses (levels : ℕ) : ParsesTo Expr.WellFormed (parseExprTo levels) := by
  induction levels with
  | zero => exact fun rest => .refuse _ _
  | succ levels ih => exact parseExprBody_parses ih

theorem parseTopLevel_yields (text : List Char) : Yields Expr.WellFormed (parseTopLevel text) := by
  unfold parseTopLevel
  apply (parseExprTo_parses maxNesting text).bind
  rintro ⟨e, rest⟩ ⟨he, -⟩
  dsimp only
  split
  · exact .refuse _ _
  · exact .refuse _ _
  · split
    · exact he
    · exact .refuse _ _

theorem parseExpression_wellFormed {value : String} {e : Expr}
    (h : parseExpression value = .ok e) : e.WellFormed := by
  have hyields := parseTopLevel_yields (pyStrip value.toList)
  unfold parseExpression at h
  dsimp only at h
  cases htop : parseTopLevel (pyStrip value.toList) with
  | error refusal =>
    rw [htop] at h
    cases h
  | ok e' =>
    rw [htop] at h hyields
    cases h
    exact hyields

end WellFormed

end Manus.Expression
