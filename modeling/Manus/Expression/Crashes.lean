import Manus.Expression.Evaluator

/-! # Expressions that crash

Of everything an accepted expression does on a device, three things can go wrong:
a text is cut at a bound that is no finite number, the rest of an infinity is taken,
or an attribute hits the limit on the digits of an integer. Anything else ends in a
boolean or in the error of a regex that the runner could not answer.
-/

namespace Manus.Expression

def PyException.isUnavailable : PyException → Bool
  | .regexUnavailable _ _ => true
  | _ => false

def Crashes {α : Type} (x : Except PyException α) : Prop :=
  ∃ e, x = .error e ∧ e.isUnavailable = false

section Steps

variable {α β : Type}

@[simp] theorem not_crashes_ok (a : α) : ¬ Crashes (.ok a) := by
  rintro ⟨e, h, -⟩
  cases h

theorem crashes_error {e : PyException} :
    Crashes (.error e : Except PyException α) ↔ e.isUnavailable = false := by
  constructor
  · rintro ⟨e', h, hplain⟩
    cases h
    exact hplain
  · exact fun h => ⟨e, rfl, h⟩

theorem crashes_bind {x : Except PyException α} {f : α → Except PyException β} :
    Crashes (x >>= f) ↔ Crashes x ∨ ∃ a, x = .ok a ∧ Crashes (f a) := by
  cases x with
  | error e =>
    constructor
    · exact fun h => .inl (crashes_error.mpr (crashes_error.mp h))
    · rintro (h | ⟨a, h, -⟩)
      · exact crashes_error.mpr (crashes_error.mp h)
      · cases h
  | ok a =>
    constructor
    · exact fun h => .inr ⟨a, rfl, h⟩
    · rintro (h | ⟨a', h, h'⟩)
      · exact absurd h (not_crashes_ok a)
      · cases h
        exact h'

theorem crashes_seq {x : Evaluation α} {f : α → Evaluation β} {pending : Finset RegexKey} :
    Crashes ((x >>= f) pending) ↔ Crashes (x pending) ∨
      ∃ a pending', x pending = .ok (a, pending') ∧ Crashes (f a pending') := by
  rw [show (x >>= f) pending = (x pending >>= fun r => f r.1 r.2) from rfl, crashes_bind]
  simp only [Prod.exists]

theorem lift_apply (x : Except PyException α) (pending : Finset RegexKey) :
    (liftM x : Evaluation α) pending = x.map fun a => (a, pending) := by
  cases x <;> rfl

theorem crashes_lift {x : Except PyException α} {f : α → Evaluation β}
    {pending : Finset RegexKey} :
    Crashes (((liftM x : Evaluation α) >>= f) pending) ↔
      Crashes x ∨ ∃ a, x = .ok a ∧ Crashes (f a pending) := by
  rw [crashes_seq, lift_apply]
  cases x with
  | error e => simp [Except.map, crashes_error]
  | ok a => simp [Except.map]

theorem crashes_map {x : Evaluation α} {g : α → β} {pending : Finset RegexKey} :
    Crashes ((x >>= fun a => pure (g a)) pending) ↔ Crashes (x pending) := by
  rw [crashes_seq]
  constructor
  · rintro (h | ⟨a, pending', -, h⟩)
    · exact h
    · exact absurd h (not_crashes_ok _)
  · exact .inl

end Steps

section Functions

variable {name : String} {spec : FunctionSpec} {subject : Value} {args : List Value}
  {letters : TextCase} {regex : RegexLookup} {pending : Finset RegexKey}

theorem substring_raises :
    OnlyRaises (fun e => e.isUnavailable = false) (substring subject args) := by
  have hint : ∀ x, OnlyRaises (fun e : PyException => e.isUnavailable = false) (intOf x) := by
    intro x
    cases x with
    | finite v hv => exact .ok _
    | _ => exact .error rfl
  unfold substring
  rw [toText_eq]
  refine OnlyRaises.bind (.ok _) fun text => ?_
  split
  · split
    · exact .error rfl
    · refine OnlyRaises.bind (hint _) fun start => ?_
      dsimp only
      split
      · exact .ok _
      · exact OnlyRaises.bind (hint _) fun stop => .ok _
  · exact .ok _

theorem mod_raises :
    OnlyRaises (fun e => e.isUnavailable = false) (arithmetic mod subject args) := by
  have hpair : OnlyRaises (fun e : PyException => e.isUnavailable = false)
      (numberPair subject args) := by
    cases args with
    | nil => exact .error rfl
    | cons a args => exact .ok _
  refine OnlyRaises.bind hpair fun pair => ?_
  split
  · exact .ok _
  · unfold mod
    split
    · exact .ok _
    · split
      · exact .error rfl
      · exact .ok _

theorem callFails_crashes {impl : TextCase → Value → List Value → Except PyException Value}
    (hspec : functionSpec name = some spec) (himpl : spec.impl = some impl)
    (hfails : CallFails name subject args) (h : ∀ value, impl letters subject args ≠ .ok value) :
    Crashes (impl letters subject args) := by
  have hplain : OnlyRaises (fun e => e.isUnavailable = false) (impl letters subject args) := by
    rcases hfails with ⟨rfl, -⟩ | ⟨rfl, -⟩
    · cases hspec
      cases himpl
      exact substring_raises
    · cases hspec
      cases himpl
      exact mod_raises
  cases hresult : impl letters subject args with
  | ok value => exact absurd hresult (h value)
  | error e => exact crashes_error.mpr (hplain e hresult)

theorem impl_crashes {impl : TextCase → Value → List Value → Except PyException Value}
    (hspec : functionSpec name = some spec) (himpl : spec.impl = some impl)
    (htakes : spec.Takes args.length) :
    Crashes (impl letters subject args) ↔ CallFails name subject args := by
  have hreturns := @impl_returns subject args name spec impl letters hspec himpl htakes
  constructor
  · rintro ⟨e, he, -⟩
    by_contra hfine
    obtain ⟨value, hvalue⟩ := hreturns.mpr hfine
    rw [he] at hvalue
    cases hvalue
  · intro hfails
    apply callFails_crashes hspec himpl hfails
    intro value hvalue
    exact hreturns.mp ⟨value, hvalue⟩ hfails

theorem impl_isSome (hspec : functionSpec name = some spec) (hfirst : name ∉ firstOnlyFunctions)
    (hregex : regexFunctions.lookup name = none) : ∃ impl, spec.impl = some impl := by
  have htable : ∀ p ∈ functions, p.2.impl.isSome ∨ p.1 ∈ firstOnlyFunctions ∨
      (regexFunctions.lookup p.1).isSome := by
    decide +kernel
  rcases htable _ (mem_of_lookup hspec) with h | h | h
  · exact Option.isSome_iff_exists.mp h
  · exact absurd h hfirst
  · rw [hregex] at h
    cases h

theorem regexFunction_takes {mode : String} (hspec : functionSpec name = some spec)
    (hregex : regexFunctions.lookup name = some mode) :
    1 ≤ spec.minArgs ∧ name ≠ "substring" ∧ name ≠ "mod" := by
  have htable : ∀ p ∈ functions, (regexFunctions.lookup p.1).isSome →
      1 ≤ p.2.minArgs ∧ p.1 ≠ "substring" ∧ p.1 ≠ "mod" := by
    decide +kernel
  exact htable _ (mem_of_lookup hspec) (by rw [hregex]; rfl)

theorem test_not_crashes (key : RegexKey) : ¬ Crashes (regex.test key pending) := by
  unfold RegexLookup.test
  split
  · exact not_crashes_ok _
  · exact not_crashes_ok _
  · split
    · simp [crashes_error, invalidRegex, PyException.isUnavailable]
    · exact not_crashes_ok _
  · split
    · simp [crashes_error, stoppedRegex, PyException.isUnavailable]
    · exact not_crashes_ok _

theorem applyFunction_crashes (hspec : functionSpec name = some spec)
    (htakes : spec.Takes args.length) (hfirst : name ∉ firstOnlyFunctions) :
    Crashes (applyFunction letters regex name subject args pending) ↔
      CallFails name subject args := by
  unfold applyFunction
  cases hregex : regexFunctions.lookup name with
  | some mode =>
    obtain ⟨hmin, hsubstring, hmod⟩ := regexFunction_takes hspec hregex
    obtain ⟨a, args, rfl⟩ := List.exists_cons_of_length_pos (hmin.trans htakes.1)
    have hfine : ¬ CallFails name subject (a :: args) := by simp [CallFails, hsubstring, hmod]
    simp only [hfine, iff_false, crashes_lift, toText_eq, argument_cons, Except.ok.injEq,
      exists_eq_left', not_crashes_ok, false_or]
    cases textOf subject with
    | none => exact not_crashes_ok _
    | some text =>
      cases textOf a with
      | none => exact not_crashes_ok _
      | some pattern =>
        dsimp only
        rw [crashes_map]
        exact test_not_crashes _
  | none =>
    obtain ⟨impl, himpl⟩ := impl_isSome hspec hfirst hregex
    simp only [hspec, himpl]
    rw [← @impl_crashes name spec subject args letters impl hspec himpl htakes, lift_apply]
    cases impl letters subject args with
    | error e => simp [Except.map, crashes_error]
    | ok value => simp [Except.map]

end Functions

section Lookups

variable {device : DeviceContext} {error : Option ReportedError} {path : String}

variable (device error path) in
def LookupFails : Prop := ∃ e, resolveDeviceAttributeState device error path = .error e

theorem countItems_returns {raw : Json} {r : AttributeState × Option String}
    (h : classifyValue raw = .ok r) : ∃ n, countItems (unwrapSingletonList raw) = .ok n := by
  unfold classifyValue at h
  unfold countItems
  split
  · exact ⟨1, rfl⟩
  · cases hu : unwrapSingletonList raw with
    | null => exact ⟨0, rfl⟩
    | arr items => exact ⟨_, rfl⟩
    | obj fields => exact ⟨_, rfl⟩
    | int n =>
      simp only [hu] at h
      obtain ⟨text, htext, -⟩ := map_eq_ok.mp h
      simp only [htext]
      exact ⟨_, rfl⟩
    | _ => exact ⟨_, rfl⟩

theorem lookup_counts {r : AttributeState × Option String}
    (h : resolveDeviceAttributeState device error path = .ok r) :
    ∃ raw n, resolveDeviceAttributeRaw device error path = .ok raw ∧ countItems raw = .ok n := by
  obtain ⟨found, hraw, h⟩ := bind_eq_ok.mp h
  unfold resolveDeviceAttributeRaw
  rw [hraw]
  cases found with
  | none => exact ⟨.null, 0, rfl, rfl⟩
  | some raw =>
    obtain ⟨n, hn⟩ := countItems_returns h
    exact ⟨_, n, rfl, hn⟩

theorem chainStart_crashes {calls : List Call} :
    Crashes (chainStart device error path calls) ↔ LookupFails device error path := by
  unfold chainStart
  rw [crashes_bind]
  cases hstate : resolveDeviceAttributeState device error path with
  | error e =>
    have hlimit := resolveDeviceAttributeState_raises device error path e hstate
    constructor
    · exact fun _ => ⟨e, hstate⟩
    · exact fun _ => .inl (crashes_error.mpr (by rw [hlimit]; rfl))
  | ok r =>
    have hnot : ¬ LookupFails device error path := by
      rintro ⟨e, he⟩
      rw [hstate] at he
      cases he
    simp only [hnot, iff_false, not_crashes_ok, false_or, Except.ok.injEq, exists_eq_left']
    obtain ⟨state, text⟩ := r
    dsimp only
    cases calls with
    | nil => exact not_crashes_ok _
    | cons call calls =>
      dsimp only
      split
      · obtain ⟨raw, n, hraw, hn⟩ := lookup_counts hstate
        have hcount : (do
            let items ← countItems (← resolveDeviceAttributeRaw device error path)
            pure (Value.number (Double.round items), true)) =
            (.ok (Value.number (Double.round n), true) : Except PyException (Value × Bool)) :=
          bind_eq_ok.mpr ⟨raw, hraw, bind_eq_ok.mpr ⟨n, hn, rfl⟩⟩
        rw [hcount]
        exact not_crashes_ok _
      · split <;> exact not_crashes_ok _

theorem first_of_chainStart {call : Call} {calls : List Call} {value : Value}
    (h : chainStart device error path (call :: calls) = .ok (value, false)) :
    call.name ∉ firstOnlyFunctions := by
  obtain ⟨⟨state, text⟩, -, h⟩ := bind_eq_ok.mp h
  dsimp only at h
  split at h
  · obtain ⟨raw, -, h⟩ := bind_eq_ok.mp h
    obtain ⟨n, -, h⟩ := bind_eq_ok.mp h
    cases h
  · rename_i hcount
    split at h
    · cases h
    · rename_i hstate
      intro hmem
      rcases List.mem_cons.mp hmem with hmem | hmem
      · exact hcount hmem
      · have hall : ∀ name ∈ stateFunctions, (stateForFunction.lookup name).isSome := by decide
        have hsome := hall _ hmem
        rw [hstate] at hsome
        cases hsome

end Lookups

section Reached

variable (letters : TextCase) (device : DeviceContext) (defaultPath : String)
  (regex : RegexLookup) (error : Option ReportedError)

mutual

/-- The evaluation of the expression comes to a lookup or to a call that goes wrong. -/
def ExprFails : Expr → Finset RegexKey → Prop
  | .mk subject calls, pending =>
    let path := if subject = "" then defaultPath else subject
    LookupFails device error path ∨
      ∃ value answered, chainStart device error path calls = .ok (value, answered) ∧
        match calls with
        | [] => False
        | call :: calls =>
          if answered = true then CallsFail calls value pending
          else ApplyFails call value pending ∨
            ∃ value' pending',
              applyCall letters device defaultPath regex error call value pending =
                .ok (value', pending') ∧ CallsFail calls value' pending'

def CallsFail : List Call → Value → Finset RegexKey → Prop
  | [], _, _ => False
  | call :: calls, value, pending => ApplyFails call value pending ∨
    ∃ value' pending',
      applyCall letters device defaultPath regex error call value pending =
        .ok (value', pending') ∧ CallsFail calls value' pending'

def ApplyFails : Call → Value → Finset RegexKey → Prop
  | .mk name args, value, pending => ArgsFail args pending ∨
    ∃ values pending', argValues letters device defaultPath regex error args pending =
      .ok (values, pending') ∧ CallFails name value values

def ArgsFail : List Node → Finset RegexKey → Prop
  | [], _ => False
  | arg :: args, pending => NodeFails arg pending ∨
    ∃ value pending', nodeValue letters device defaultPath regex error arg pending =
      .ok (value, pending') ∧ ArgsFail args pending'

def NodeFails : Node → Finset RegexKey → Prop
  | .literal _, _ => False
  | .expr e, pending => ExprFails e pending

end

variable {letters device defaultPath regex error}

theorem length_argValues {args : List Node} {values : List Value}
    {pending pending' : Finset RegexKey}
    (h : argValues letters device defaultPath regex error args pending = .ok (values, pending')) :
    values.length = args.length := by
  induction args generalizing values pending with
  | nil =>
    cases h
    rfl
  | cons arg args ih =>
    rw [argValues] at h
    obtain ⟨⟨value, pending₁⟩, -, h⟩ := bind_eq_ok.mp h
    obtain ⟨⟨rest, pending₂⟩, hrest, h⟩ := bind_eq_ok.mp h
    cases h
    simp [ih hrest]

mutual

theorem exprValue_crashes : ∀ (e : Expr) (pending : Finset RegexKey), e.WellFormed →
    (Crashes (exprValue letters device defaultPath regex error e pending) ↔
      ExprFails letters device defaultPath regex error e pending)
  | .mk subject [], pending, _ => by
    simp only [exprValue, ExprFails]
    rw [crashes_lift, chainStart_crashes]
    apply or_congr Iff.rfl
    simp only [Prod.exists, and_false, exists_false, iff_false]
    rintro ⟨value, answered, -, h⟩
    exact not_crashes_ok _ h
  | .mk subject (call :: calls), pending, hwf => by
    simp only [exprValue, ExprFails]
    rw [crashes_lift, chainStart_crashes]
    apply or_congr Iff.rfl
    simp only [Prod.exists]
    refine exists_congr fun value => exists_congr fun answered => and_congr_right fun hstart => ?_
    cases answered with
    | true =>
      simp only [if_true]
      exact callsValue_crashes calls value pending hwf.2
    | false =>
      simp only [Bool.false_eq_true, if_false]
      rw [crashes_seq, applyCall_crashes call value pending true hwf.1 (first_of_chainStart hstart)]
      refine or_congr Iff.rfl (exists_congr fun value' => exists_congr fun pending' =>
        and_congr_right fun _ => ?_)
      exact callsValue_crashes calls value' pending' hwf.2

theorem callsValue_crashes : ∀ (calls : List Call) (value : Value) (pending : Finset RegexKey),
    CallsWellFormed false calls →
    (Crashes (callsValue letters device defaultPath regex error calls value pending) ↔
      CallsFail letters device defaultPath regex error calls value pending)
  | [], value, pending, _ => by
    simp only [callsValue, CallsFail, iff_false]
    exact not_crashes_ok _
  | call :: calls, value, pending, hwf => by
    have hfirst : call.name ∉ firstOnlyFunctions := by
      obtain ⟨name, args⟩ := call
      intro hmem
      cases hwf.1.2.1 hmem
    simp only [callsValue, CallsFail]
    rw [crashes_seq, applyCall_crashes call value pending false hwf.1 hfirst]
    refine or_congr Iff.rfl (exists_congr fun value' => exists_congr fun pending' =>
      and_congr_right fun _ => ?_)
    exact callsValue_crashes calls value' pending' hwf.2

theorem applyCall_crashes :
    ∀ (call : Call) (value : Value) (pending : Finset RegexKey) (first : Bool),
    call.WellFormed first → call.name ∉ firstOnlyFunctions →
    (Crashes (applyCall letters device defaultPath regex error call value pending) ↔
      ApplyFails letters device defaultPath regex error call value pending)
  | .mk name args, value, pending, first, hwf, hfirst => by
    simp only [applyCall, ApplyFails]
    rw [crashes_seq, argValues_crashes args pending hwf.2.2]
    refine or_congr Iff.rfl (exists_congr fun values => exists_congr fun pending' =>
      and_congr_right fun hvalues => ?_)
    obtain ⟨⟨spec, hspec, htakes⟩, -, -⟩ := hwf
    rw [← length_argValues hvalues] at htakes
    exact applyFunction_crashes hspec htakes hfirst

theorem argValues_crashes : ∀ (args : List Node) (pending : Finset RegexKey),
    ArgsWellFormed args →
    (Crashes (argValues letters device defaultPath regex error args pending) ↔
      ArgsFail letters device defaultPath regex error args pending)
  | [], pending, _ => by
    simp only [argValues, ArgsFail, iff_false]
    exact not_crashes_ok _
  | arg :: args, pending, hwf => by
    simp only [argValues, ArgsFail]
    rw [crashes_seq, nodeValue_crashes arg pending hwf.1]
    refine or_congr Iff.rfl (exists_congr fun value => exists_congr fun pending' =>
      and_congr_right fun _ => ?_)
    rw [crashes_map]
    exact argValues_crashes args pending' hwf.2

theorem nodeValue_crashes : ∀ (arg : Node) (pending : Finset RegexKey), arg.WellFormed →
    (Crashes (nodeValue letters device defaultPath regex error arg pending) ↔
      NodeFails letters device defaultPath regex error arg pending)
  | .literal value, pending, _ => by
    simp only [nodeValue, NodeFails, iff_false]
    exact not_crashes_ok _
  | .expr e, pending, hwf => by
    simp only [nodeValue, NodeFails]
    exact exprValue_crashes e pending hwf

end

/-- An accepted expression holds or does not hold for a device, or ends in the error that a route
step expects, exactly when its evaluation comes to nothing that goes wrong. -/
theorem evaluate_returns_iff {value : String} {e : Expr} (h : parseExpression value = .ok e)
    (pending : Finset RegexKey) :
    ((∃ holds pending', evaluate letters device defaultPath regex error e pending =
        .ok (holds, pending')) ∨
      ∃ x, evaluate letters device defaultPath regex error e pending = .error x ∧
        x.isUnavailable = true) ↔
      ¬ ExprFails letters device defaultPath regex error e pending := by
  rw [← exprValue_crashes e pending (parseExpression_wellFormed h)]
  have hmap : Crashes (evaluate letters device defaultPath regex error e pending) ↔
      Crashes (exprValue letters device defaultPath regex error e pending) := crashes_map
  rw [← hmap]
  cases evaluate letters device defaultPath regex error e pending with
  | ok r =>
    obtain ⟨holds, pending'⟩ := r
    constructor
    · exact fun _ => not_crashes_ok _
    · exact fun _ => .inl ⟨holds, pending', rfl⟩
  | error x =>
    rw [crashes_error, Bool.not_eq_false]
    constructor
    · rintro (⟨holds, pending', h⟩ | ⟨x', h, hx⟩)
      · cases h
      · cases h
        exact hx
    · exact fun hx => .inr ⟨x, rfl, hx⟩

end Reached

section Examples

def asciiCase : TextCase where
  casefold text := String.ofList (text.toList.map Char.toLower)
  lower text := String.ofList (text.toList.map Char.toLower)
  upper text := String.ofList (text.toList.map Char.toUpper)

def namedDevice : DeviceContext := { id := "d1", name := "sw1", hostname := "sw1" }

def cutAtInfinity : String := "\x7bname:substring(inf):equals('a')\x7d"

/-- An expression that is accepted, and raises an `OverflowError` on every device with a name. -/
theorem cutAtInfinity_crashes : ∃ e x, parseExpression cutAtInfinity = .ok e ∧
    evaluate asciiCase namedDevice "name" {} none e ∅ = .error x ∧ x.isUnavailable = false := by
  have hquery : ((parseExpression cutAtInfinity).toOption.any fun e =>
      match evaluate asciiCase namedDevice "name" {} none e ∅ with
      | .ok _ => false
      | .error x => !x.isUnavailable) = true := by
    decide +kernel
  obtain ⟨e, he, hquery⟩ := (Option.any_eq_true _ _).mp hquery
  split at hquery
  · cases hquery
  · rename_i x hx
    exact ⟨e, x, toOption_eq_some.mp he, hx, by simpa using hquery⟩

def cutInside : String := "\x7bname:substring(0,2):equals('sw')\x7d"

theorem cutInside_returns : ∃ e, parseExpression cutInside = .ok e ∧
    (((∃ holds pending', evaluate asciiCase namedDevice "name" {} none e ∅ =
        .ok (holds, pending')) ∨
      ∃ x, evaluate asciiCase namedDevice "name" {} none e ∅ = .error x ∧
        x.isUnavailable = true) ↔
      ¬ ExprFails asciiCase namedDevice "name" {} none e ∅) := by
  have haccepted : (parseExpression cutInside).toOption.isSome = true := by decide +kernel
  obtain ⟨e, he⟩ := Option.isSome_iff_exists.mp haccepted
  have hparse := toOption_eq_some.mp he
  exact ⟨e, hparse, evaluate_returns_iff hparse ∅⟩

end Examples

end Manus.Expression
