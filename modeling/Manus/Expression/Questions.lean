import Manus.Lib.Dialogue
import Manus.Expression.Crashes

/-! # The questions of an expression

An evaluation reads the answers to its regex questions one at a time, so it is a
dialogue with the lookup: the same tree for every lookup, run with the answers that
the lookup has.
-/

namespace Manus.Expression

/-- What a lookup knows about a question, with the error that it raises in place of an answer. -/
def RegexLookup.known (regex : RegexLookup) (key : RegexKey) : Option (Except PyException Bool) :=
  (regex.results key).map fun
    | .found b => .ok b
    | .invalid => if regex.strict then .error invalidRegex else .ok false
    | .stopped => if regex.strict then .error stoppedRegex else .ok false

section Asks

variable {α β : Type}

def Follows (f : RegexLookup → Evaluation α) (t : Dialogue RegexKey Bool PyException α) : Prop :=
  ∀ regex, f regex = t.run regex.known

def Asks (f : RegexLookup → Evaluation α) : Prop := ∃ t, Follows f t

theorem Asks.lift (x : Except PyException α) : Asks fun _ => (liftM x : Evaluation α) := by
  refine ⟨.done x, fun regex => ?_⟩
  funext pending
  change (liftM x : Evaluation α) pending = _
  rw [lift_apply]
  simp [Dialogue.run, Dialogue.result, Dialogue.unanswered]

theorem Asks.pure (a : α) : Asks fun _ => (pure a : Evaluation α) := .lift (.ok a)

theorem Asks.bind {f : RegexLookup → Evaluation α} {g : RegexLookup → α → Evaluation β}
    (hf : Asks f) (hg : ∀ a, Asks fun regex => g regex a) :
    Asks fun regex => f regex >>= g regex := by
  obtain ⟨t, ht⟩ := hf
  choose u hu using hg
  refine ⟨t.bind u, fun regex => ?_⟩
  change f regex >>= g regex = _
  rw [Dialogue.run_bind, ht regex]
  exact congrArg _ (funext fun a => hu a regex)

theorem Asks.test (key : RegexKey) : Asks fun regex => regex.test key := by
  refine ⟨.ask key fun b => .done (.ok b), fun regex => ?_⟩
  funext pending
  simp only [RegexLookup.test, Dialogue.run, Dialogue.result, Dialogue.unanswered,
    RegexLookup.known]
  cases regex.results key with
  | none =>
    simp [Except.map]
  | some answer =>
    cases answer with
    | found b => simp [Except.map]
    | invalid => cases regex.strict <;> simp [Except.map]
    | stopped => cases regex.strict <;> simp [Except.map]

theorem Asks.mapM {γ : Type} {f : RegexLookup → γ → Evaluation α} {l : List γ}
    (h : ∀ x ∈ l, Asks fun regex => f regex x) : Asks fun regex => l.mapM (f regex) := by
  induction l with
  | nil => exact .pure []
  | cons x l ih =>
    simp only [List.mapM_cons]
    apply (h x List.mem_cons_self).bind
    intro a
    apply (ih fun y hy => h y (List.mem_cons_of_mem _ hy)).bind
    exact fun rest => .pure (a :: rest)

theorem Follows.run {f : RegexLookup → Evaluation α} {t : Dialogue RegexKey Bool PyException α}
    (h : Follows f t) (regex : RegexLookup) (pending : Finset RegexKey) :
    f regex pending = t.run regex.known pending := by
  rw [h regex]

theorem Asks.returns_iff {f : RegexLookup → Evaluation α} (h : Asks f) (regex : RegexLookup)
    (pending : Finset RegexKey) :
    (∃ r, f regex pending = .ok r) ↔ ∃ r, f regex ∅ = .ok r := by
  obtain ⟨t, ht⟩ := h
  simp only [ht.run, Prod.exists, Dialogue.run_eq_ok]
  simp

theorem seq_returns_iff {x : Evaluation α} {g : α → Evaluation β} {pending : Finset RegexKey} :
    (∃ r, (x >>= g) pending = .ok r) ↔
      ∃ a pending', x pending = .ok (a, pending') ∧ ∃ r, g a pending' = .ok r := by
  rw [show (x >>= g) pending = (x pending >>= fun r => g r.1 r.2) from rfl]
  simp only [bind_eq_ok, Prod.exists]
  constructor
  · rintro ⟨b, q, a, p, hx, hg⟩
    exact ⟨a, p, hx, b, q, hg⟩
  · rintro ⟨a, p, hx, b, q, hg⟩
    exact ⟨b, q, a, p, hx, hg⟩

theorem lift_returns_iff {x : Except PyException α} {g : α → Evaluation β}
    {pending : Finset RegexKey} :
    (∃ r, ((liftM x : Evaluation α) >>= g) pending = .ok r) ↔
      ∃ a, x = .ok a ∧ ∃ r, g a pending = .ok r := by
  rw [seq_returns_iff, lift_apply]
  cases x with
  | error e => simp [Except.map]
  | ok a => simp [Except.map]

theorem mapM_returns_iff {γ : Type} {f : RegexLookup → γ → Evaluation α} {l : List γ}
    (h : ∀ x ∈ l, Asks fun regex => f regex x) (regex : RegexLookup) (pending : Finset RegexKey) :
    (∃ r, l.mapM (f regex) pending = .ok r) ↔ ∀ x ∈ l, ∃ r, f regex x ∅ = .ok r := by
  induction l generalizing pending with
  | nil =>
    simp only [List.mapM_nil, List.not_mem_nil, false_imp_iff, implies_true, iff_true]
    exact ⟨_, rfl⟩
  | cons x l ih =>
    have ih := fun pending => ih (fun y hy => h y (List.mem_cons_of_mem _ hy)) pending
    rw [List.mapM_cons, seq_returns_iff, List.forall_mem_cons]
    rw [← (h x List.mem_cons_self).returns_iff regex pending]
    constructor
    · rintro ⟨a, pending', hx, hrest⟩
      obtain ⟨rest, pending'', hrest, -⟩ := seq_returns_iff.mp hrest
      exact ⟨⟨_, hx⟩, (ih pending').mp ⟨_, hrest⟩⟩
    · rintro ⟨⟨⟨a, pending'⟩, hx⟩, hrest⟩
      obtain ⟨⟨rest, pending''⟩, hrest⟩ := (ih pending').mpr hrest
      exact ⟨a, pending', hx, seq_returns_iff.mpr ⟨rest, pending'', hrest, _, rfl⟩⟩

theorem forM_returns_iff {γ : Type} {f : RegexLookup → γ → Evaluation Unit} {l : List γ}
    (h : ∀ x ∈ l, Asks fun regex => f regex x) (regex : RegexLookup) (pending : Finset RegexKey) :
    (∃ r, l.forM (f regex) pending = .ok r) ↔ ∀ x ∈ l, ∃ r, f regex x ∅ = .ok r := by
  induction l generalizing pending with
  | nil =>
    simp only [List.not_mem_nil, false_imp_iff, implies_true, iff_true]
    exact ⟨_, rfl⟩
  | cons x l ih =>
    have ih := fun pending => ih (fun y hy => h y (List.mem_cons_of_mem _ hy)) pending
    change (∃ r, (f regex x >>= fun _ => l.forM (f regex)) pending = .ok r) ↔ _
    rw [seq_returns_iff, List.forall_mem_cons]
    rw [← (h x List.mem_cons_self).returns_iff regex pending]
    constructor
    · rintro ⟨a, pending', hx, hrest⟩
      exact ⟨⟨_, hx⟩, (ih pending').mp hrest⟩
    · rintro ⟨⟨⟨a, pending'⟩, hx⟩, hrest⟩
      exact ⟨a, pending', hx, (ih pending').mpr hrest⟩

/-- A loop leaves on record what its turns do. -/
theorem forM_eq_ok {γ : Type} {f : RegexLookup → γ → Evaluation Unit} {l : List γ}
    (h : ∀ x ∈ l, Asks fun regex => f regex x) {regex : RegexLookup}
    {pending pending' : Finset RegexKey} :
    l.forM (f regex) pending = .ok ((), pending') ↔
      (∀ x ∈ l, ∃ r, f regex x ∅ = .ok r) ∧ ∀ key, key ∈ pending' ↔
        key ∈ pending ∨ ∃ x ∈ l, ∃ r, f regex x ∅ = .ok r ∧ key ∈ r.2 := by
  induction l generalizing pending with
  | nil =>
    simp only [List.not_mem_nil, false_imp_iff, implies_true, true_and, false_and,
      exists_false, or_false]
    constructor
    · intro heq
      cases heq
      exact fun key => Iff.rfl
    · intro hall
      rw [Finset.ext hall]
      rfl
  | cons x l ih =>
    have ih := fun pending => @ih (fun y hy => h y (List.mem_cons_of_mem _ hy)) pending
    obtain ⟨t, ht⟩ := h x List.mem_cons_self
    change (f regex x pending >>= fun r => l.forM (f regex) r.2) = _ ↔ _
    simp only [List.forall_mem_cons, List.exists_mem_cons_iff, ht.run]
    cases hresult : t.result regex.known with
    | error e =>
      have hnot : ∀ p, t.run regex.known p = .error e := fun p => Dialogue.run_eq_error.mpr hresult
      simp [hnot, bind, Except.bind]
    | ok a =>
      have hok : ∀ p, t.run regex.known p = .ok (a, p ∪ t.unanswered regex.known) :=
        fun p => Dialogue.run_eq_ok.mpr ⟨hresult, rfl⟩
      simp only [hok, bind, Except.bind, ih]
      simp [or_assoc]

end Asks

section Evaluate

variable (letters : TextCase) (device : DeviceContext) (defaultPath : String)
  (error : Option ReportedError)

theorem applyFunction_asks (name : String) (value : Value) (args : List Value) :
    Asks fun regex => applyFunction letters regex name value args := by
  unfold applyFunction
  split
  · apply (Asks.lift _).bind
    intro text
    apply (Asks.lift _).bind
    intro argument
    apply (Asks.lift _).bind
    intro pattern
    split
    · exact (Asks.test _).bind fun b => .pure _
    · exact .pure _
  · split
    · exact .lift (.error _)
    · split
      · exact .lift (.error _)
      · exact .lift _

mutual

theorem exprValue_asks : ∀ e : Expr,
    Asks fun regex => exprValue letters device defaultPath regex error e
  | .mk subject [] => by
    simp only [exprValue]
    exact (Asks.lift _).bind fun start => .pure start.1
  | .mk subject (call :: calls) => by
    simp only [exprValue]
    apply (Asks.lift _).bind
    rintro ⟨value, answered⟩
    cases answered with
    | true => exact callsValue_asks calls value
    | false => exact (applyCall_asks call value).bind fun value => callsValue_asks calls value

theorem callsValue_asks : ∀ (calls : List Call) (value : Value),
    Asks fun regex => callsValue letters device defaultPath regex error calls value
  | [], value => by
    simp only [callsValue]
    exact .pure value
  | call :: calls, value => by
    simp only [callsValue]
    exact (applyCall_asks call value).bind fun value => callsValue_asks calls value

theorem applyCall_asks : ∀ (call : Call) (value : Value),
    Asks fun regex => applyCall letters device defaultPath regex error call value
  | .mk name args, value => by
    simp only [applyCall]
    exact (argValues_asks args).bind fun values => applyFunction_asks letters name value values

theorem argValues_asks : ∀ args : List Node,
    Asks fun regex => argValues letters device defaultPath regex error args
  | [] => by
    simp only [argValues]
    exact .pure []
  | arg :: args => by
    simp only [argValues]
    apply (nodeValue_asks arg).bind
    intro value
    exact (argValues_asks args).bind fun values => .pure (value :: values)

theorem nodeValue_asks : ∀ arg : Node,
    Asks fun regex => nodeValue letters device defaultPath regex error arg
  | .literal value => by
    simp only [nodeValue]
    exact .pure value
  | .expr e => by
    simp only [nodeValue]
    exact exprValue_asks e

end

theorem evaluate_asks (e : Expr) :
    Asks fun regex => evaluate letters device defaultPath regex error e :=
  (exprValue_asks letters device defaultPath error e).bind fun value => .pure (toBool value)

end Evaluate

section Collecting

variable {α β : Type}

abbrev Plain (x : Except PyException α) : Prop := OnlyRaises (fun e => e.isUnavailable = false) x

theorem Plain.seq {x : Evaluation α} {f : α → Evaluation β} {pending : Finset RegexKey}
    (hx : Plain (x pending)) (hf : ∀ a pending', x pending = .ok (a, pending') →
      Plain (f a pending')) : Plain ((x >>= f) pending) := by
  rw [show (x >>= f) pending = (x pending >>= fun r => f r.1 r.2) from rfl]
  cases h : x pending with
  | error e => exact .error (hx e h)
  | ok r => exact hf r.1 r.2 h

theorem Plain.lift {x : Except PyException α} {pending : Finset RegexKey} (hx : Plain x) :
    Plain ((liftM x : Evaluation α) pending) := by
  rw [lift_apply]
  exact hx.map

theorem IsDigitLimit.plain {x : Except PyException α} (h : OnlyRaises IsDigitLimit x) :
    Plain x := by
  intro e he
  rw [h e he]
  rfl

variable {letters : TextCase} {device : DeviceContext} {defaultPath : String}
  {regex : RegexLookup} {error : Option ReportedError}

theorem test_plain (hsoft : regex.strict = false) (key : RegexKey) (pending : Finset RegexKey) :
    Plain (regex.test key pending) := by
  simp only [RegexLookup.test, hsoft]
  split <;> exact .ok _

theorem impl_plain {name : String} {spec : FunctionSpec} {subject : Value} {args : List Value}
    {impl : TextCase → Value → List Value → Except PyException Value}
    (hspec : functionSpec name = some spec) (himpl : spec.impl = some impl)
    (htakes : spec.Takes args.length) : Plain (impl letters subject args) := by
  intro e he
  have hcrashes : Crashes (impl letters subject args) := by
    rw [impl_crashes hspec himpl htakes]
    by_contra hfine
    obtain ⟨value, hvalue⟩ := (impl_returns hspec himpl htakes).mpr hfine
    rw [he] at hvalue
    cases hvalue
  exact crashes_error.mp (he ▸ hcrashes)

theorem applyFunction_plain (hsoft : regex.strict = false) {name : String} {spec : FunctionSpec}
    {args : List Value} (hspec : functionSpec name = some spec)
    (htakes : spec.Takes args.length) (hfirst : name ∉ firstOnlyFunctions) (subject : Value)
    (pending : Finset RegexKey) :
    Plain (applyFunction letters regex name subject args pending) := by
  unfold applyFunction
  cases hregex : regexFunctions.lookup name with
  | some mode =>
    obtain ⟨a, args, rfl⟩ := List.exists_cons_of_length_pos
      ((regexFunction_takes hspec hregex).1.trans htakes.1)
    simp only [toText_eq, argument_cons]
    apply Plain.seq (Plain.lift (.ok _))
    rintro text pending₁ -
    apply Plain.seq (Plain.lift (.ok _))
    rintro a pending₂ -
    apply Plain.seq (Plain.lift (.ok _))
    rintro pattern pending₃ -
    split
    · exact Plain.seq (test_plain hsoft _ _) fun b pending _ => .ok _
    · exact .ok _
  | none =>
    obtain ⟨impl, himpl⟩ := impl_isSome hspec hfirst hregex
    simp only [hspec, himpl]
    exact (impl_plain hspec himpl htakes).lift

theorem countItems_raises (raw : Json) : OnlyRaises IsDigitLimit (countItems raw) := by
  unfold countItems
  split
  · exact .ok _
  · split
    · exact .ok _
    · exact .ok _
    · exact .ok _
    · exact (strJson_raises raw).map

theorem chainStart_plain (path : String) (calls : List Call) :
    Plain (chainStart device error path calls) := by
  have hraw : Plain (resolveDeviceAttributeRaw device error path) :=
    IsDigitLimit.plain (resolveRaw_raises device error path).map
  unfold chainStart
  apply (IsDigitLimit.plain (resolveDeviceAttributeState_raises device error path)).bind
  rintro ⟨state, text⟩
  dsimp only
  split
  · exact .ok _
  · split
    · apply hraw.bind
      intro raw
      exact (IsDigitLimit.plain (countItems_raises raw)).bind fun items => .ok _
    · split <;> exact .ok _

mutual

theorem exprValue_plain (hsoft : regex.strict = false) : ∀ e : Expr, e.WellFormed →
    ∀ pending, Plain (exprValue letters device defaultPath regex error e pending)
  | .mk subject [], _, pending => by
    simp only [exprValue]
    exact Plain.seq (chainStart_plain _ _).lift fun start pending _ => .ok _
  | .mk subject (call :: calls), hwf, pending => by
    simp only [exprValue]
    apply Plain.seq (chainStart_plain _ _).lift
    rintro ⟨value, answered⟩ pending₁ hstart
    cases answered with
    | true => exact callsValue_plain hsoft calls value pending₁ hwf.2
    | false =>
      apply Plain.seq (applyCall_plain hsoft call value pending₁ true hwf.1 ?_)
      · exact fun value pending _ => callsValue_plain hsoft calls value pending hwf.2
      · rw [lift_apply] at hstart
        obtain ⟨start, hok, heq⟩ := map_eq_ok.mp hstart
        cases heq
        exact first_of_chainStart hok

theorem callsValue_plain (hsoft : regex.strict = false) : ∀ (calls : List Call) (value : Value)
    (pending : Finset RegexKey), CallsWellFormed false calls →
    Plain (callsValue letters device defaultPath regex error calls value pending)
  | [], value, pending, _ => by
    simp only [callsValue]
    exact .ok _
  | call :: calls, value, pending, hwf => by
    have hfirst : call.name ∉ firstOnlyFunctions := by
      obtain ⟨name, args⟩ := call
      intro hmem
      cases hwf.1.2.1 hmem
    simp only [callsValue]
    apply Plain.seq (applyCall_plain hsoft call value pending false hwf.1 hfirst)
    exact fun value pending _ => callsValue_plain hsoft calls value pending hwf.2

theorem applyCall_plain (hsoft : regex.strict = false) : ∀ (call : Call) (value : Value)
    (pending : Finset RegexKey) (first : Bool), call.WellFormed first →
    call.name ∉ firstOnlyFunctions →
    Plain (applyCall letters device defaultPath regex error call value pending)
  | .mk name args, value, pending, first, hwf, hfirst => by
    simp only [applyCall]
    apply Plain.seq (argValues_plain hsoft args pending hwf.2.2)
    intro values pending₁ hvalues
    obtain ⟨⟨spec, hspec, htakes⟩, -, -⟩ := hwf
    rw [← length_argValues hvalues] at htakes
    exact applyFunction_plain hsoft hspec htakes hfirst value pending₁

theorem argValues_plain (hsoft : regex.strict = false) : ∀ (args : List Node)
    (pending : Finset RegexKey), ArgsWellFormed args →
    Plain (argValues letters device defaultPath regex error args pending)
  | [], pending, _ => by
    simp only [argValues]
    exact .ok _
  | arg :: args, pending, hwf => by
    simp only [argValues]
    apply Plain.seq (nodeValue_plain hsoft arg pending hwf.1)
    intro value pending₁ _
    apply Plain.seq (argValues_plain hsoft args pending₁ hwf.2)
    exact fun values pending _ => .ok _

theorem nodeValue_plain (hsoft : regex.strict = false) : ∀ (arg : Node)
    (pending : Finset RegexKey), arg.WellFormed →
    Plain (nodeValue letters device defaultPath regex error arg pending)
  | .literal value, pending, _ => by
    simp only [nodeValue]
    exact .ok _
  | .expr e, pending, hwf => by
    simp only [nodeValue]
    exact exprValue_plain hsoft e hwf pending

end

theorem evaluate_collects (hsoft : regex.strict = false) {e : Expr} (hwf : e.WellFormed)
    (pending : Finset RegexKey) :
    (∃ r, evaluate letters device defaultPath regex error e pending = .ok r) ↔
      ¬ ExprFails letters device defaultPath regex error e pending := by
  rw [← exprValue_crashes e pending hwf]
  have hplain := @exprValue_plain letters device defaultPath regex error hsoft e hwf pending
  change (∃ r, (exprValue letters device defaultPath regex error e pending >>= fun r =>
    (Except.ok (toBool r.1, r.2) : Except PyException (Bool × Finset RegexKey))) = .ok r) ↔ _
  cases h : exprValue letters device defaultPath regex error e pending with
  | error x =>
    rw [crashes_error, hplain x h]
    simp [bind, Except.bind]
  | ok r => simp [bind, Except.bind]

end Collecting

end Manus.Expression
