import Manus.Expression.Questions
import Manus.Expression.Routing

/-! # Rounds of questions

A round of collecting knows the answers to everything that was asked before it. It
raises only where an expression goes wrong, and what it leaves open are the questions
of the single devices. If there is something left after the last round, the questions
of one device form a chain that is longer than there are rounds.
-/

namespace Manus.Expression

section Batches

def RegexAnswer.toJson : RegexAnswer → Json
  | .found b => .bool b
  | .invalid => .str "invalid"
  | .stopped => .str "stopped"

def answersBy (oracle : RegexKey → RegexAnswer) (chunk : List RegexKey) : RegexOutcome :=
  { ok := true, result := .arr (chunk.map fun key => (oracle key).toJson) }

variable (oracle : RegexKey → RegexAnswer)

def answersTo (asked : Finset RegexKey) (key : RegexKey) : Option RegexAnswer :=
  if key ∈ asked then some (oracle key) else none

@[simp] theorem readAnswer_toJson (answer : RegexAnswer) : readAnswer answer.toJson = answer := by
  cases answer <;> rfl

@[simp] theorem mem_sortKeys {pending : Finset RegexKey} {key : RegexKey} :
    key ∈ sortKeys pending ↔ key ∈ pending := by
  simp only [sortKeys, List.mem_map, Finset.mem_sort, Finset.mem_image]
  constructor
  · rintro ⟨_, ⟨key', hkey', rfl⟩, rfl⟩
    exact hkey'
  · exact fun h => ⟨_, ⟨key, h, rfl⟩, rfl⟩

theorem askBatch_answersBy (chunk : List RegexKey) :
    askBatch (answersBy oracle) chunk = .ok (chunk.map fun key => (key, oracle key)) := by
  have hzip : chunk.zip (chunk.map oracle) = chunk.map fun key => (key, oracle key) := by
    induction chunk with
    | nil => rfl
    | cons key chunk ih => simp only [List.map_cons, List.zip_cons_cons, ih]
  simp only [askBatch, answersBy, List.length_map, if_true, List.map_map, Function.comp_def,
    readAnswer_toJson, hzip]

theorem askBatches_answersBy {fuel : ℕ} {keys : List RegexKey} (h : keys.length ≤ fuel) :
    askBatches (answersBy oracle) fuel keys = .ok (keys.map fun key => (key, oracle key)) := by
  induction fuel generalizing keys with
  | zero =>
    obtain rfl := List.length_eq_zero_iff.mp (Nat.le_zero.mp h)
    rfl
  | succ fuel ih =>
    cases keys with
    | nil => rfl
    | cons key keys =>
      have hrest : ((key :: keys).drop batchSize).length ≤ fuel := by
        simp only [List.length_drop, List.length_cons, batchSize] at h ⊢
        omega
      simp only [askBatches, askBatch_answersBy, ih hrest]
      change Except.ok _ = Except.ok _
      rw [← List.map_append, List.take_append_drop]

theorem resolveRegexBatch_answersBy (pending : Finset RegexKey) :
    resolveRegexBatch (answersBy oracle) pending = .ok (answersTo oracle pending) := by
  simp only [resolveRegexBatch, askBatches_answersBy oracle le_rfl, Except.map]
  refine congrArg Except.ok (funext fun key => ?_)
  unfold answersTo
  split
  · rename_i hmem
    exact List.lookup_graph oracle (mem_sortKeys.mpr hmem)
  · rename_i hmem
    rw [List.lookup_eq_none_iff]
    rintro p hp
    obtain ⟨key', hkey', rfl⟩ := List.mem_map.mp hp
    have hne : key ≠ key' := fun heq => hmem (heq ▸ mem_sortKeys.mp hkey')
    simpa using hne

end Batches

section Collecting

variable {letters : TextCase} {occurredAt : DeviceError → String} {plan : RoutePlan}
  {device : DeviceContext} {error : Option ReportedError} {deviceValue : Option String}

theorem matchRoute_asks (route : Route) :
    Asks fun regex => matchRoute letters plan device deviceValue regex error route := by
  unfold matchRoute
  apply (Asks.mapM fun e _ => evaluate_asks letters device plan.attributePath error e.1).bind
  intro hits
  split
  · exact .pure true
  · split
    · exact .pure false
    · exact .pure _

theorem discard_asks (route : Route) : Asks fun regex =>
    matchRoute letters plan device deviceValue regex error route >>= fun _ => pure () :=
  (matchRoute_asks route).bind fun _ => .pure ()

theorem forM_asks {γ : Type} {f : RegexLookup → γ → Evaluation Unit} {l : List γ}
    (h : ∀ x ∈ l, Asks fun regex => f regex x) : Asks fun regex => l.forM (f regex) := by
  induction l with
  | nil => exact .pure ()
  | cons x l ih =>
    apply (h x List.mem_cons_self).bind
    exact fun _ => ih fun y hy => h y (List.mem_cons_of_mem _ hy)

theorem collectDevice_asks (device : DeviceContext) :
    Asks fun regex => collectDevice letters occurredAt plan regex device := by
  apply (Asks.lift _).bind
  rintro ⟨error, state, resolved⟩
  exact forM_asks fun route _ => discard_asks route

theorem matchRoute_returns_iff (regex : RegexLookup) (route : Route) (pending : Finset RegexKey) :
    (∃ r, matchRoute letters plan device deviceValue regex error route pending = .ok r) ↔
      ∀ e ∈ route.expressions, ∃ r,
        evaluate letters device plan.attributePath regex error e.1 ∅ = .ok r := by
  have hhits := @mapM_returns_iff Bool RouteExpression (fun regex e =>
    evaluate letters device plan.attributePath regex error e.1) route.expressions
    (fun e _ => evaluate_asks letters device plan.attributePath error e.1) regex pending
  unfold matchRoute
  rw [← hhits, seq_returns_iff]
  constructor
  · rintro ⟨hits, pending', h, -⟩
    exact ⟨_, h⟩
  · rintro ⟨⟨hits, pending'⟩, h⟩
    refine ⟨hits, pending', h, ?_⟩
    split
    · exact ⟨_, rfl⟩
    · split
      · exact ⟨_, rfl⟩
      · exact ⟨_, rfl⟩

theorem deviceInputs_eq_ok {inputs : Option ReportedError × AttributeState × Option String}
    (h : deviceInputs occurredAt plan device = .ok inputs) :
    inputs.1 = latestError occurredAt device := by
  obtain ⟨r, -, h⟩ := bind_eq_ok.mp h
  cases h
  rfl

theorem deviceInputs_returns_iff : (∃ inputs, deviceInputs occurredAt plan device = .ok inputs) ↔
    ¬ LookupFails device (latestError occurredAt device) plan.attributePath := by
  unfold deviceInputs LookupFails
  dsimp only
  cases resolveDeviceAttributeState device (latestError occurredAt device) plan.attributePath with
  | error e => simp [bind, Except.bind]
  | ok r => simp [bind, Except.bind, pure, Except.pure]

variable (letters occurredAt plan) in
def DeviceFails (answers : RegexKey → Option RegexAnswer) (device : DeviceContext) : Prop :=
  LookupFails device (latestError occurredAt device) plan.attributePath ∨
    ∃ route ∈ plan.routes, ∃ e ∈ route.expressions,
      ExprFails letters device plan.attributePath (collecting answers)
        (latestError occurredAt device) e.1 ∅

theorem routes_return_iff (answers : RegexKey → Option RegexAnswer) (pending : Finset RegexKey) :
    (∃ r, (plan.routes.forM fun route => matchRoute letters plan device deviceValue
      (collecting answers) error route >>= fun _ => pure () : Evaluation Unit) pending = .ok r) ↔
      ∀ route ∈ plan.routes, ∀ e ∈ route.expressions,
        ¬ ExprFails letters device plan.attributePath (collecting answers) error e.1 ∅ := by
  have hloop := forM_returns_iff (l := plan.routes)
    (fun route _ => @discard_asks letters plan device error deviceValue route)
    (collecting answers) pending
  refine hloop.trans (forall₂_congr fun route _ => ?_)
  have hroute := @matchRoute_returns_iff letters plan device error deviceValue
    (collecting answers) route ∅
  rw [seq_returns_iff]
  constructor
  · rintro ⟨b, pending', h, -⟩ e he
    rw [← evaluate_collects rfl e.2]
    exact hroute.mp ⟨_, h⟩ e he
  · intro h
    obtain ⟨⟨b, pending'⟩, hb⟩ := hroute.mpr fun e he =>
      (evaluate_collects rfl e.2 ∅).mpr (h e he)
    exact ⟨b, pending', hb, _, rfl⟩

theorem collectDevice_returns_iff (answers : RegexKey → Option RegexAnswer) :
    (∃ r, collectDevice letters occurredAt plan (collecting answers) device ∅ = .ok r) ↔
      ¬ DeviceFails letters occurredAt plan answers device := by
  unfold DeviceFails collectDevice
  rw [lift_returns_iff, not_or, ← deviceInputs_returns_iff]
  push Not
  constructor
  · rintro ⟨inputs, hinputs, hloop⟩
    rw [← deviceInputs_eq_ok hinputs]
    exact ⟨⟨inputs, hinputs⟩, (routes_return_iff answers ∅).mp hloop⟩
  · rintro ⟨⟨inputs, hinputs⟩, hroutes⟩
    rw [← deviceInputs_eq_ok hinputs] at hroutes
    exact ⟨inputs, hinputs, (routes_return_iff answers ∅).mpr hroutes⟩

section Devices

variable {devices : Dict DeviceContext} {answers : RegexKey → Option RegexAnswer}

theorem collect_eq_ok {pending : Finset RegexKey} :
    collect letters occurredAt plan devices answers = .ok pending ↔
      (∀ device ∈ devices.values, ∃ r,
        collectDevice letters occurredAt plan (collecting answers) device ∅ = .ok r) ∧
      ∀ key, key ∈ pending ↔ ∃ device ∈ devices.values, ∃ r,
        collectDevice letters occurredAt plan (collecting answers) device ∅ = .ok r ∧
          key ∈ r.2 := by
  have hloop := @forM_eq_ok DeviceContext (collectDevice letters occurredAt plan) devices.values
    (fun device _ => collectDevice_asks device) (collecting answers) ∅ pending
  simp only [Finset.notMem_empty, false_or] at hloop
  unfold collect
  rw [map_eq_ok, ← hloop]
  constructor
  · rintro ⟨⟨⟨⟩, pending'⟩, h, rfl⟩
    exact h
  · exact fun h => ⟨_, h, rfl⟩

theorem collect_returns_iff :
    (∃ pending, collect letters occurredAt plan devices answers = .ok pending) ↔
      ∀ device ∈ devices.values, ¬ DeviceFails letters occurredAt plan answers device := by
  have hloop := forM_returns_iff (l := devices.values)
    (fun device _ => @collectDevice_asks letters occurredAt plan device) (collecting answers) ∅
  simp only [collectDevice_returns_iff] at hloop
  rw [← hloop]
  unfold collect
  simp only [map_eq_ok]
  constructor
  · rintro ⟨pending, r, h, -⟩
    exact ⟨r, h⟩
  · rintro ⟨r, h⟩
    exact ⟨r.2, r, h, rfl⟩

end Devices

end Collecting

section Rounds

variable (letters : TextCase) (occurredAt : DeviceError → String) (plan : RoutePlan)
  (devices : Dict DeviceContext) (oracle : RegexKey → RegexAnswer)

def askedAfter : ℕ → Finset RegexKey
  | 0 => ∅
  | n + 1 => askedAfter n ∪
    (collect letters occurredAt plan devices (answersTo oracle (askedAfter n))).toOption.getD ∅

def collectRound (n : ℕ) : Except PyException (Finset RegexKey) :=
  collect letters occurredAt plan devices
    (answersTo oracle (askedAfter letters occurredAt plan devices oracle n))

variable {letters occurredAt plan devices oracle}

theorem answersTo_union (asked pending : Finset RegexKey) :
    (fun key => (answersTo oracle pending key).or (answersTo oracle asked key)) =
      answersTo oracle (asked ∪ pending) := by
  funext key
  simp only [answersTo, Finset.mem_union]
  by_cases hpending : key ∈ pending <;> by_cases hasked : key ∈ asked <;> simp [hpending, hasked]

theorem askedAfter_succ {n : ℕ} {pending : Finset RegexKey}
    (h : collectRound letters occurredAt plan devices oracle n = .ok pending) :
    askedAfter letters occurredAt plan devices oracle (n + 1) =
      askedAfter letters occurredAt plan devices oracle n ∪ pending := by
  rw [askedAfter]
  change _ ∪ (collectRound letters occurredAt plan devices oracle n).toOption.getD ∅ = _
  rw [h]
  rfl

theorem askedAfter_settled {n m : ℕ}
    (h : collectRound letters occurredAt plan devices oracle n = .ok ∅) (hle : n ≤ m) :
    askedAfter letters occurredAt plan devices oracle m =
      askedAfter letters occurredAt plan devices oracle n := by
  induction m, hle using Nat.le_induction with
  | base => rfl
  | succ m hle ih =>
    have hm : collectRound letters occurredAt plan devices oracle m = .ok ∅ := by
      unfold collectRound
      rw [ih]
      exact h
    rw [askedAfter_succ hm, Finset.union_empty, ih]

variable (letters occurredAt plan devices oracle) in
/-- How the rounds from one to another end: nothing is left open, or something still is after the
last of them, or one of them raises. -/
inductive RoundsEnd (first last : ℕ) :
    Except RouteError (RegexKey → Option RegexAnswer) → Prop where

  | settled (m : ℕ) : collectRound letters occurredAt plan devices oracle m = .ok ∅ →
      (∀ j, first ≤ j → ∃ pending,
        collectRound letters occurredAt plan devices oracle j = .ok pending) →
      RoundsEnd first last
        (.ok (answersTo oracle (askedAfter letters occurredAt plan devices oracle m)))

  | deep : (∀ j, first ≤ j → j ≤ last → ∃ pending, pending ≠ ∅ ∧
        collectRound letters occurredAt plan devices oracle j = .ok pending) →
      RoundsEnd first last (.error levelsDeep)

  | raised (j : ℕ) (e : PyException) : first ≤ j → j ≤ last →
      collectRound letters occurredAt plan devices oracle j = .error e →
      RoundsEnd first last (.error (.raised e))

theorem roundsEnd_of_empty {first last : ℕ}
    (h : collectRound letters occurredAt plan devices oracle first = .ok ∅) :
    RoundsEnd letters occurredAt plan devices oracle first last
      (.ok (answersTo oracle (askedAfter letters occurredAt plan devices oracle first))) := by
  apply RoundsEnd.settled first h
  intro j hj
  refine ⟨∅, ?_⟩
  unfold collectRound
  rw [askedAfter_settled h hj]
  exact h

theorem answerRounds_ends (passes first : ℕ) :
    RoundsEnd letters occurredAt plan devices oracle first (first + passes)
      (answerRounds letters occurredAt (answersBy oracle) plan devices passes
        (answersTo oracle (askedAfter letters occurredAt plan devices oracle first))) := by
  induction passes generalizing first with
  | zero =>
    rw [answerRounds]
    change RoundsEnd _ _ _ _ _ _ _
      (((collectRound letters occurredAt plan devices oracle first).mapError .raised) >>= _)
    cases h : collectRound letters occurredAt plan devices oracle first with
    | error e => exact .raised first e le_rfl le_rfl h
    | ok pending =>
      simp only [Except.mapError, bind, Except.bind]
      split
      · rename_i hempty
        exact roundsEnd_of_empty (hempty ▸ h)
      · rename_i hne
        apply RoundsEnd.deep
        intro j hj hlast
        obtain rfl : j = first := by omega
        exact ⟨pending, hne, h⟩
  | succ passes ih =>
    rw [answerRounds]
    change RoundsEnd _ _ _ _ _ _ _
      (((collectRound letters occurredAt plan devices oracle first).mapError .raised) >>= _)
    cases h : collectRound letters occurredAt plan devices oracle first with
    | error e => exact .raised first e le_rfl (Nat.le_add_right _ _) h
    | ok pending =>
      simp only [Except.mapError, bind, Except.bind]
      split
      · rename_i hempty
        exact roundsEnd_of_empty (hempty ▸ h)
      · rename_i hne
        simp only [resolveRegexBatch_answersBy, answersTo_union, ← askedAfter_succ h]
        have hrest := ih (first + 1)
        have hlast : first + 1 + passes = first + (passes + 1) := by omega
        rw [hlast] at hrest
        generalize answerRounds letters occurredAt (answersBy oracle) plan devices passes
          (answersTo oracle (askedAfter letters occurredAt plan devices oracle (first + 1))) = r
          at hrest
        cases hrest with
        | settled m hm hall =>
          apply RoundsEnd.settled m hm
          intro j hj
          rcases Nat.eq_or_lt_of_le hj with rfl | hj
          · exact ⟨pending, h⟩
          · exact hall j hj
        | deep hall =>
          apply RoundsEnd.deep
          intro j hj hle
          rcases Nat.eq_or_lt_of_le hj with rfl | hj
          · exact ⟨pending, hne, h⟩
          · exact hall j hj hle
        | raised j e hj hle hraised =>
          exact .raised j e ((Nat.le_succ first).trans hj) hle hraised

theorem answerRegexQuestions_ends :
    RoundsEnd letters occurredAt plan devices oracle 0 maxRegexPasses
      (answerRegexQuestions letters occurredAt (answersBy oracle) plan devices) := by
  have h := @answerRounds_ends letters occurredAt plan devices oracle maxRegexPasses 0
  rw [Nat.zero_add] at h
  exact h

end Rounds

end Manus.Expression
