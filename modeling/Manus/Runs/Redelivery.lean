import Manus.Lib.Erasure
import Manus.Runs.Boundaries

/-! # A second delivery of a run that is being walked

A second delivery of the orchestrating task starts no executor. It gives the run
up when it finds it active; when it does not, it leaves no trace.
-/

namespace Manus

variable {ω : Type}

section Traces

variable {i : ℕ}

def World.without (w : World) (i : ℕ) : World :=
  { w with log := w.log.filter fun entry => entry.1 ≠ i }

theorem World.note_without (w : World) {thread : ℕ} (h : thread ≠ i) (n : Note) :
    (w.without i).note thread n = (w.note thread n).without i := by
  simp [World.note, World.without, h]

theorem World.without_note (w : World) (n : Note) : (w.note i n).without i = w.without i := by
  simp [World.note, World.without]

theorem World.transition_without (w : World) (runId : ℕ) (toStatus : RunStatus)
    (fromStatuses : Option (List RunStatus)) (fields : RunFields) :
    (w.without i).transition runId toStatus fromStatuses fields =
      ((w.transition runId toStatus fromStatuses fields).1,
        (w.transition runId toStatus fromStatuses fields).2.without i) := by
  unfold World.transition
  rw [show (w.without i).runs = w.runs from rfl]
  cases w.runs runId with
  | none => rfl
  | some row =>
    dsimp only
    split <;> rfl

theorem World.claim_without (w : World) {thread : ℕ} (h : thread ≠ i) (runId : ℕ) :
    (w.without i).claim thread runId =
      ((w.claim thread runId).1, (w.claim thread runId).2.without i) := by
  unfold World.claim
  rw [World.transition_without]
  dsimp only
  split
  · rw [World.note_without _ h]
  · rfl

/-- No operation of the system looks at the notes. -/
theorem stepOps_commutes :
    StepOps (ω := ω) (fun _ => True) fun _ p => p.Commutes (fun w => w.without i) i where
  closed := ⟨.pure, .bind⟩
  gather _ := .gather
  get _ hf := .get fun w => hf w _
  answer _ := .lift fun _ _ _ => rfl
  cancel _ := .update fun w => w.transition_without _ _ _ _
  transitionRun _ _ _ _ := .update fun w => w.transition_without _ _ _ _
  annotateCancelled _ _ := .update fun w => w.transition_without _ _ _ _
  finaliseOpenStepResults _ := .update fun _ => rfl
  createRun _ _ _ _ _ := .update fun w => by
    rw [show (w.without i).runs = w.runs from rfl]
    split <;> rfl
  endStart _ := .update fun _ => rfl
  recheckParent parentRunId _ := .update fun w => by
    unfold World.recheck
    rw [show (w.without i).runs = w.runs from rfl]
    split
    · rfl
    · split <;> rfl
  submit _ := .lift fun t w _ => by cases t.oracle.ok <;> rfl
  recordHatchetRunId runId _ := .update fun w => by
    rw [show (w.without i).runs = w.runs from rfl]
    cases w.runs runId <;> rfl
  pushBatchEvent _ _ := .lift fun t w _ => by cases t.oracle.ok <;> rfl
  createStepResult runId node := .update fun w => by
    rw [show (w.without i).steps = w.steps from rfl]
    split <;> rfl
  updateStepResult _ _ _ := .update fun _ => rfl
  loadWorkflow _ workflowId _ _ := .lift fun t w ht => by
    rw [show (w.without i).canvases = w.canvases from rfl]
    cases w.canvases workflowId with
    | none => rfl
    | some canvas => simp [World.note_without _ ht]
  cancelRequested _ := .lift fun t w ht => by
    simp only [World.note_without _ ht]
    rfl
  invoke _ _ _ _ := .lift fun t w ht => by simp [World.note_without _ ht]
  waitForEvent uuid batchIndex := .lift fun t w _ => by
    rw [show (w.without i).approvals = w.approvals from rfl]
    split <;> rfl
  requestChild _ _ := .update fun _ => rfl
  awaitChild index := .lift fun t w _ => by
    rw [show (w.without i).groupTasks = w.groupTasks from rfl]
    split
    · cases w.groupTasks[index]?.bind GroupTask.result <;> rfl
    · rfl
  reportChild _ _ := .update fun _ => rfl
  prepare _ := .lift fun t w ht => congrArg some (w.claim_without ht _)
  writeCanvas _ _ := .update fun _ => rfl

theorem runSystem_commutes (d : Deployment ω) :
    (runSystem d).Commutes (fun w => w.without i) i where
  start what w := by
    cases what with
    | prepare runId | executeSteps runId | failRun runId =>
      simp only [runSystem, show (w.without i).accepted = w.accepted from rfl]
      split <;> rfl
    | deviceGroup index =>
      simp only [runSystem, show (w.without i).groupTasks = w.groupTasks from rfl]
      cases w.groupTasks[index]? <;> rfl
    | _ => rfl
  tasks what w task w' hs :=
    have hops := stepOps_commutes.tasks d
    ⟨hops.start hs (Launch.covered_of_all (fun _ => trivial) w what), hops.handlers hs⟩

end Traces

section Moves

def Silent (i : ℕ) (w w' : World) : Prop :=
  w' = w ∨ ∃ n, (∀ id nodeId deviceIds, n ≠ .invoked id nodeId deviceIds) ∧ w' = w.note i n

/-- A run that is not over is marked failed, with one of the fixed messages. -/
def GivesUp (runId : ℕ) (w w' : World) : Prop :=
  ∃ row message, w.runs runId = some row ∧ row.status ∉ terminalRunStatuses ∧
    message ∈ [deliveredTwiceMessage, interruptedMessage, internalMessage] ∧
    w' = w.setRun runId (row.move .failed { errorMessage := some message })

/-- Open step rows are closed, and runs that are neither successful nor failed are cancelled. -/
structure CleansUp (w w' : World) : Prop where
  steps : ∀ id, w'.steps id = w.steps id ∨ w'.steps id = (w.steps id).map StepRow.close
  runs : ∀ id, w'.runs id = w.runs id ∨ ∃ row fields, w.runs id = some row ∧
    row.status ∉ [.success, .failed] ∧ w'.runs id = some (row.move .cancelled fields)
  log : w'.log = w.log

def SecondStep (runId i : ℕ) (w w' : World) : Prop :=
  Silent i w w' ∨ GivesUp runId w w' ∨ CleansUp w w'

theorem GivesUp.runs {runId : ℕ} {w w' : World} (h : GivesUp runId w w') :
    ∃ row, w'.runs runId = some row ∧ row.status = .failed := by
  obtain ⟨row, message, -, -, -, rfl⟩ := h
  refine ⟨row.move .failed { errorMessage := some message }, ?_, ?_⟩
  · simp only [World.setRun, Function.update_self]
  · simp [RunRow.move, terminalRunStatuses]

/-- The moves of the tasks; the ghost state of the second delivery says whether it gave the run
up. -/
def secondMoves (runId : ℕ) : Prog.Move World (Option Bool) := fun i g w g' w' =>
  match g with
  | none => g' = none
  | some gaveUp =>
    (Silent i w w' ∧ g' = some gaveUp) ∨ (GivesUp runId w w' ∧ g' = some true) ∨
      (gaveUp = true ∧ CleansUp w w' ∧ g' = some true)

end Moves

section SecondDelivery

variable {d : Deployment ω} {runId : ℕ} {run : RunInfo} {canvas : Canvas} {gaveUp : Bool}
  {I : World → Prop}

theorem silent_spec {α : Type} {p : Run ω α} (h : p.Always I Silent) :
    p.Spec I (secondMoves runId) (some gaveUp) fun _ g' => g' = some gaveUp :=
  h.spec fun _ _ _ _ hs => .inl ⟨hs, rfl⟩

theorem silent_get {α : Type} (f : World → α) : (Prog.get f : Run ω α).Always I Silent :=
  .get fun _ _ => .inl rfl

theorem silent_loadWorkflow (workflowId : ℕ) (phase : Phase) :
    (loadWorkflow (ω := ω) runId workflowId phase).Always I Silent := by
  refine .lift fun t w x w' _ h => ?_
  split at h
  · cases h
    exact .inl rfl
  · cases h
    exact .inr ⟨_, fun _ _ _ => Note.noConfusion, rfl⟩

theorem executeAll_second (hI : ∀ w, I w → w.steps runId ≠ []) :
    (executeAll (workerRunner d runId) run canvas).Spec I (secondMoves runId) (some gaveUp)
      fun ended g' => g' = some gaveUp ∧
        ((∃ e, ended = .refused e) ∨ ended = .alreadyStarted) := by
  unfold executeAll
  split
  · exact ⟨rfl, .inl ⟨_, rfl⟩⟩
  · have hnodes : (stepResultNodes (ω := ω) runId).Spec I (secondMoves runId) (some gaveUp)
        fun existing g' => g' = some gaveUp ∧ existing ≠ [] := by
      intro t w x w' hw h
      cases h
      exact ⟨some gaveUp, .inl ⟨.inl rfl, rfl⟩, rfl, by simpa using hI w hw⟩
    refine hnodes.bind fun existing g' h => ?_
    obtain ⟨rfl, hne⟩ := h
    rw [if_pos (by simpa using hne)]
    exact ⟨rfl, .inr rfl⟩

theorem phaseOne_second (hI : ∀ w, I w → w.steps runId ≠ []) :
    (phaseOne d runId).Spec I (secondMoves runId) (some gaveUp) fun r g' =>
      g' = some gaveUp ∧ ∀ uuid signal graph, r ≠ .ok (.fanOut uuid signal graph) := by
  refine (silent_spec (silent_get _)).bind fun row g' hg' => ?_
  subst hg'
  cases row with
  | none => exact ⟨rfl, nofun⟩
  | some row =>
    dsimp only
    split
    · exact ⟨rfl, nofun⟩
    · refine (silent_spec (silent_loadWorkflow _ _)).bind fun stored g' hg' => ?_
      subst hg'
      cases stored with
      | none => exact ⟨rfl, nofun⟩
      | some stored =>
        refine (executeAll_second hI).bind fun ended g' h => ?_
        obtain ⟨rfl, ⟨e, rfl⟩ | rfl⟩ := h
        · exact ⟨rfl, nofun⟩
        · exact ⟨rfl, nofun⟩

theorem cleansUp_refl (w : World) : CleansUp w w :=
  ⟨fun _ => .inl rfl, fun _ => .inl rfl, rfl⟩

theorem cleansUp_transition (w : World) (id : ℕ) {fromStatuses : Option (List RunStatus)}
    (hfrom : ∀ row : RunRow, row.mayMove fromStatuses = true → row.status ∉ [.success, .failed])
    (fields : RunFields) : CleansUp w (w.transition id .cancelled fromStatuses fields).2 := by
  rcases w.transition_cases id .cancelled fromStatuses fields with h | ⟨row, hrow, hmay, h⟩
  · rw [h]
    exact cleansUp_refl w
  · rw [h]
    refine ⟨fun _ => .inl rfl, fun id' => ?_, rfl⟩
    by_cases he : id' = id
    · subst he
      exact .inr ⟨row, fields, hrow, hfrom row hmay, by simp [World.setRun]⟩
    · exact .inl (by simp [World.setRun, he])

theorem cancelOps_cleansUp :
    CancelOps (ω := ω) fun _ p => p.Always I fun _ => CleansUp where
  closed := ⟨.pure, .bind⟩
  get _ _ := .get fun _ => cleansUp_refl
  answer _ := .lift fun t w x w' _ h => by
    cases h
    exact cleansUp_refl w
  cancel _ := .update fun _ w _ => cleansUp_transition w _ (fun row hmay hmem => by
    have hnot : row.status ∉ terminalRunStatuses := of_decide_eq_true hmay
    exact hnot (by revert hmem; cases row.status <;> decide)) _
  annotateCancelled _ _ := .update fun _ w _ => cleansUp_transition w _ (fun row hmay hmem => by
    have hc : row.status ∈ [RunStatus.cancelled] := of_decide_eq_true hmay
    rw [List.mem_singleton.mp hc] at hmem
    exact absurd hmem (by decide)) _
  finaliseOpenStepResults runId := .update fun _ w _ => by
    refine ⟨fun id => ?_, fun _ => .inl rfl, rfl⟩
    by_cases he : id = runId
    · subst he
      exact .inr (by simp [World.setSteps])
    · exact .inl (by simp [World.setSteps, he])

theorem failInterrupted_second {message : String}
    (hm : message ∈ [deliveredTwiceMessage, interruptedMessage, internalMessage]) :
    (do let _ ← failInterrupted (ω := ω) runId message : Run ω Unit).Spec I (secondMoves runId)
      (some gaveUp) fun _ _ => True := by
  have hclean : ∀ {α : Type} {p : Run ω α}, p.Always I (fun _ => CleansUp) →
      p.Spec I (secondMoves runId) (some true) fun _ g' => g' = some true :=
    fun h => h.spec fun _ _ _ _ hs => .inr (.inr ⟨rfl, hs, rfl⟩)
  have hwrite : (transitionRun (ω := ω) runId .failed none { errorMessage := some message }).Spec I
      (secondMoves runId) (some gaveUp) fun changed g' => changed = true → g' = some true := by
    intro t w x w' _ h
    have he := Option.some.inj h
    dsimp only at he
    rcases w.transition_cases runId .failed none { errorMessage := some message } with
      hs | ⟨row, hrow, hmay, hs⟩
    · rw [hs] at he
      cases he
      exact ⟨some gaveUp, .inl ⟨.inl rfl, rfl⟩, nofun⟩
    · rw [hs] at he
      cases he
      exact ⟨some true, .inr (.inl ⟨⟨row, message, hrow, of_decide_eq_true hmay, hm, rfl⟩, rfl⟩),
        fun _ => rfl⟩
  refine Prog.Spec.bind (Q := fun _ _ => True) (hwrite.bind fun changed g' hg' => ?_)
    fun _ _ _ => trivial
  split
  · rw [hg' ‹_›]
    refine (hclean (cancelOps_cleansUp.finaliseOpenStepResults runId)).bind fun _ g'' h => ?_
    subst h
    exact (hclean (cancelOps_cleansUp.cancelAllChildRuns runId)).bind fun _ _ _ => trivial
  · trivial

theorem executeStepsTask_second (hI : ∀ w, I w → w.steps runId ≠ []) :
    (executeStepsTask d runId).prog.Spec I (secondMoves runId) (some gaveUp) (fun _ _ => True) ∧
      ∀ p ∈ (executeStepsTask d runId).handlers,
        p.Spec I (secondMoves runId) (some gaveUp) fun _ _ => True := by
  constructor
  · refine Prog.Spec.bind (Q := fun _ g' => g' = some gaveUp) ?_ fun ended g' hg' => ?_
    · refine (phaseOne_second hI).bind fun walked g' h => ?_
      obtain ⟨rfl, hnot⟩ := h
      cases walked with
      | error e => rfl
      | ok walked =>
        cases walked with
        | done => rfl
        | fanOut uuid signal graph => exact absurd rfl (hnot uuid signal graph)
    · subst hg'
      cases ended with
      | ok _ => trivial
      | error e => cases e <;> exact failInterrupted_second (by simp)
  · rintro p (_ | ⟨_, _ | ⟨_, hp⟩⟩)
    · exact failInterrupted_second (by simp)
    · exact failInterrupted_second (by simp)
    · cases hp

end SecondDelivery

section Runs

variable {d : Deployment ω} {runId i : ℕ}

abbrev secondStoreMoves (runId : ℕ) : Prog.Move World (Option Bool) := fun j g w g' w' =>
  secondMoves runId j g w g' w' ∧ StoreStep w w'

theorem leads_none {g : Option Bool} (h : Leads (secondStoreMoves runId) none g) : g = none := by
  induction h with
  | refl => rfl
  | tail _ hm ih =>
    subst ih
    obtain ⟨_, _, _, hm, -⟩ := hm
    exact hm

theorem leads_some {gaveUp : Bool} {g : Option Bool}
    (h : Leads (secondStoreMoves runId) (some gaveUp) g) : ∃ b, g = some b := by
  induction h with
  | refl => exact ⟨gaveUp, rfl⟩
  | tail _ hm ih =>
    obtain ⟨b, rfl⟩ := ih
    obtain ⟨_, _, _, ⟨-, he⟩ | ⟨-, he⟩ | ⟨-, -, he⟩, -⟩ := hm <;> exact ⟨_, he⟩

/-- The run has step rows, and the second delivery has given it up or not. -/
def SecondOk (runId i : ℕ) (Q : Bool → Prop) (gs : ℕ → Option Bool) (w : World) : Prop :=
  RunsOk w ∧ w.steps runId ≠ [] ∧ ∃ gaveUp, gs i = some gaveUp ∧ Q gaveUp

def OnlySecond (runId i : ℕ) (e : Event Launch (Answer ω)) : Prop :=
  ∀ what, e = .launch i what → what = .executeSteps runId

def HoldsOn (runId i : ℕ) (e : Event Launch (Answer ω)) (w w' : World) : Prop :=
  e.thread = i → ¬ GivesUp runId w w'

theorem other_spec {p : Run ω Unit} (h : p.Always FreshIds fun _ => StoreStep) :
    p.Spec (fun w => FreshIds w ∧ w.steps runId ≠ []) (secondStoreMoves runId) none
      fun _ _ => True := by
  have hI : p.Always (fun w => FreshIds w ∧ w.steps runId ≠ []) fun _ => StoreStep :=
    Prog.Spec.mono h (fun _ h => h.1) fun _ _ _ _ _ _ hm => hm
  exact (hI.spec fun _ _ _ _ hs => ⟨rfl, hs⟩).imp fun _ _ _ => trivial

theorem second_sound (d : Deployment ω) {Q : Bool → Prop}
    {Allowed : Event Launch (Answer ω) → World → World → Prop}
    (hlaunch : ∀ e w w', Allowed e w w' → OnlySecond runId i e) (hstart : Q false)
    (hgive : ∀ e w w', e.thread = i → Allowed e w w' → GivesUp runId w w' → Q true) :
    (runSystem d).Sound (fun w => FreshIds w ∧ w.steps runId ≠ []) (secondStoreMoves runId)
      (SecondOk runId i Q) Allowed where
  inv _ w h := ⟨h.1.fresh, h.2.1⟩
  move gs w t g' w' h ha hm := by
    obtain ⟨hruns, hrows, gaveUp, hg, hq⟩ := h
    obtain ⟨hm, hstore⟩ := hm
    refine ⟨hstore.runsOk hruns, hstore.stepRows runId hrows, ?_⟩
    by_cases hi : t.thread = i
    · subst hi
      rw [hg] at hm
      rw [Function.update_self]
      rcases hm with ⟨-, rfl⟩ | ⟨hgives, rfl⟩ | ⟨rfl, -, rfl⟩
      · exact ⟨gaveUp, rfl, hq⟩
      · exact ⟨true, rfl, hgive _ _ _ rfl ha hgives⟩
      · exact ⟨true, rfl, hq⟩
    · rw [Function.update_of_ne (Ne.symm hi)]
      exact ⟨gaveUp, hg, hq⟩
  launch gs w j what task w' h ha hs := by
    obtain ⟨hruns, hrows, gaveUp, hg, hq⟩ := h
    have hstore := start_step hs
    have hstores := stepOps_storeStep.tasks d
    have hprog := hstores.start hs (Launch.covered_of_all (fun _ => trivial) w what)
    by_cases hj : j = i
    · subst hj
      obtain rfl := hlaunch _ _ _ ha what rfl
      have hI : ∀ {p : Run ω Unit}, p.Always FreshIds (fun _ => StoreStep) →
          p.Always (fun w => FreshIds w ∧ w.steps runId ≠ []) fun _ => StoreStep :=
        fun hp => Prog.Spec.mono hp (fun _ h => h.1) fun _ _ _ _ _ _ hm => hm
      have hhandlers := hstores.handlers hs
      simp only [runSystem] at hs
      split at hs <;> cases hs
      refine ⟨some false, ⟨?_, fun p hp g hl => ?_⟩, hruns, hrows, false, by
        rw [Function.update_self], hstart⟩
      · exact (executeStepsTask_second fun _ h => h.2).1.and (hI hprog)
      · obtain ⟨gaveUp, rfl⟩ := leads_some hl
        exact ((executeStepsTask_second fun _ h => h.2).2 p hp).and (hI (hhandlers p hp))
    · refine ⟨none, ⟨other_spec hprog, fun p hp g hl => ?_⟩, hstore.runsOk hruns,
        hstore.stepRows runId hrows, gaveUp, by rw [Function.update_of_ne (Ne.symm hj), hg], hq⟩
      obtain rfl := leads_none hl
      exact other_spec (hstores.handlers hs p hp)

theorem second_start {c : Config (Answer ω) World} {gs : ℕ → Unit}
    (hc : c.Ok FreshIds storeMoves (fun _ => RunsOk) gs) (hrows : c.state.steps runId ≠ [])
    (hfree : c.threads i = none) {Q : Bool → Prop} (hstart : Q false) :
    c.Ok (fun w => FreshIds w ∧ w.steps runId ≠ []) (secondStoreMoves runId) (SecondOk runId i Q)
      fun j => if j = i then some false else none := by
  constructor
  · intro j task hj
    have hne : j ≠ i := by
      rintro rfl
      rw [hfree] at hj
      cases hj
    obtain ⟨hprog, hhandlers⟩ := hc.tasks j task hj
    rw [if_neg hne]
    refine ⟨other_spec hprog, fun p hp g hl => ?_⟩
    obtain rfl := leads_none hl
    exact other_spec (hhandlers p hp _ .refl)
  · exact ⟨hc.state, hrows, false, if_pos rfl, hstart⟩

theorem Silent.without {w w' : World} (h : Silent i w w') : w'.without i = w.without i := by
  rcases h with rfl | ⟨n, -, rfl⟩
  · rfl
  · exact w.without_note n

theorem second_moved {Q : Bool → Prop} {e : Event Launch (Answer ω)} {gs gs' : ℕ → Option Bool}
    {w w' : World} (h : SecondOk runId i Q gs w) (he : OnlySecond runId i e) (hi : e.thread = i)
    (hm : (runSystem d).Moved (secondStoreMoves runId) e gs w gs' w') :
    Silent i w w' ∨ GivesUp runId w w' ∨ Q true ∧ CleansUp w w' := by
  obtain ⟨-, -, gaveUp, hg, hq⟩ := h
  cases e with
  | launch j what =>
    obtain rfl := hi
    obtain rfl := he what rfl
    obtain ⟨task, hs⟩ := hm
    simp only [runSystem] at hs
    split at hs <;> cases hs
    exact .inl (.inl rfl)
  | step t =>
    obtain rfl := hi
    obtain ⟨hm, -⟩ := hm
    rw [show gs t.thread = some gaveUp from hg] at hm
    rcases hm with ⟨hs, -⟩ | ⟨hs, -⟩ | ⟨rfl, hs, -⟩
    · exact .inl hs
    · exact .inr (.inl hs)
    · exact .inr (.inr ⟨hq, hs⟩)
  | abort j n => exact .inl (.inl hm)

theorem holdsOn_or_failed {c c' : Config (Answer ω) World} {gs : ℕ → Unit}
    (hc : c.Ok FreshIds storeMoves (fun _ => RunsOk) gs) {es : List (Event Launch (Answer ω))}
    (h : (runSystem d).exec c es = some c') :
    (runSystem d).AllowedRun (HoldsOn runId i) c es ∨
      ∃ row, c'.state.runs runId = some row ∧ row.status = .failed := by
  have hsound := runSystem_sound d (fun _ hw => hw) fun w w' hw hs => StoreStep.runsOk hs hw
  induction es generalizing c gs with
  | nil => exact .inl trivial
  | cons e es ih =>
    obtain ⟨c₁, h₁, h⟩ := Option.bind_eq_some_iff.mp h
    obtain ⟨gs₁, hc₁, -⟩ := hsound.next hc h₁ trivial
    by_cases hg : HoldsOn runId i e c.state c₁.state
    · refine (ih hc₁ h).imp_left fun hrest c₂ h₂ => ?_
      obtain rfl := Option.some.inj (h₁.symm.trans h₂)
      exact ⟨hg, hrest⟩
    · simp only [HoldsOn, Classical.not_imp, not_not] at hg
      obtain ⟨row, hrow, hstatus⟩ := hg.2.runs
      obtain ⟨row', hrow', hs⟩ := (settles_exec d hc₁ h).2 runId row hrow (by simp [hstatus,
        terminalRunStatuses])
      exact .inr ⟨row', hrow', hs.trans hstatus⟩

/-- A second delivery of a run that is being walked starts no executor, whatever else happens.
Either it finds the run over by the time it would give it up, and then all runs and step rows end
as they do without it, or it gives the run up with a fixed message, and the run ends as failed. -/
theorem second_delivery (d : Deployment ω) {canvases : ℕ → Option Canvas}
    {before after : List (Event Launch (Answer ω))} {c c' : Config (Answer ω) World}
    (h : (runSystem d).exec (.idle { canvases }) before = some c)
    (h' : (runSystem d).exec c after = some c') {runId i : ℕ} (hrows : c.state.steps runId ≠ [])
    (hfree : c.threads i = none)
    (hsecond : ∀ what, .launch i what ∈ after → what = .executeSteps runId) :
    (runSystem d).AllowedRun (fun e w w' => e.thread = i → SecondStep runId i w w') c after ∧
    ((∃ c'', (runSystem d).exec c (after.filter fun e => e.thread ≠ i) = some c'' ∧
        c''.state.runs = c'.state.runs ∧ c''.state.steps = c'.state.steps) ∨
      ¬ (runSystem d).AllowedRun (HoldsOn runId i) c after ∧
        ∃ row, c'.state.runs runId = some row ∧ row.status = .failed) := by
  obtain ⟨gs, hc⟩ := runsOk_exec d h
  have honly : (runSystem d).AllowedRun (fun e _ _ => OnlySecond runId i e) c after :=
    System.allowedRun_of_forall fun e he _ _ what hwhat => hsecond what (hwhat ▸ he)
  constructor
  · refine (second_sound d (Q := fun _ => True) (fun _ _ _ h => h) trivial
      fun _ _ _ _ _ _ => trivial).steps ?_ (second_start hc hrows hfree trivial) honly
    intro e gs w gs' w' hok he hm hi
    exact (second_moved hok he hi hm).imp_right (Or.imp_right And.right)
  · by_cases hall : (runSystem d).AllowedRun (HoldsOn runId i) c after
    · left
      have hsilent : (runSystem d).AllowedRun
          (fun e w w' => e.thread = i → w'.without i = w.without i) c after := by
        refine (second_sound d (Q := fun b => b = false) (fun _ _ _ h => h.1) rfl
          fun e w w' hi ha hg => absurd hg (ha.2 hi)).steps ?_
          (second_start hc hrows hfree rfl) (honly.and hall)
        intro e gs w gs' w' hok ha hm hi
        rcases second_moved hok ha.1 hi hm with hs | hs | ⟨hs, -⟩
        · exact hs.without
        · exact absurd hs (ha.2 hi)
        · cases hs
      have hcommutes : c.Commutes (fun w => w.without i) i :=
        (runSystem_commutes d).exec (fun j task hj => by cases hj) h
      obtain ⟨c'', hc'', he⟩ := (runSystem_commutes d).exec_without hcommutes h' hsilent
      exact ⟨c'', hc'', congrArg (fun w => w.runs) he, congrArg (fun w => w.steps) he⟩
    · exact .inr ⟨hall, (holdsOn_or_failed hc h').resolve_left hall⟩

end Runs

section Examples

def deliveredEarly : List (Event Launch (Answer Unit)) :=
  .launch 3 (.executeSteps 0) :: steps 3 6 ++ steps 2 7

/-- The task is delivered again before the second wave, and the walk ends before the second
delivery would give the run up. -/
def deliveredLate : List (Event Launch (Answer Unit)) :=
  .launch 3 (.executeSteps 0) :: steps 3 3 ++ steps 2 7 ++ steps 3 1

/-- A run that is delivered twice while it is walked ends as failed; delivered once, it ends as
successful. -/
theorem deliveredEarly_fails :
    ∃ c c' c'', (runSystem demoDeployment).exec (.idle (storing listThenRun)) firstWave = some c ∧
      (c.state.runs 0).map RunRow.status = some .running ∧
      (runSystem demoDeployment).exec c deliveredEarly = some c' ∧
      (runSystem demoDeployment).exec c (deliveredEarly.filter fun e => e.thread ≠ 3) =
        some c'' ∧
      (c'.state.runs 0).map RunRow.status = some .failed ∧
      (c''.state.runs 0).map RunRow.status = some .success := by
  have hboth : (((runSystem demoDeployment).exec (.idle (storing listThenRun)) firstWave).bind
      fun c => ((runSystem demoDeployment).exec c deliveredEarly).bind fun c' =>
        ((runSystem demoDeployment).exec c (deliveredEarly.filter fun e => e.thread ≠ 3)).map
          fun c'' => [c, c', c''].map fun c => (c.state.runs 0).map RunRow.status) =
      some [some .running, some .failed, some .success] := by decide +kernel
  obtain ⟨c, hc, hboth⟩ := Option.bind_eq_some_iff.mp hboth
  obtain ⟨c', hc', hboth⟩ := Option.bind_eq_some_iff.mp hboth
  obtain ⟨c'', hc'', hboth⟩ := Option.map_eq_some_iff.mp hboth
  simp only [List.map_cons, List.map_nil, List.cons.injEq, and_true] at hboth
  exact ⟨c, c', c'', hc, hboth.1, hc', hc'', hboth.2.1, hboth.2.2⟩

theorem deliveredLate_harmless :
    ∃ c c', (runSystem demoDeployment).exec (.idle (storing listThenRun)) firstWave = some c ∧
      (runSystem demoDeployment).exec c deliveredLate = some c' ∧ c.state.steps 0 ≠ [] ∧
      c.threads 3 = none ∧
      (runSystem demoDeployment).AllowedRun (fun e w w' => e.thread = 3 → SecondStep 0 3 w w') c
        deliveredLate ∧
      ((∃ c'', (runSystem demoDeployment).exec c (deliveredLate.filter fun e => e.thread ≠ 3) =
          some c'' ∧ c''.state.runs = c'.state.runs ∧ c''.state.steps = c'.state.steps) ∨
        ¬ (runSystem demoDeployment).AllowedRun (HoldsOn 0 3) c deliveredLate ∧
          ∃ row, c'.state.runs 0 = some row ∧ row.status = .failed) := by
  have hrun : (((runSystem demoDeployment).exec (.idle (storing listThenRun)) firstWave).bind
      fun c => ((runSystem demoDeployment).exec c deliveredLate).map fun _ =>
        ((c.state.steps 0).isEmpty, (c.threads 3).isNone)) = some (false, true) := by
    decide +kernel
  have hsecond : ∀ what, Event.launch 3 what ∈ deliveredLate → what = .executeSteps 0 := by
    simp [deliveredLate, steps]
  obtain ⟨c, hc, hrun⟩ := Option.bind_eq_some_iff.mp hrun
  obtain ⟨c', hc', hrun⟩ := Option.map_eq_some_iff.mp hrun
  have hrows : c.state.steps 0 ≠ [] := by simpa using congrArg Prod.fst hrun
  have hfree : c.threads 3 = none := by simpa using congrArg Prod.snd hrun
  exact ⟨c, c', hc, hc', hrows, hfree,
    second_delivery demoDeployment hc hc' hrows hfree hsecond⟩

end Examples

end Manus
