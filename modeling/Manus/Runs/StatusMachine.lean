import Manus.Runner.Transparency
import Manus.Runs.Keeps

/-! # Run status is a one-way state machine

A dozen writers in three processes move the rows of runs, some of them after a
stale read. What each of their commits can do to a row is said once; that a run
which is over stays over, and that no run is claimed twice, follows for every
interleaving.
-/

namespace Manus

variable {ω : Type}

def claimCount (runId : ℕ) (log : List (ℕ × Note)) : ℕ :=
  log.countP fun entry => match entry.2 with
    | .claimed id => id == runId
    | _ => false

def RunRow.Clean (row : RunRow) : Prop :=
  row.status ∈ terminalRunStatuses → row.currentNodeId = none ∧ row.approvalState = none

structure RowStep (row row' : RunRow) : Prop where
  clean : row.Clean → row'.Clean
  sticky : row.status ∈ terminalRunStatuses → row'.status = row.status
  pending : row'.status = .pending → row.status = .pending
  workflow : row'.workflowId = row.workflowId

theorem RowStep.refl (row : RunRow) : RowStep row row := ⟨id, fun _ => rfl, id, rfl⟩

structure StoreStep (w w' : World) : Prop where
  rows : ∀ id row, w.runs id = some row → ∃ row', w'.runs id = some row' ∧ RowStep row row'
  created : ∀ id row', w.runs id = none → w'.runs id = some row' → row'.status = .pending
  fresh : (∀ id, w.nextRunId ≤ id → w.runs id = none) → ∀ id, w'.nextRunId ≤ id → w'.runs id = none
  claims : ∀ id, claimCount id w'.log = claimCount id w.log ∨
    claimCount id w'.log = claimCount id w.log + 1 ∧
      (∃ row, w.runs id = some row ∧ row.status = .pending) ∧
      ∃ row', w'.runs id = some row' ∧ row'.status ≠ .pending
  stepRows : ∀ id, w.steps id ≠ [] → w'.steps id ≠ []

theorem StoreStep.of_same {w w' : World} (hr : w'.runs = w.runs) (hn : w'.nextRunId = w.nextRunId)
    (hl : ∀ id, claimCount id w'.log = claimCount id w.log)
    (hs : ∀ id, w.steps id ≠ [] → w'.steps id ≠ []) : StoreStep w w' := by
  constructor
  · intro id row h
    exact ⟨row, by rw [hr, h], .refl row⟩
  · intro id row' h h'
    rw [hr, h] at h'
    cases h'
  · intro h id hid
    rw [hr]
    exact h id (hn ▸ hid)
  · intro id
    exact .inl (hl id)
  · exact hs

theorem StoreStep.refl (w : World) : StoreStep w w := .of_same rfl rfl (fun _ => rfl) fun _ h => h

theorem claimCount_note {runId i : ℕ} {n : Note} {w : World} (h : ∀ id, n ≠ .claimed id) :
    claimCount runId (w.note i n).log = claimCount runId w.log := by
  simp only [claimCount, World.note, List.countP_append, List.countP_singleton]
  cases n <;> simp_all

theorem StoreStep.setSteps {w : World} {runId : ℕ} {rows : List StepRow}
    (h : w.steps runId ≠ [] → rows ≠ []) : StoreStep w (w.setSteps runId rows) := by
  refine .of_same rfl rfl (fun _ => rfl) fun id hid => ?_
  by_cases he : id = runId
  · subst he
    simpa only [World.setSteps, Function.update_self] using h hid
  · simpa only [World.setSteps, Function.update_of_ne he] using hid

theorem StoreStep.wrote {w w' : World} (h : StoreStep w w') (stepWrites : List (ℕ × String)) :
    StoreStep w { w' with stepWrites } := ⟨h.rows, h.created, h.fresh, h.claims, h.stepRows⟩

/-- Rows are only ever replaced by a step. -/
theorem StoreStep.setRun {w : World} {runId : ℕ} {row row' : RunRow}
    (h : w.runs runId = some row) (hs : RowStep row row') : StoreStep w (w.setRun runId row') := by
  have hrun : ∀ id, id ≠ runId → (w.setRun runId row').runs id = w.runs id := fun id hne => by
    simp [World.setRun, hne]
  have hself : (w.setRun runId row').runs runId = some row' := by simp [World.setRun]
  constructor
  · intro id old hold
    by_cases he : id = runId
    · subst he
      rw [h] at hold
      cases hold
      exact ⟨row', hself, hs⟩
    · exact ⟨old, by rw [hrun id he, hold], .refl old⟩
  · intro id new hnone hnew
    by_cases he : id = runId
    · subst he
      rw [h] at hnone
      cases hnone
    · rw [hrun id he, hnone] at hnew
      cases hnew
  · intro hfresh id hid
    by_cases he : id = runId
    · subst he
      rw [hfresh id hid] at h
      cases h
    · rw [hrun id he]
      exact hfresh id hid
  · intro id
    exact .inl rfl
  · exact fun _ h => h

theorem RunRow.move_step {row : RunRow} {toStatus : RunStatus}
    {fromStatuses : Option (List RunStatus)} {fields : RunFields}
    (h : row.mayMove fromStatuses = true) (hto : toStatus ≠ .pending)
    (hfrom : ∀ statuses, fromStatuses = some statuses →
      ∀ s ∈ statuses, s ∈ terminalRunStatuses → s = toStatus) :
    RowStep row (row.move toStatus fields) := by
  have hstatus : (row.move toStatus fields).status = toStatus := by
    unfold RunRow.move
    dsimp only
    split <;> rfl
  constructor
  · intro _ hterm
    rw [hstatus] at hterm
    unfold RunRow.move
    dsimp only
    rw [if_pos hterm]
    exact ⟨rfl, rfl⟩
  · intro hterm
    rw [hstatus]
    cases fromStatuses with
    | none =>
      have hnot : row.status ∉ terminalRunStatuses := of_decide_eq_true h
      exact absurd hterm hnot
    | some statuses =>
      exact (hfrom statuses rfl row.status (of_decide_eq_true h) hterm).symm
  · intro hp
    rw [hstatus] at hp
    exact absurd hp hto
  · unfold RunRow.move
    dsimp only
    split <;> rfl

section Operations

def FreshIds (w : World) : Prop := ∀ id, w.nextRunId ≤ id → w.runs id = none

theorem transition_step (w : World) (runId : ℕ) {toStatus : RunStatus}
    {fromStatuses : Option (List RunStatus)} (fields : RunFields) (hto : toStatus ≠ .pending)
    (hfrom : ∀ statuses, fromStatuses = some statuses →
      ∀ s ∈ statuses, s ∈ terminalRunStatuses → s = toStatus) :
    StoreStep w (w.transition runId toStatus fromStatuses fields).2 := by
  rcases w.transition_cases runId toStatus fromStatuses fields with h | ⟨row, hrow, hmay, h⟩
  · rw [h]
    exact .refl w
  · rw [h]
    exact .setRun hrow (RunRow.move_step hmay hto hfrom)

theorem claim_step (w : World) (thread runId : ℕ) : StoreStep w (w.claim thread runId).2 := by
  have hfrom : ∀ statuses, some [RunStatus.pending] = some statuses →
      ∀ s ∈ statuses, s ∈ terminalRunStatuses → s = .running := by
    rintro statuses ⟨⟩ s hs hterm
    rw [List.mem_singleton.mp hs] at hterm
    exact absurd hterm (by decide)
  unfold World.claim
  rcases w.transition_cases runId .running (some [.pending]) {} with h | ⟨row, hrow, hmay, h⟩
  · rw [h]
    exact .refl w
  · have hmove : StoreStep w (w.setRun runId (row.move .running {})) :=
      .setRun hrow (RunRow.move_step hmay (by decide) hfrom)
    rw [h]
    refine ⟨hmove.rows, hmove.created, hmove.fresh, fun id => ?_, hmove.stepRows⟩
    by_cases he : id = runId
    · subst he
      refine .inr ⟨by simp [claimCount, World.note, World.setRun], ⟨row, hrow, ?_⟩,
        row.move .running {}, by simp [World.note, World.setRun], by
          simp [RunRow.move, terminalRunStatuses]⟩
      simpa [RunRow.mayMove] using hmay
    · exact .inl (by simp [claimCount, World.note, World.setRun, Ne.symm he])

theorem create_step {w : World} (hw : FreshIds w) {row : RunRow} (hrow : row.status = .pending) :
    StoreStep w (w.create row) := by
  have hfree := hw w.nextRunId le_rfl
  constructor
  · intro id old hold
    have hne : id ≠ w.nextRunId := by
      rintro rfl
      rw [hfree] at hold
      cases hold
    exact ⟨old, by simp [World.create, World.setRun, hne, hold], .refl old⟩
  · intro id new hnone hnew
    by_cases he : id = w.nextRunId
    · subst he
      simp only [World.create, World.setRun, Function.update_self, Option.some.injEq] at hnew
      rw [← hnew, hrow]
    · simp only [World.create, World.setRun, Function.update_of_ne he, hnone] at hnew
      cases hnew
  · intro _ id hid
    have hid : w.nextRunId + 1 ≤ id := hid
    simp only [World.create, World.setRun, Function.update_of_ne (show id ≠ w.nextRunId by omega)]
    exact hw id (by omega)
  · intro id
    exact .inl rfl
  · exact fun _ h => h

theorem record_step (w : World) (runId : ℕ) (hatchetRunId : String) :
    StoreStep w (match w.runs runId with
      | none => w
      | some row => w.setRun runId { row with hatchetRunId := some hatchetRunId }) := by
  split
  · exact .refl w
  · rename_i row hrow
    exact .setRun hrow ⟨id, fun _ => rfl, id, rfl⟩

theorem always_same {α : Type} {f : Action (Answer ω) World α}
    (h : ∀ t w x w', f t w = some (x, w') → w' = w) :
    (Prog.lift f).Always FreshIds fun _ => StoreStep :=
  .lift fun t w x w' _ hf => h t w x w' hf ▸ .refl w

theorem always_note {α : Type} {f : Action (Answer ω) World α} (n : World → Note)
    (hn : ∀ w id, n w ≠ .claimed id)
    (h : ∀ t w x w', f t w = some (x, w') → w' = w ∨ w' = w.note t.thread (n w)) :
    (Prog.lift f).Always FreshIds fun _ => StoreStep := by
  refine .lift fun t w x w' _ hf => ?_
  rcases h t w x w' hf with rfl | rfl
  · exact .refl _
  · exact .of_same rfl rfl (fun _ => claimCount_note (hn w)) fun _ h => h

/-- Every operation of the system is a step of the store. -/
theorem stepOps_storeStep :
    StepOps (ω := ω) (fun _ => True) fun _ p => p.Always FreshIds fun _ => StoreStep where
  closed := ⟨.pure, .bind⟩
  gather _ := .gather
  get _ _ := .get fun _ => .refl
  answer f := always_same fun t w x w' h => by cases h; rfl
  cancel runId :=
    .update fun _ w _ => transition_step w runId {} (by decide) fun _ h => by cases h
  transitionRun runId toStatus fields hto :=
    .update fun _ w _ => transition_step w runId fields hto fun _ h => by cases h
  annotateCancelled runId fields := by
    refine .update fun _ w _ => transition_step w runId fields (by decide) ?_
    rintro statuses ⟨⟩ s hs -
    exact List.mem_singleton.mp hs
  finaliseOpenStepResults runId := .update fun _ w _ => .setSteps fun h => by simpa using h
  createRun _ _ _ _ _ := .update fun _ w hw => by
    split
    · exact create_step hw rfl
    · exact .refl w
  endStart _ := .update fun _ w _ => .of_same rfl rfl (fun _ => rfl) fun _ h => h
  recheckParent parentRunId runId := .update fun _ w _ => by
    rcases w.recheck_cases parentRunId runId with h | h <;> rw [h] <;>
      exact .of_same rfl rfl (fun _ => rfl) fun _ h => h
  submit runId := by
    refine .lift fun t w x w' _ h => ?_
    cases h
    split <;> exact .of_same rfl rfl (fun _ => rfl) fun _ h => h
  recordHatchetRunId runId hatchetRunId := .update fun _ w _ => record_step w runId hatchetRunId
  pushBatchEvent uuid batchIndex := by
    refine .lift fun t w x w' _ h => ?_
    cases h
    split <;> exact .of_same rfl rfl (fun _ => rfl) fun _ h => h
  createStepResult runId node := by
    refine .update fun _ w _ => ?_
    split
    · exact .refl w
    · exact .setSteps fun _ => by simp
  updateStepResult _ _ _ := .update fun _ w _ =>
    StoreStep.wrote (.setSteps fun h => by simpa using h) _
  loadWorkflow runId workflowId phase _ := by
    refine .lift fun t w x w' _ h => ?_
    split at h
    · cases h
      exact .refl w
    · cases h
      exact .of_same rfl rfl (fun _ => claimCount_note fun _ => Note.noConfusion) fun _ h => h
  cancelRequested runId :=
    always_note (fun w => .boundary runId ((w.runs runId).map RunRow.status))
      (fun _ _ => Note.noConfusion) fun t w x w' h => by cases h; exact .inr rfl
  invoke runId nodeId ctx _ :=
    always_note (fun _ => .invoked runId nodeId ctx.devices.keys) (fun _ _ => Note.noConfusion)
      fun t w x w' h => by cases h; exact .inr rfl
  waitForEvent uuid batchIndex := always_same fun t w x w' h => by
    split at h
    · cases h
      rfl
    · cases h
  requestChild _ _ := .update fun _ w _ => .of_same rfl rfl (fun _ => rfl) fun _ h => h
  awaitChild index := always_same fun t w x w' h => by
    split at h
    · obtain ⟨r, -, he⟩ := Option.map_eq_some_iff.mp h
      cases he
      rfl
    · cases h
      rfl
  reportChild _ _ := .update fun _ w _ => .of_same rfl rfl (fun _ => rfl) fun _ h => h
  prepare runId := .lift fun t w x w' _ h => by
    have hstep := claim_step w t.thread runId
    rwa [Option.some.inj h] at hstep
  writeCanvas _ _ := .update fun _ w _ => .of_same rfl rfl (fun _ => rfl) fun _ h => h

end Operations

section Runs

structure RunsOk (w : World) : Prop where
  fresh : FreshIds w
  clean : ∀ id row, w.runs id = some row → row.Clean
  unclaimed : ∀ id, (∀ row, w.runs id = some row → row.status = .pending) →
    claimCount id w.log = 0
  claims : ∀ id, claimCount id w.log ≤ 1

theorem StoreStep.runsOk {w w' : World} (h : StoreStep w w') (hw : RunsOk w) : RunsOk w' := by
  have hnew : ∀ id row', w.runs id = none → w'.runs id = some row' → row'.Clean := by
    intro id row' hnone hrow' hterm
    rw [h.created id row' hnone hrow'] at hterm
    exact absurd hterm (by decide)
  constructor
  · exact h.fresh hw.fresh
  · intro id row' hrow'
    cases hrow : w.runs id with
    | none => exact hnew id row' hrow hrow'
    | some row =>
      obtain ⟨row'', h'', hstep⟩ := h.rows id row hrow
      rw [hrow'] at h''
      cases h''
      exact hstep.clean (hw.clean id row hrow)
  · intro id hpending
    have hbefore : ∀ row, w.runs id = some row → row.status = .pending := by
      intro row hrow
      obtain ⟨row', hrow', hstep⟩ := h.rows id row hrow
      exact hstep.pending (hpending row' hrow')
    rcases h.claims id with hc | ⟨-, -, row', hrow', hne⟩
    · rw [hc]
      exact hw.unclaimed id hbefore
    · exact absurd (hpending row' hrow') hne
  · intro id
    rcases h.claims id with hc | ⟨hc, ⟨row, hrow, hpending⟩, -⟩
    · rw [hc]
      exact hw.claims id
    · rw [hc, hw.unclaimed id fun row₁ h₁ => by rw [hrow] at h₁; cases h₁; exact hpending]

def Settles (w w' : World) : Prop :=
  ∀ id row, w.runs id = some row → row.status ∈ terminalRunStatuses →
    ∃ row', w'.runs id = some row' ∧ row'.status = row.status

theorem Settles.step {w w' w'' : World} (h : Settles w w') (h' : StoreStep w' w'') :
    Settles w w'' := by
  intro id row hrow hterm
  obtain ⟨row', hrow', hs⟩ := h id row hrow hterm
  obtain ⟨row'', hrow'', hstep⟩ := h'.rows id row' hrow'
  exact ⟨row'', hrow'', (hstep.sticky (hs ▸ hterm)).trans hs⟩

abbrev storeMoves : Prog.Move World Unit := stepMoves fun _ => StoreStep

theorem start_step {d : Deployment ω} {what : Launch} {w w' : World}
    {task : Task (Answer ω) World} (h : (runSystem d).start what w = some (task, w')) :
    StoreStep w w' := by
  cases what with
  | deviceGroup index =>
    obtain ⟨queued, -, he⟩ := Option.map_eq_some_iff.mp h
    cases he
    exact .of_same rfl rfl (fun _ => rfl) fun _ h => h
  | prepare runId =>
    simp only [runSystem] at h
    split at h <;> cases h
    exact .refl w
  | executeSteps runId =>
    simp only [runSystem] at h
    split at h <;> cases h
    exact .refl w
  | failRun runId =>
    simp only [runSystem] at h
    split at h <;> cases h
    exact .refl w
  | _ =>
    cases h
    exact .refl w

theorem runSystem_storeStep (d : Deployment ω) :
    (runSystem d).Moves FreshIds fun _ => StoreStep where
  prog hs := (stepOps_storeStep.tasks d).start hs (Launch.covered_of_all (fun _ => trivial) _ _)
  handlers hs := (stepOps_storeStep.tasks d).handlers hs
  launch _ _ hs := start_step hs

theorem runSystem_sound (d : Deployment ω) {J : World → Prop} (hJ : ∀ w, J w → RunsOk w)
    (hstep : ∀ w w', J w → StoreStep w w' → J w') :
    (runSystem d).Sound FreshIds storeMoves (fun _ => J) fun _ _ _ => True :=
  (runSystem_storeStep d).sound (fun w hw => (hJ w hw).fresh) fun _ _ w w' hw _ h => hstep w w' hw h

theorem allowedRun_true {ι σ : Type} {sys : System ι ω σ} {c : Config ω σ}
    (es : List (Event ι ω)) : sys.AllowedRun (fun _ _ _ => True) c es :=
  System.allowedRun_of_forall fun _ _ _ _ => trivial

theorem runsOk_start (canvases : ℕ → Option Canvas) : RunsOk { canvases } := by
  constructor
  · intro id _
    rfl
  · intro id row hrow
    cases hrow
  · intro id _
    rfl
  · intro id
    exact Nat.zero_le 1

def SameWorkflows (w w' : World) : Prop :=
  ∀ id row, w.runs id = some row → ∃ row', w'.runs id = some row' ∧
    row'.workflowId = row.workflowId

theorem SameWorkflows.step {w w' w'' : World} (h : SameWorkflows w w') (h' : StoreStep w' w'') :
    SameWorkflows w w'' := by
  intro id row hrow
  obtain ⟨row', hrow', he⟩ := h id row hrow
  obtain ⟨row'', hrow'', hstep⟩ := h'.rows id row' hrow'
  exact ⟨row'', hrow'', hstep.workflow.trans he⟩

theorem allowedRun_workflow (d : Deployment ω) {es : List (Event Launch (Answer ω))}
    {c c' : Config (Answer ω) World} {gs : ℕ → Unit}
    (hc : c.Ok FreshIds storeMoves (fun _ => RunsOk) gs) (h : (runSystem d).exec c es = some c')
    {runId : ℕ} {row : RunRow} (hrow : c'.state.runs runId = some row) :
    (runSystem d).AllowedRun (fun _ _ w => ∀ row', w.runs runId = some row' →
      row'.workflowId = row.workflowId) c es := by
  have hsound := runSystem_sound d (fun _ hw => hw) fun w w' hw hs => StoreStep.runsOk hs hw
  induction es generalizing c gs with
  | nil => trivial
  | cons e es ih =>
    intro c₁ h₁
    obtain ⟨gs₁, hc₁, -⟩ := hsound.next hc h₁ trivial
    have hrest : (runSystem d).exec c₁ es = some c' := by
      simpa only [System.exec, h₁, Option.bind_some] using h
    refine ⟨fun row' hrow' => ?_, ih hc₁ hrest⟩
    have hreached :
      c₁.Ok FreshIds storeMoves (fun _ w => RunsOk w ∧ SameWorkflows c₁.state w) gs₁ :=
      ⟨hc₁.tasks, hc₁.state, fun id row hrow => ⟨row, hrow, rfl⟩⟩
    obtain ⟨_, hend⟩ := (runSystem_sound d (J := fun w => RunsOk w ∧ SameWorkflows c₁.state w)
      (fun _ hw => hw.1) fun w w' hw hs => ⟨hs.runsOk hw.1, hw.2.step hs⟩).exec hreached hrest
      (allowedRun_true _)
    obtain ⟨row'', hrow'', he⟩ := hend.state.2 runId row' hrow'
    rw [hrow] at hrow''
    cases hrow''
    exact he.symm

theorem runsOk_exec (d : Deployment ω) {canvases : ℕ → Option Canvas}
    {es : List (Event Launch (Answer ω))} {c : Config (Answer ω) World}
    (h : (runSystem d).exec (.idle { canvases }) es = some c) :
    ∃ gs, c.Ok FreshIds storeMoves (fun _ => RunsOk) gs := by
  have hidle : Config.Ok (ω := Answer ω) FreshIds storeMoves (fun _ => RunsOk)
      (.idle { canvases }) fun _ => () := .idle (runsOk_start canvases)
  exact (runSystem_sound d (fun _ hw => hw) fun w w' hw hs => hs.runsOk hw).exec hidle h
    (allowedRun_true _)

theorem settles_exec (d : Deployment ω) {es : List (Event Launch (Answer ω))}
    {c c' : Config (Answer ω) World} {gs : ℕ → Unit}
    (hc : c.Ok FreshIds storeMoves (fun _ => RunsOk) gs)
    (h : (runSystem d).exec c es = some c') : RunsOk c'.state ∧ Settles c.state c'.state := by
  have hreached : c.Ok FreshIds storeMoves (fun _ w => RunsOk w ∧ Settles c.state w) gs :=
    ⟨hc.tasks, hc.state, fun id row hrow _ => ⟨row, hrow, rfl⟩⟩
  obtain ⟨gs', hc'⟩ := (runSystem_sound d (J := fun w => RunsOk w ∧ Settles c.state w)
    (fun _ hw => hw.1) fun w w' hw hs => ⟨hs.runsOk hw.1, hw.2.step hs⟩).exec hreached h
    (allowedRun_true _)
  exact hc'.state

/-- Run status is a one-way state machine. Whatever happened before and happens afterwards, a run
that is over keeps its status and has neither a position nor an approval gate, and no run was
claimed more than once. -/
theorem run_status_oneWay (d : Deployment ω) {canvases : ℕ → Option Canvas}
    {before after : List (Event Launch (Answer ω))} {c c' : Config (Answer ω) World}
    (h : (runSystem d).exec (.idle { canvases }) before = some c)
    (h' : (runSystem d).exec c after = some c') :
    (∀ id row, c.state.runs id = some row → row.status ∈ terminalRunStatuses →
      ∃ row', c'.state.runs id = some row' ∧ row'.status = row.status ∧
        row'.currentNodeId = none ∧ row'.approvalState = none) ∧
    ∀ id, claimCount id c'.state.log ≤ 1 := by
  obtain ⟨gs, hc⟩ := runsOk_exec d h
  obtain ⟨hok, hsettles⟩ := settles_exec d hc h'
  refine ⟨fun id row hrow hterm => ?_, hok.claims⟩
  obtain ⟨row', hrow', hs⟩ := hsettles id row hrow hterm
  exact ⟨row', hrow', hs, hok.clean id row' hrow' (hs ▸ hterm)⟩

end Runs

section Examples

/-- A list step that lists two devices and asks for fan-out when it is configured to, a command
step that passes its devices on, and a fan-in step. -/
def demoDeployment : Deployment Unit where
  registry := smallRegistry
  executors stepType :=
    if stepType = "get-from-list" then
      some fun config ctx _ _ _ => .ok [⟨"success", { ctx with
        devices := listedDevices
        metadata := match config.get? "fan_out" with
          | some fanOut => ctx.metadata.insert "_fan_out" fanOut
          | none => ctx.metadata }⟩]
    else if stepType = "run-command" || stepType = "fan-in" then
      some fun _ ctx _ _ _ => .ok [⟨"success", ctx⟩]
    else none

def steps (thread n : ℕ) : List (Event Launch (Answer Unit)) :=
  List.replicate n (.step ⟨thread, [], { seed := () }⟩)

def storing (canvas : Canvas) : World := { canvases := fun _ => some canvas }

def firstWave : List (Event Launch (Answer Unit)) :=
  .launch 0 (.triggerRun { workflowId := 1, uuid := "u", hatchetRunId := "h" }) :: steps 0 6 ++
  .launch 1 (.prepare 0) :: steps 1 1 ++ .launch 2 (.executeSteps 0) :: steps 2 10

def cancelledRun : List (Event Launch (Answer Unit)) :=
  .launch 0 (.triggerRun { workflowId := 1, uuid := "u", hatchetRunId := "h" }) :: steps 0 6 ++
  .launch 1 (.prepare 0) :: steps 1 1 ++ .launch 2 (.cancelRun 0) :: steps 2 6

def lateFailure : List (Event Launch (Answer Unit)) := .launch 3 (.failRun 0) :: steps 3 1

theorem cancelledRun_settles :
    ∃ c c', (runSystem demoDeployment).exec (.idle {}) cancelledRun = some c ∧
      (runSystem demoDeployment).exec c lateFailure = some c' ∧
      (c.state.runs 0).map RunRow.status = some .cancelled ∧
      (∀ id row, c.state.runs id = some row → row.status ∈ terminalRunStatuses →
        ∃ row', c'.state.runs id = some row' ∧ row'.status = row.status ∧
          row'.currentNodeId = none ∧ row'.approvalState = none) ∧
      ∀ id, claimCount id c'.state.log ≤ 1 := by
  have hrun : (((runSystem demoDeployment).exec (.idle {}) cancelledRun).bind fun c =>
      (runSystem demoDeployment).exec c lateFailure).isSome = true := by decide
  have hstatus : (((runSystem demoDeployment).exec (.idle {}) cancelledRun).bind fun c =>
      (c.state.runs 0).map RunRow.status) = some .cancelled := by decide
  obtain ⟨c', hc'⟩ := Option.isSome_iff_exists.mp hrun
  obtain ⟨c, hc, hc'⟩ := Option.bind_eq_some_iff.mp hc'
  rw [hc] at hstatus
  exact ⟨c, c', hc, hc', hstatus, run_status_oneWay demoDeployment hc hc'⟩

end Examples

end Manus
