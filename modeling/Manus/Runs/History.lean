import Manus.Runs.StatusMachine

/-! # The history of a cancelled run

A cancel closes the open step rows of its run, and tasks that are still under
way write step rows afterwards. What each of these writes can do to a row that is
closed already is said once.
-/

namespace Manus

variable {ω : Type}

def closedStepStatuses : List StepStatus := [.success, .partialResult, .failed, .skipped]

def World.Cancelled (w : World) (runId : ℕ) : Prop :=
  ∃ row, w.runs runId = some row ∧ row.status = .cancelled

def KeepsClosed (runId : ℕ) (except : StepRow → Prop) (w w' : World) : Prop :=
  ∀ (i : ℕ) row, (w.steps runId)[i]? = some row → row.status ∈ closedStepStatuses → ¬ except row →
    (w'.steps runId)[i]? = some row

/-- The row of a node that was merged from some failed and some successful children. -/
def PartialRow (nodeId : String) (row : StepRow) : Prop :=
  row.nodeId = nodeId ∧ row.status = .partialResult

/-- What a commit may do to the closed step rows: nothing, unless it is the update of one step row;
and that update leaves those of a cancelled run, apart from partial ones. -/
inductive HistoryStep (w w' : World) : Prop
  | kept (hwrites : w'.stepWrites = w.stepWrites)
      (hrows : ∀ runId, KeepsClosed runId (fun _ => False) w w')
  | wrote (runId : ℕ) (nodeId : String) (hwrites : w'.stepWrites = (runId, nodeId) :: w.stepWrites)
      (hother : ∀ id ≠ runId, w'.steps id = w.steps id)
      (hrows : w.Cancelled runId → KeepsClosed runId (PartialRow nodeId) w w')

section Operations

theorem HistoryStep.of_same {w w' : World} (hw : w'.stepWrites = w.stepWrites)
    (hs : w'.steps = w.steps) : HistoryStep w w' :=
  .kept hw fun runId i row hrow _ _ => by rw [hs]; exact hrow

theorem StepRow.close_eq {row : StepRow} (h : row.status ∈ closedStepStatuses) :
    row.close = row := by
  cases hs : row.status <;> simp_all [StepRow.close, closedStepStatuses]

theorem HistoryStep.setSteps {w : World} {runId : ℕ} {rows : List StepRow}
    (h : ∀ (i : ℕ) row, (w.steps runId)[i]? = some row → row.status ∈ closedStepStatuses →
      rows[i]? = some row) : HistoryStep w (w.setSteps runId rows) := by
  refine .kept rfl fun id i row hrow hclosed _ => ?_
  by_cases he : id = runId
  · subst he
    simpa only [World.setSteps, Function.update_self] using h i row hrow hclosed
  · simpa only [World.setSteps, Function.update_of_ne he] using hrow

theorem mem_terminalStepStatuses {row : StepRow} {nodeId : String}
    (h : row.status ∈ closedStepStatuses) (hp : ¬ PartialRow nodeId row)
    (hn : row.nodeId = nodeId) :
    row.status ∈ terminalStepStatuses := by
  have hne : row.status ≠ .partialResult := fun he => hp ⟨hn, he⟩
  cases hs : row.status <;> simp_all [closedStepStatuses, terminalStepStatuses]

theorem updateStepResult_history (runId : ℕ) (nodeId : String) (status : StepStatus) :
    (updateStepResult (ω := ω) runId nodeId status).Always FreshIds fun _ => HistoryStep := by
  refine .update fun _ w _ => .wrote runId nodeId rfl (fun id hid => ?_)
    fun hc i row hrow hclosed hp => ?_
  · simp only [World.setSteps, Function.update_of_ne hid]
  · obtain ⟨run, hrun, hstatus⟩ := hc
    simp only [World.setSteps, Function.update_self, List.getElem?_map, hrow, Option.map_some, hrun,
      Option.any_some, hstatus, beq_self_eq_true, and_true]
    by_cases hn : row.nodeId = nodeId
    · rw [if_neg (fun hw => hw.2 (mem_terminalStepStatuses hclosed hp hn))]
    · rw [if_neg (fun hw => hn hw.1)]

theorem always_sameSteps {α : Type} {f : Action (Answer ω) World α}
    (h : ∀ t w x w', f t w = some (x, w') → w'.stepWrites = w.stepWrites ∧ w'.steps = w.steps) :
    (Prog.lift f).Always FreshIds fun _ => HistoryStep :=
  .lift fun t w x w' _ hf => .of_same (h t w x w' hf).1 (h t w x w' hf).2

theorem transition_history (w : World) (runId : ℕ) (toStatus : RunStatus)
    (fromStatuses : Option (List RunStatus)) (fields : RunFields) :
    HistoryStep w (w.transition runId toStatus fromStatuses fields).2 := by
  rcases w.transition_cases runId toStatus fromStatuses fields with h | ⟨row, -, -, h⟩
  · rw [h]
    exact .of_same rfl rfl
  · rw [h]
    exact .of_same rfl rfl

/-- Every operation of the system is a step of the history. -/
theorem stepOps_historyStep :
    StepOps (ω := ω) (fun _ => True) fun _ p => p.Always FreshIds fun _ => HistoryStep where
  closed := ⟨.pure, .bind⟩
  gather _ := .gather
  get _ _ := .get fun _ _ => .of_same rfl rfl
  answer f := always_sameSteps fun t w x w' h => by cases h; exact ⟨rfl, rfl⟩
  cancel _ := .update fun _ w _ => transition_history w _ _ _ _
  transitionRun _ _ _ _ := .update fun _ w _ => transition_history w _ _ _ _
  annotateCancelled _ _ := .update fun _ w _ => transition_history w _ _ _ _
  finaliseOpenStepResults runId := .update fun _ w _ => .setSteps fun i row hrow hclosed => by
    rw [List.getElem?_map, hrow, Option.map_some, StepRow.close_eq hclosed]
  createRun _ _ _ _ _ := .update fun _ w _ => by
    split <;> exact .of_same rfl rfl
  endStart _ := .update fun _ w _ => .of_same rfl rfl
  recheckParent parentRunId runId := .update fun _ w _ => by
    rcases w.recheck_cases parentRunId runId with h | h <;> rw [h] <;> exact .of_same rfl rfl
  submit runId := always_sameSteps fun t w x w' h => by
    cases h
    split <;> exact ⟨rfl, rfl⟩
  recordHatchetRunId runId hatchetRunId := .update fun _ w _ => by
    dsimp only
    split <;> exact .of_same rfl rfl
  pushBatchEvent uuid batchIndex := always_sameSteps fun t w x w' h => by
    cases h
    split <;> exact ⟨rfl, rfl⟩
  createStepResult runId node := .update fun _ w _ => by
    split
    · exact .of_same rfl rfl
    · refine .setSteps fun i row hrow _ => ?_
      rwa [List.getElem?_append_left (List.getElem?_eq_some_iff.mp hrow).1]
  updateStepResult := updateStepResult_history
  loadWorkflow runId workflowId phase _ := always_sameSteps fun t w x w' h => by
    split at h <;> cases h <;> exact ⟨rfl, rfl⟩
  cancelRequested runId := always_sameSteps fun t w x w' h => by cases h; exact ⟨rfl, rfl⟩
  invoke runId nodeId ctx _ := always_sameSteps fun t w x w' h => by cases h; exact ⟨rfl, rfl⟩
  waitForEvent uuid batchIndex := always_sameSteps fun t w x w' h => by
    split at h <;> cases h
    exact ⟨rfl, rfl⟩
  requestChild _ _ := .update fun _ w _ => .of_same rfl rfl
  awaitChild index := always_sameSteps fun t w x w' h => by
    split at h
    · obtain ⟨r, -, he⟩ := Option.map_eq_some_iff.mp h
      cases he
      exact ⟨rfl, rfl⟩
    · cases h
      exact ⟨rfl, rfl⟩
  reportChild _ _ := .update fun _ w _ => .of_same rfl rfl
  prepare runId := always_sameSteps fun t w x w' h => by
    cases h
    rcases w.transition_cases runId .running (some [.pending]) {} with he | ⟨row, -, -, he⟩
    · simp only [he, Bool.false_eq_true, if_false, and_self]
    · simp only [he, if_true]
      exact ⟨rfl, rfl⟩
  writeCanvas _ _ := .update fun _ w _ => .of_same rfl rfl

end Operations

section Runs

theorem start_history {d : Deployment ω} {what : Launch} {w w' : World}
    {task : Task (Answer ω) World} (h : (runSystem d).start what w = some (task, w')) :
    HistoryStep w w' := by
  cases what with
  | deviceGroup index =>
    obtain ⟨queued, -, he⟩ := Option.map_eq_some_iff.mp h
    cases he
    exact .of_same rfl rfl
  | prepare runId | executeSteps runId | failRun runId =>
    simp only [runSystem] at h
    split at h <;> cases h
    exact .of_same rfl rfl
  | _ =>
    cases h
    exact .of_same rfl rfl

theorem runSystem_history (d : Deployment ω) :
    (runSystem d).Moves FreshIds fun _ w w' => StoreStep w w' ∧ HistoryStep w w' :=
  (runSystem_storeStep d).and {
    prog := fun hs => (stepOps_historyStep.tasks d).start hs
      (Launch.covered_of_all (fun _ => trivial) _ _)
    handlers := fun hs => (stepOps_historyStep.tasks d).handlers hs
    launch := fun _ _ hs => start_history hs }

/-- No step row of a cancelled run is written while it is `partial`. -/
def NoPartialWrite (_ : Event Launch (Answer ω)) (w w' : World) : Prop :=
  ∀ runId nodeId, w'.stepWrites = (runId, nodeId) :: w.stepWrites → w.Cancelled runId →
    ∀ row ∈ w.steps runId, row.nodeId = nodeId → row.status ≠ .partialResult

theorem HistoryStep.keepsClosed {e : Event Launch (Answer ω)} {w w' : World} {runId : ℕ}
    (h : HistoryStep w w') (ha : NoPartialWrite e w w') (hc : w.Cancelled runId) :
    KeepsClosed runId (fun _ => False) w w' := by
  cases h with
  | kept _ hrows => exact hrows runId
  | wrote id nodeId hwrites hother hrows =>
    intro i row hrow hclosed _
    by_cases he : runId = id
    · subst he
      refine hrows hc i row hrow hclosed fun hp => ?_
      exact ha runId nodeId hwrites hc row (List.mem_of_getElem? hrow) hp.1 hp.2
    · rw [hother runId he]
      exact hrow

theorem Settles.cancelled {w w' : World} {runId : ℕ} (h : Settles w w')
    (hc : w.Cancelled runId) : w'.Cancelled runId := by
  obtain ⟨row, hrow, hs⟩ := hc
  obtain ⟨row', hrow', hs'⟩ := h runId row hrow (by simp [hs, terminalRunStatuses])
  exact ⟨row', hrow', hs'.trans hs⟩

/-- The history of a cancelled run is frozen: as long as no `partial` row of a cancelled run is
written again, every closed row keeps its status and everything else that was written to it,
whatever tasks are still under way. -/
theorem cancelled_history_frozen (d : Deployment ω) {canvases : ℕ → Option Canvas}
    {before after : List (Event Launch (Answer ω))} {c c' : Config (Answer ω) World}
    (h : (runSystem d).exec (.idle { canvases }) before = some c)
    (h' : (runSystem d).exec c after = some c') {runId : ℕ} (hc : c.state.Cancelled runId)
    (ha : (runSystem d).AllowedRun NoPartialWrite c after) :
    ∀ (i : ℕ) row, (c.state.steps runId)[i]? = some row → row.status ∈ closedStepStatuses →
      (c'.state.steps runId)[i]? = some row := by
  have hmoves := runSystem_history d
  have hidle : Config.Ok (ω := Answer ω) FreshIds (stepMoves fun _ w w' => StoreStep w w' ∧
      HistoryStep w w') (fun _ => RunsOk) (.idle { canvases }) fun _ => () :=
    .idle (runsOk_start canvases)
  obtain ⟨gs, hreached⟩ := (hmoves.sound (fun w hw => hw.fresh)
    fun _ _ w w' hw _ hs => hs.1.runsOk hw).exec hidle h (allowedRun_true _)
  -- from here on the rows are measured against the state in which the run was cancelled
  have hkeeps : ∀ (e : Event Launch (Answer ω)) (_ : ℕ) (w w' : World), (RunsOk w ∧
      Settles c.state w ∧ KeepsClosed runId (fun _ => False) c.state w) → NoPartialWrite e w w' →
      (StoreStep w w' ∧ HistoryStep w w') → RunsOk w' ∧ Settles c.state w' ∧
        KeepsClosed runId (fun _ => False) c.state w' := by
    rintro e - w w' ⟨hok, hsettles, hkept⟩ hallowed ⟨hs, hh⟩
    refine ⟨hs.runsOk hok, hsettles.step hs, fun j row hrow hclosed hp => ?_⟩
    exact hh.keepsClosed hallowed (hsettles.cancelled hc) j row (hkept j row hrow hclosed hp)
      hclosed hp
  obtain ⟨gs', hend⟩ := (hmoves.sound (fun w hw => hw.1.fresh) hkeeps).exec
    ⟨hreached.tasks, hreached.state, fun id row hrow _ => ⟨row, hrow, rfl⟩,
      fun i row hrow _ _ => hrow⟩ h' ha
  intro i row hrow hclosed
  exact hend.state.2.2 i row hrow hclosed not_false

end Runs

section Examples

def batchedRun : Canvas where
  nodes := [⟨"I", { kind := some "get-from-list", pluginConfig := Dict.ofPairs [("fan_out",
      .obj [("enabled", .bool true), ("approval", .obj [("enabled", .bool true),
        ("batch_size", .int 2)])])] }⟩, ⟨"X", { kind := some "run-command" }⟩]
  edges := [{ source := "I", target := "X" }]

/-- The engine loses the child of the first device, the child of the second one runs, and the batch
is merged. -/
def mergedBatch : List (Event Launch (Answer Unit)) :=
  .launch 0 (.triggerRun { workflowId := 1, uuid := "u", hatchetRunId := "h" }) :: steps 0 6 ++
  .launch 1 (.prepare 0) :: steps 1 1 ++ .launch 2 (.executeSteps 0) :: steps 2 12 ++
  .step ⟨2, [], { seed := (), ok := false }⟩ :: steps 2 1 ++
  .launch 3 (.deviceGroup 1) :: steps 3 6 ++ steps 2 3

def cancelledBatch : List (Event Launch (Answer Unit)) :=
  mergedBatch ++ .launch 4 (.cancelRun 0) :: steps 4 6

/-- The final merge writes the row of the command step again, although the run is cancelled and
the row was closed before. -/
theorem finalMerge_rewrites :
    ∃ c c' row row', (runSystem demoDeployment).exec (.idle (storing batchedRun)) cancelledBatch =
        some c ∧ (runSystem demoDeployment).exec c (steps 2 3) = some c' ∧
      c.state.Cancelled 0 ∧ (∀ row ∈ c.state.steps 0, row.status ∈ closedStepStatuses) ∧
      (c.state.steps 0)[1]? = some row ∧ row.status = .partialResult ∧
      (c'.state.steps 0)[1]? = some row' ∧ row'.revision = row.revision + 1 := by
  have hrun : (((runSystem demoDeployment).exec (.idle (storing batchedRun)) cancelledBatch).bind
      fun c => ((runSystem demoDeployment).exec c (steps 2 3)).map fun c' =>
        ((c.state.runs 0).map RunRow.status, c.state.steps 0, c'.state.steps 0)) =
      some (some .cancelled, [⟨"I", .success, 2⟩, ⟨"X", .partialResult, 1⟩],
        [⟨"I", .success, 2⟩, ⟨"X", .partialResult, 2⟩]) := by decide +kernel
  obtain ⟨c, hc, hrun⟩ := Option.bind_eq_some_iff.mp hrun
  obtain ⟨c', hc', hrun⟩ := Option.map_eq_some_iff.mp hrun
  simp only [Prod.mk.injEq] at hrun
  obtain ⟨hstatus, hrows, hrows'⟩ := hrun
  refine ⟨c, c', ⟨"X", .partialResult, 1⟩, ⟨"X", .partialResult, 2⟩, hc, hc',
    Option.map_eq_some_iff.mp hstatus, ?_, by rw [hrows]; rfl, rfl, by rw [hrows']; rfl, rfl⟩
  rw [hrows]
  decide

def cancelledStep : List (Event Launch (Answer Unit)) :=
  .launch 0 (.triggerRun { workflowId := 1, uuid := "u", hatchetRunId := "h" }) :: steps 0 6 ++
  .launch 1 (.prepare 0) :: steps 1 1 ++ .launch 2 (.executeSteps 0) :: steps 2 8 ++
  .launch 3 (.cancelRun 0) :: steps 3 6

/-- The step reports its result afterwards, and the row that the cancel closed stays. -/
theorem lateResult_ignored :
    ∃ c c' row, (runSystem demoDeployment).exec (.idle (storing batchedRun)) cancelledStep =
        some c ∧ (runSystem demoDeployment).exec c (steps 2 2) = some c' ∧
      c.state.Cancelled 0 ∧ (c.state.steps 0)[0]? = some row ∧ row.status = .failed ∧
      c'.state.stepWrites = (0, "I") :: c.state.stepWrites ∧
      (c'.state.steps 0)[0]? = some row := by
  have hrun : (((runSystem demoDeployment).exec (.idle (storing batchedRun)) cancelledStep).bind
      fun c => ((runSystem demoDeployment).exec c (steps 2 2)).map fun c' =>
        ((c.state.runs 0).map RunRow.status, (c.state.steps 0)[0]?,
          decide (c'.state.stepWrites = (0, "I") :: c.state.stepWrites))) =
      some (some .cancelled, some ⟨"I", .failed, 2⟩, true) := by
    decide +kernel
  have hcheck : ((runSystem demoDeployment).exec (.idle (storing batchedRun)) cancelledStep).all
      (fun c => (runSystem demoDeployment).checkRun (fun _ w w' => w'.stepWrites.all fun p =>
        (w.steps p.1).all fun row => decide (row.status ≠ .partialResult)) c (steps 2 2)) =
        true := by decide +kernel
  obtain ⟨c, hc, hrun⟩ := Option.bind_eq_some_iff.mp hrun
  obtain ⟨c', hc', hrun⟩ := Option.map_eq_some_iff.mp hrun
  simp only [Prod.mk.injEq] at hrun
  obtain ⟨hstatus, hrow, hwrites⟩ := hrun
  rw [hc, Option.all_some] at hcheck
  have hcancelled : c.state.Cancelled 0 := Option.map_eq_some_iff.mp hstatus
  refine ⟨c, c', ⟨"I", .failed, 2⟩, hc, hc', hcancelled, hrow, rfl, of_decide_eq_true hwrites,
    cancelled_history_frozen demoDeployment hc hc' hcancelled
      (System.allowedRun_of_check ?_ hcheck) 0 _ hrow (by decide)⟩
  intro e w w' htest runId nodeId hw _ row hmem _
  simp only [hw, List.all_cons, Bool.and_eq_true, List.all_eq_true, decide_eq_true_eq] at htest
  exact htest.1 row hmem

end Examples

end Manus
