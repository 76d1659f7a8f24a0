import Manus.Runs.StatusMachine

/-! # Walks and runs that are over

A walk reads the run row before each of its waves. Every executor a task starts
belongs to a wave whose boundary the same task passed before, and at that
boundary the row did not say `cancelled`.
-/

namespace Manus

variable {ω : Type}

section Log

/-- The wave boundaries a thread passed, in order: the run and the status the walk found. -/
def boundaries (thread : ℕ) (log : List (ℕ × Note)) : List (ℕ × Option RunStatus) :=
  log.filterMap fun entry => match entry.2 with
    | .boundary runId status => if entry.1 = thread then some (runId, status) else none
    | _ => none

theorem mem_boundaries {thread runId : ℕ} {status : Option RunStatus} {log : List (ℕ × Note)} :
    (runId, status) ∈ boundaries thread log ↔ (thread, .boundary runId status) ∈ log := by
  unfold boundaries
  rw [List.mem_filterMap]
  constructor
  · rintro ⟨⟨i, n⟩, hmem, h⟩
    cases n with
    | boundary r s =>
      simp only [Option.ite_none_right_eq_some, Option.some.injEq, Prod.mk.injEq] at h
      obtain ⟨rfl, rfl, rfl⟩ := h
      exact hmem
    | _ => cases h
  · intro h
    exact ⟨_, h, by simp⟩

theorem boundaries_append (thread : ℕ) (log log' : List (ℕ × Note)) :
    boundaries thread (log ++ log') = boundaries thread log ++ boundaries thread log' :=
  List.filterMap_append

def lastBoundary (thread : ℕ) (log : List (ℕ × Note)) : Option (ℕ × Option RunStatus) :=
  (boundaries thread log).getLast?

theorem lastBoundary_append (thread : ℕ) (log log' : List (ℕ × Note)) :
    lastBoundary thread (log ++ log') =
      (lastBoundary thread log').or (lastBoundary thread log) := by
  rw [lastBoundary, boundaries_append, List.getLast?_append]
  rfl

theorem lastBoundary_eq_none {thread : ℕ} {log : List (ℕ × Note)} :
    lastBoundary thread log = none ↔ ∀ runId status, (thread, .boundary runId status) ∉ log := by
  rw [lastBoundary, List.getLast?_eq_none_iff, List.eq_nil_iff_forall_not_mem]
  exact ⟨fun h runId status hm => h _ (mem_boundaries.mpr hm),
    fun h b hb => h b.1 b.2 (mem_boundaries.mp hb)⟩

theorem mem_of_lastBoundary {thread runId : ℕ} {status : Option RunStatus}
    {log : List (ℕ × Note)} (h : lastBoundary thread log = some (runId, status)) :
    (thread, .boundary runId status) ∈ log :=
  mem_boundaries.mp (List.mem_of_getLast? h)

/-- Every executor was started in a wave of its run at whose boundary the row was not
cancelled. -/
def Guarded (log : List (ℕ × Note)) : Prop :=
  ∀ before after thread runId nodeId deviceIds,
    log = before ++ (thread, .invoked runId nodeId deviceIds) :: after →
    ∃ status, lastBoundary thread before = some (runId, status) ∧ status ≠ some .cancelled

theorem Guarded.append {log : List (ℕ × Note)} {thread : ℕ} {n : Note} (h : Guarded log)
    (hn : ∀ runId nodeId deviceIds, n = .invoked runId nodeId deviceIds →
      ∃ status, lastBoundary thread log = some (runId, status) ∧ status ≠ some .cancelled) :
    Guarded (log ++ [(thread, n)]) := by
  intro before after i runId nodeId deviceIds he
  rcases List.eq_nil_or_concat after with rfl | ⟨after, last, rfl⟩
  · obtain ⟨rfl, hlast⟩ := List.append_inj' he rfl
    cases hlast
    exact hn _ _ _ rfl
  · rw [List.concat_eq_append, ← List.cons_append, ← List.append_assoc] at he
    exact h _ _ _ _ _ _ (List.append_inj' he rfl).1

end Log

section Moves

def WaveNote (w : World) (g : Option (ℕ × Option RunStatus)) :
    Note → Option (ℕ × Option RunStatus) → Prop
  | .boundary runId status, g' =>
    status = (w.runs runId).map RunRow.status ∧ g' = some (runId, status)
  | .invoked runId _ _, g' =>
    (∃ status, g = some (runId, status) ∧ status ≠ some .cancelled) ∧ g' = g
  | _, g' => g' = g

def waveMoves : Prog.Move World (Option (ℕ × Option RunStatus)) := fun i g w g' w' =>
  (w'.log = w.log ∧ g' = g) ∨ ∃ n, w'.log = w.log ++ [(i, n)] ∧ WaveNote w g n g'

/-- A step that opens no wave and starts executors only of the runs that `starts` allows. -/
def QuietStep (starts : ℕ → Prop) (i : ℕ) (w w' : World) : Prop :=
  w'.log = w.log ∨ ∃ n, w'.log = w.log ++ [(i, n)] ∧ match n with
    | .boundary _ _ => False
    | .invoked runId _ _ => starts runId
    | _ => True

theorem QuietStep.wave {starts : ℕ → Prop} {i : ℕ} {w w' : World}
    {g : Option (ℕ × Option RunStatus)} (h : QuietStep starts i w w')
    (hg : ∀ runId, starts runId → ∃ status, g = some (runId, status) ∧ status ≠ some .cancelled) :
    waveMoves i g w g w' := by
  rcases h with h | ⟨n, h, hn⟩
  · exact .inl ⟨h, rfl⟩
  · refine .inr ⟨n, h, ?_⟩
    cases n with
    | boundary runId status => exact hn.elim
    | invoked runId nodeId deviceIds => exact ⟨hg runId hn, rfl⟩
    | claimed runId => rfl
    | loaded runId phase canvas => rfl

end Moves

section Quiet

variable {starts : ℕ → Prop}

abbrev Quiet (starts : ℕ → Prop) (α : Type) (p : Run ω α) : Prop :=
  p.Always (fun _ => True) (QuietStep starts)

theorem quiet_closed : Closed (m := Run ω) (Quiet starts) := ⟨.pure, .bind⟩

theorem transition_log (w : World) (runId : ℕ) (toStatus : RunStatus)
    (fromStatuses : Option (List RunStatus)) (fields : RunFields) :
    (w.transition runId toStatus fromStatuses fields).2.log = w.log := by
  rcases w.transition_cases runId toStatus fromStatuses fields with h | ⟨row, -, -, h⟩ <;> rw [h]
  rfl

theorem quiet_lifecycle : StartOps (ω := ω) (Quiet starts) where
  closed := quiet_closed
  get _ _ := .get fun _ _ => .inl rfl
  answer _ := .lift fun t w x w' _ h => by cases h; exact .inl rfl
  cancel _ := .update fun _ w _ => .inl (transition_log w _ _ _ _)
  transitionRun _ _ _ _ := .update fun _ w _ => .inl (transition_log w _ _ _ _)
  annotateCancelled _ _ := .update fun _ w _ => .inl (transition_log w _ _ _ _)
  finaliseOpenStepResults _ := .update fun _ _ _ => .inl rfl
  createRun _ _ _ _ _ := .update fun _ _ _ => by
    split <;> exact .inl rfl
  endStart _ := .update fun _ _ _ => .inl rfl
  recheckParent parentRunId runId := .update fun _ w _ => by
    rcases w.recheck_cases parentRunId runId with h | h <;> rw [h] <;> exact .inl rfl
  submit _ := .lift fun t w x w' _ h => by
    cases h
    split <;> exact .inl rfl
  recordHatchetRunId runId _ := .update fun _ w _ => by
    dsimp only
    split <;> exact .inl rfl
  pushBatchEvent _ _ := .lift fun t w x w' _ h => by
    cases h
    split <;> exact .inl rfl

theorem quiet_updateStepResult (runId : ℕ) (nodeId : String) (status : StepStatus) :
    Quiet starts _ (updateStepResult (ω := ω) runId nodeId status) :=
  .update fun _ _ _ => .inl rfl

theorem quiet_loadWorkflow (runId workflowId : ℕ) (phase : Phase) :
    Quiet starts _ (loadWorkflow (ω := ω) runId workflowId phase) := by
  refine .lift fun t w x w' _ h => ?_
  split at h
  · cases h
    exact .inl rfl
  · cases h
    exact .inr ⟨_, rfl, trivial⟩

theorem quiet_prepare (runId : ℕ) : Quiet starts _ (prepare (ω := ω) runId) := by
  refine .lift fun t w x w' _ h => ?_
  have hw' : (w.claim t.thread runId).2 = w' := congrArg Prod.snd (Option.some.inj h)
  rw [← hw']
  rcases w.transition_cases runId .running (some [.pending]) {} with h | ⟨row, -, -, h⟩
  · exact .inl (by simp [World.claim, h])
  · exact .inr ⟨.claimed runId, by simp [World.claim, h, World.note, World.setRun], trivial⟩

theorem quiet_waitForEvent (uuid : String) (batchIndex : ℕ) :
    Quiet starts _ (waitForEvent (ω := ω) uuid batchIndex) := by
  refine .lift fun t w x w' _ h => ?_
  split at h
  · cases h
    exact .inl rfl
  · cases h

theorem quiet_runGroups (runId : ℕ) (signal : FanOutSignal) (groups : List (List String))
    (offset : ℕ) : Quiet starts _ (runGroups (ω := ω) runId signal groups offset) := by
  refine .gather fun p hp => ?_
  obtain ⟨input, -, rfl⟩ := List.mem_map.mp hp
  refine .bind (.update fun _ _ _ => .inl rfl) fun index => .lift fun t w x w' _ h => ?_
  split at h
  · obtain ⟨r, -, he⟩ := Option.map_eq_some_iff.mp h
    cases he
    exact .inl rfl
  · cases h
    exact .inl rfl

theorem quiet_nodes (d : Deployment ω) (runId : ℕ) :
    (workerRunner d runId).NodesKeep (Quiet fun id => id = runId) where
  executors stepType executor hx config ctx run nodeId := by
    obtain ⟨behave, -, rfl⟩ := Option.map_eq_some_iff.mp hx
    refine .bind (.lift fun t w x w' _ h => ?_) fun _ => quiet_lifecycle.answer _
    cases h
    exact .inr ⟨_, rfl, rfl⟩
  persistStepResult := quiet_updateStepResult runId

end Quiet

section Walks

variable (d : Deployment ω) (runId : ℕ) {run : RunInfo} {edges : List CanvasEdge}

abbrev KeepsWaves (α : Type) (p : Run ω α) : Prop :=
  ∀ g, p.Spec (fun _ => True) waveMoves g fun _ _ => True

theorem keepsWaves_closed : Closed (m := Run ω) KeepsWaves where
  pure _ _ := trivial
  bind hp hk g := (hp g).bind fun a g' _ => hk a g'

theorem Quiet.keepsWaves {α : Type} {p : Run ω α} (h : Quiet (fun _ => False) α p) :
    KeepsWaves α p :=
  fun _ => (h.spec fun _ _ _ _ hq => hq.wave fun _ hf => hf.elim).imp fun _ _ _ => trivial

theorem gather_wave {α : Type} {l : List (Run ω α)} {status : Option RunStatus}
    (hl : ∀ p ∈ l, Quiet (fun id => id = runId) α p) (hs : status ≠ some .cancelled) :
    (Prog.gather l).Spec (fun _ => True) waveMoves (some (runId, status)) fun _ _ => True :=
  ((Prog.Always.gather hl).spec fun _ _ _ _ hq => hq.wave fun _ he =>
    ⟨status, by rw [he], hs⟩).imp fun _ _ _ => trivial

theorem stopRequested_wave (st : WalkState) (g : Option (ℕ × Option RunStatus)) :
    (stopRequested (workerRunner d runId) st).Spec (fun _ => True) waveMoves g fun stop g' =>
      stop = false → ∃ status, g' = some (runId, status) ∧ status ≠ some .cancelled := by
  unfold stopRequested
  split
  · intro h
    cases h
  · intro t w x w' _ h
    cases h
    refine ⟨some (runId, (w.runs runId).map RunRow.status), .inr ⟨_, rfl, rfl, rfl⟩, ?_⟩
    intro hstop
    exact ⟨_, rfl, by simpa using hstop⟩

theorem walkWaves_waves {β : Type} (handOver : WalkState → List CanvasNode → Option β)
    (waves : List (List CanvasNode)) (st : WalkState) :
    KeepsWaves _ (walkWaves (workerRunner d runId) run edges handOver waves st) := by
  induction waves generalizing st with
  | nil => exact keepsWaves_closed.pure _
  | cons wave waves ih =>
    intro g
    refine (stopRequested_wave d runId st g).bind fun stop g' hgo => ?_
    cases stop with
    | true =>
      have hskip : Quiet (fun _ => False) _ (skipWave (workerRunner d runId) wave) :=
        quiet_closed.skipWave (quiet_updateStepResult runId) wave
      exact (hskip.keepsWaves g').bind fun _ g'' _ => ih _ g''
    | false =>
      obtain ⟨status, rfl, hs⟩ := hgo rfl
      have hwave : (runWave (workerRunner d runId) run edges st wave).Spec (fun _ => True)
          waveMoves (some (runId, status)) fun _ _ => True := by
        refine (gather_wave runId (fun p hp => ?_) hs).bind fun _ _ _ => trivial
        obtain ⟨node, -, rfl⟩ := List.mem_map.mp hp
        exact (quiet_nodes d runId).runNodeInSequence quiet_closed st node
      refine hwave.bind fun st' g'' _ => ?_
      split
      · exact ih _ g''
      · split
        · trivial
        · exact ih _ g''

theorem walkChild_waves (initialContext : WorkflowContext) (waves : List (List CanvasNode))
    (st : WalkState) :
    KeepsWaves _ (walkChild (workerRunner d runId) run edges initialContext waves st) := by
  induction waves generalizing st with
  | nil => exact keepsWaves_closed.pure _
  | cons wave waves ih =>
    intro g
    refine (stopRequested_wave d runId st g).bind fun stop g' hgo => ?_
    cases stop with
    | true => exact ih _ g'
    | false =>
      obtain ⟨status, rfl, hs⟩ := hgo rfl
      refine (gather_wave runId (fun p hp => ?_) hs).bind fun _ g'' _ => ih _ g''
      obtain ⟨node, -, rfl⟩ := List.mem_map.mp hp
      exact (quiet_nodes d runId).runSubgraphNode quiet_closed st node

theorem walks_waves : (workerRunner d runId).WalksKeep KeepsWaves where
  stepResultNodes := (quiet_lifecycle.get _ fun _ _ => rfl).keepsWaves
  createStepResult node := Quiet.keepsWaves <| .update fun _ w _ => by
    split <;> exact .inl rfl
  walkWaves _ _ handOver waves st := walkWaves_waves d runId handOver waves st
  walkChild _ _ initialContext waves st := walkChild_waves d runId initialContext waves st

theorem tasks_waves : TaskOps d (fun _ => True) KeepsWaves :=
  { quiet_lifecycle.imp keepsWaves_closed Quiet.keepsWaves with
    updateStepResult := fun _ _ _ => (quiet_updateStepResult _ _ _).keepsWaves
    loadWorkflow := fun _ _ _ _ => (quiet_loadWorkflow _ _ _).keepsWaves
    waitForEvent := fun _ _ => (quiet_waitForEvent _ _).keepsWaves
    reportChild := fun _ _ => Quiet.keepsWaves (.update fun _ _ _ => .inl rfl)
    prepare := fun runId => (quiet_prepare runId).keepsWaves
    writeCanvas := fun _ _ => Quiet.keepsWaves (.update fun _ _ _ => .inl rfl)
    executeAll := fun runId _ _ _ => (walks_waves d runId).executeAll keepsWaves_closed _
    resumeAfterJoin := fun runId _ _ _ _ _ =>
      (walks_waves d runId).resumeAfterJoin keepsWaves_closed _ _ _
    runSubgraph := fun runId _ _ _ _ _ _ =>
      (walks_waves d runId).runSubgraph keepsWaves_closed _ _ _ _
    runGroups := fun _ _ _ _ _ => (quiet_runGroups _ _ _ _).keepsWaves }

end Walks

section Runs

def guardedMoves : Prog.Move World (Option (ℕ × Option RunStatus)) := fun i g w g' w' =>
  waveMoves i g w g' w' ∧ StoreStep w w'

structure LoggedStep (i : ℕ) (w w' : World) : Prop where
  store : StoreStep w w'
  log : w'.log = w.log ∨ ∃ n, w'.log = w.log ++ [(i, n)] ∧
    ∀ runId status, n = .boundary runId status → status = (w.runs runId).map RunRow.status

structure WavesOk (gs : ℕ → Option (ℕ × Option RunStatus)) (w : World) : Prop where
  runs : RunsOk w
  inWave : ∀ i, gs i = lastBoundary i w.log
  guarded : Guarded w.log

theorem WavesOk.move {gs : ℕ → Option (ℕ × Option RunStatus)} {w w' : World} {i : ℕ}
    {g' : Option (ℕ × Option RunStatus)} (h : WavesOk gs w) (hm : guardedMoves i (gs i) w g' w') :
    WavesOk (Function.update gs i g') w' ∧ LoggedStep i w w' := by
  obtain ⟨hwave, hstore⟩ := hm
  rcases hwave with ⟨hlog, rfl⟩ | ⟨n, hlog, hn⟩
  · refine ⟨⟨hstore.runsOk h.runs, ?_, hlog ▸ h.guarded⟩, hstore, .inl hlog⟩
    rw [Function.update_eq_self, hlog]
    exact h.inWave
  · have hself : ∀ j, j ≠ i → lastBoundary j (w.log ++ [(i, n)]) = lastBoundary j w.log := by
      intro j hj
      rw [lastBoundary_append, lastBoundary_eq_none.mpr fun r s hmem => ?_, Option.none_or]
      exact hj (congrArg Prod.fst (List.mem_singleton.mp hmem))
    have hquiet : (∀ r s, n ≠ .boundary r s) → g' = gs i →
        g' = lastBoundary i (w.log ++ [(i, n)]) := by
      intro hne hg
      rw [hg, lastBoundary_append, lastBoundary_eq_none.mpr fun r s hmem => ?_, Option.none_or]
      · exact h.inWave i
      · exact hne r s (congrArg Prod.snd (List.mem_singleton.mp hmem)).symm
    have hg' : g' = lastBoundary i (w.log ++ [(i, n)]) := by
      cases n with
      | boundary runId status =>
        rw [hn.2, lastBoundary_append]
        simp [lastBoundary, boundaries]
      | invoked runId nodeId deviceIds => exact hquiet (fun _ _ => Note.noConfusion) hn.2
      | claimed runId => exact hquiet (fun _ _ => Note.noConfusion) hn
      | loaded runId phase canvas => exact hquiet (fun _ _ => Note.noConfusion) hn
    refine ⟨⟨hstore.runsOk h.runs, fun j => ?_, ?_⟩, hstore, .inr ⟨n, hlog, ?_⟩⟩
    · rw [hlog]
      by_cases hj : j = i
      · subst hj
        rw [Function.update_self, hg']
      · rw [Function.update_of_ne hj, hself j hj]
        exact h.inWave j
    · rw [hlog]
      refine h.guarded.append ?_
      rintro runId nodeId deviceIds rfl
      obtain ⟨⟨status, hg, hs⟩, -⟩ := hn
      exact ⟨status, (h.inWave i).symm.trans hg, hs⟩
    · rintro runId status rfl
      exact hn.1

theorem start_log {d : Deployment ω} {what : Launch} {w w' : World}
    {task : Task (Answer ω) World} (h : (runSystem d).start what w = some (task, w')) :
    w'.log = w.log := by
  cases what with
  | deviceGroup index =>
    obtain ⟨queued, -, he⟩ := Option.map_eq_some_iff.mp h
    cases he
    rfl
  | prepare runId =>
    simp only [runSystem] at h
    split at h <;> cases h
    rfl
  | executeSteps runId =>
    simp only [runSystem] at h
    split at h <;> cases h
    rfl
  | failRun runId =>
    simp only [runSystem] at h
    split at h <;> cases h
    rfl
  | _ =>
    cases h
    rfl

theorem waves_sound (d : Deployment ω) {K : World → Prop}
    {Allowed : Event Launch (Answer ω) → World → World → Prop}
    (hK : ∀ e i w w', K w → Allowed e w w' → LoggedStep i w w' → K w') :
    (runSystem d).Sound FreshIds guardedMoves (fun gs w => WavesOk gs w ∧ K w) Allowed where
  inv _ _ h := h.1.runs.fresh
  move gs w t g' w' h ha hm := by
    obtain ⟨hok, hstep⟩ := h.1.move hm
    exact ⟨hok, hK _ _ _ _ h.2 ha hstep⟩
  launch gs w i what task w' h ha hs := by
    have hcovered := Launch.covered_of_all (fun _ => trivial) w what
    have hstores := stepOps_storeStep.tasks d
    have hlog := start_log hs
    have hstore := start_step hs
    refine ⟨gs i, ⟨?_, fun p hp g _ => ?_⟩, ?_, hK _ i _ _ h.2 ha ⟨hstore, .inl hlog⟩⟩
    · exact (((tasks_waves d).start hs hcovered _).mono (fun _ _ => trivial)
        fun _ _ _ _ _ _ hm => hm).and (hstores.start hs hcovered)
    · exact (((tasks_waves d).handlers hs p hp g).mono (fun _ _ => trivial)
        fun _ _ _ _ _ _ hm => hm).and (hstores.handlers hs p hp)
    · rw [Function.update_eq_self]
      exact ⟨hstore.runsOk h.1.runs, hlog ▸ h.1.inWave, hlog ▸ h.1.guarded⟩

/-- Between `w` and `w'` executors of a run were started only in waves that had begun before
`w`. -/
def NoLaterWave (runId : ℕ) (w w' : World) : Prop :=
  ∃ later, w'.log = w.log ++ later ∧ ∀ before after thread nodeId deviceIds,
    later = before ++ (thread, .invoked runId nodeId deviceIds) :: after →
    (∃ status, (thread, .boundary runId status) ∈ w.log) ∧
      ∀ runId status, (thread, .boundary runId status) ∉ before

/-- No walk of the run reaches a wave boundary while the row of the run is failed. -/
def NoFailedBoundary (runId : ℕ) (_ : Event Launch (Answer ω)) (w w' : World) : Prop :=
  (w.runs runId).map RunRow.status = some .failed →
    ∀ i status, w'.log ≠ w.log ++ [(i, .boundary runId status)]

/-- The walks that reach a wave boundary after `w` find the run cancelled. -/
def FoundCancelled (runId : ℕ) (w w' : World) : Prop :=
  ∃ later, w'.log = w.log ++ later ∧
    ∀ i status, (i, .boundary runId status) ∈ later → status = some .cancelled

theorem FoundCancelled.step {runId i : ℕ} {w w₁ w₂ : World} {row : RunRow}
    {e : Event Launch (Answer ω)} (h : FoundCancelled runId w w₁) (hs : Settles w w₁)
    (hrow : w.runs runId = some row) (hover : row.status = .cancelled ∨ row.status = .failed)
    (ha : NoFailedBoundary runId e w₁ w₂) (hstep : LoggedStep i w₁ w₂) :
    FoundCancelled runId w w₂ := by
  obtain ⟨later, hlater, hfound⟩ := h
  rcases hstep.log with hlog | ⟨n, hlog, hn⟩
  · exact ⟨later, hlog.trans hlater, hfound⟩
  · refine ⟨later ++ [(i, n)], by rw [hlog, hlater, List.append_assoc], fun j status hmem => ?_⟩
    rcases List.mem_append.mp hmem with hmem | hmem
    · exact hfound j status hmem
    · obtain ⟨rfl, rfl⟩ := Prod.mk.inj (List.mem_singleton.mp hmem)
      obtain ⟨row₁, hrow₁, hstatus⟩ := hs runId row hrow (by
        rcases hover with h | h <;> rw [h] <;> decide)
      have hread := hn runId status rfl
      rw [hrow₁, Option.map_some, hstatus] at hread
      rcases hover with hc | hf
      · rw [hread, hc]
      · refine absurd hlog (ha ?_ j status)
        rw [hrow₁, Option.map_some, hstatus, hf]

/-- In every run of the system: from the moment a run is cancelled or failed, no executor of a
later wave of it is started, as long as no walk reaches a wave boundary while the row says
failed. -/
theorem over_run_stops (d : Deployment ω) {canvases : ℕ → Option Canvas}
    {before after : List (Event Launch (Answer ω))} {c c' : Config (Answer ω) World}
    (h : (runSystem d).exec (.idle { canvases }) before = some c)
    (h' : (runSystem d).exec c after = some c') {runId : ℕ} {row : RunRow}
    (hrow : c.state.runs runId = some row)
    (hover : row.status = .cancelled ∨ row.status = .failed)
    (ha : (runSystem d).AllowedRun (NoFailedBoundary runId) c after) :
    NoLaterWave runId c.state c'.state := by
  have hstart : WavesOk (fun _ => none) { canvases } := by
    refine ⟨runsOk_start canvases, fun _ => rfl, ?_⟩
    intro before after _ _ _ _ he
    cases before <;> cases he
  have hidle : Config.Ok (ω := Answer ω) FreshIds guardedMoves (fun gs w => WavesOk gs w ∧ True)
      (.idle { canvases }) fun _ => none := .idle ⟨hstart, trivial⟩
  obtain ⟨gs, hc⟩ := (waves_sound d fun _ _ _ _ _ _ _ => trivial).exec hidle h (allowedRun_true _)
  -- from here on the log is measured against the state in which the run was over
  have hreached : c.Ok FreshIds guardedMoves
      (fun gs w => WavesOk gs w ∧ Settles c.state w ∧ FoundCancelled runId c.state w) gs :=
    ⟨hc.tasks, hc.state.1, fun id row hrow _ => ⟨row, hrow, rfl⟩, [], by simp, by simp⟩
  obtain ⟨gs', hc'⟩ := (waves_sound d (K := fun w => Settles c.state w ∧
    FoundCancelled runId c.state w) fun e i w w' hw ha hstep =>
      ⟨hw.1.step hstep.store, hw.2.step hw.1 hrow hover ha hstep⟩).exec hreached h' ha
  obtain ⟨hok, -, later, hlater, hfound⟩ := hc'.state
  refine ⟨later, hlater, fun before after thread nodeId deviceIds he => ?_⟩
  obtain ⟨status, hlast, hopen⟩ := hok.guarded (c.state.log ++ before) after thread runId nodeId
    deviceIds (by rw [hlater, he, List.append_assoc])
  have hnone : lastBoundary thread before = none := by
    rw [lastBoundary_append] at hlast
    cases hb : lastBoundary thread before with
    | none => rfl
    | some b =>
      rw [hb, Option.some_or] at hlast
      cases hlast
      refine absurd (hfound thread status ?_) hopen
      rw [he]
      exact List.mem_append_left _ (mem_of_lastBoundary hb)
  rw [lastBoundary_append, hnone, Option.none_or] at hlast
  exact ⟨⟨status, mem_of_lastBoundary hlast⟩, lastBoundary_eq_none.mp hnone⟩

end Runs

section Examples

def listThenRun : Canvas where
  nodes := [⟨"I", { kind := some "get-from-list" }⟩, ⟨"X", { kind := some "run-command" }⟩]
  edges := [{ source := "I", target := "X" }]

def deliveredAgain : List (Event Launch (Answer Unit)) :=
  firstWave ++ .launch 3 (.executeSteps 0) :: steps 3 4

def cancelledOnTheWay : List (Event Launch (Answer Unit)) :=
  firstWave ++ .launch 3 (.cancelRun 0) :: steps 3 4

def opensWave (runId : ℕ) : List (ℕ × Note) → Bool
  | [(i, .boundary id _), (j, .invoked id' _ _)] => i == j && id == runId && id' == runId
  | _ => false

theorem opensWave_iff {runId : ℕ} {log : List (ℕ × Note)} (h : opensWave runId log = true) :
    ∃ i status nodeId deviceIds, log =
      [(i, .boundary runId status), (i, .invoked runId nodeId deviceIds)] := by
  unfold opensWave at h
  split at h
  · simp only [Bool.and_eq_true, beq_iff_eq] at h
    obtain ⟨⟨rfl, rfl⟩, rfl⟩ := h
    exact ⟨_, _, _, _, rfl⟩
  · cases h

/-- The walk of a run that is failed goes on with its next wave. -/
theorem failedRun_walks_on :
    ∃ c c' row, (runSystem demoDeployment).exec (.idle (storing listThenRun)) deliveredAgain =
        some c ∧
      (runSystem demoDeployment).exec c (steps 2 3) = some c' ∧
      c.state.runs 0 = some row ∧ row.status = .failed ∧ ¬ NoLaterWave 0 c.state c'.state := by
  have hlog : (((runSystem demoDeployment).exec (.idle (storing listThenRun))
      deliveredAgain).bind fun c => ((runSystem demoDeployment).exec c (steps 2 3)).map fun c' =>
        opensWave 0 (c'.state.log.drop c.state.log.length)) = some true := by decide +kernel
  have hstatus : (((runSystem demoDeployment).exec (.idle (storing listThenRun))
      deliveredAgain).bind fun c => (c.state.runs 0).map RunRow.status) = some .failed := by
    decide +kernel
  obtain ⟨c, hc, hlog⟩ := Option.bind_eq_some_iff.mp hlog
  obtain ⟨c', hc', hlog⟩ := Option.map_eq_some_iff.mp hlog
  rw [hc, Option.bind_some] at hstatus
  obtain ⟨row, hrow, hstatus⟩ := Option.map_eq_some_iff.mp hstatus
  refine ⟨c, c', row, hc, hc', hrow, hstatus, ?_⟩
  rintro ⟨later, hlater, h⟩
  rw [hlater, List.drop_left] at hlog
  obtain ⟨i, status, nodeId, deviceIds, rfl⟩ := opensWave_iff hlog
  exact (h [(i, .boundary 0 status)] [] i nodeId deviceIds rfl).2 0 status List.mem_cons_self

/-- The walk of a run that is cancelled stops before its next wave. -/
theorem cancelledRun_stops :
    ∃ c c' row, (runSystem demoDeployment).exec (.idle (storing listThenRun)) cancelledOnTheWay =
        some c ∧
      (runSystem demoDeployment).exec c (steps 2 2) = some c' ∧
      c.state.runs 0 = some row ∧ row.status = .cancelled ∧ NoLaterWave 0 c.state c'.state := by
  have hrun : (((runSystem demoDeployment).exec (.idle (storing listThenRun))
      cancelledOnTheWay).bind fun c =>
        (runSystem demoDeployment).exec c (steps 2 2)).isSome = true := by decide +kernel
  have hstatus : (((runSystem demoDeployment).exec (.idle (storing listThenRun))
      cancelledOnTheWay).bind fun c => (c.state.runs 0).map RunRow.status) =
        some .cancelled := by decide +kernel
  have hcheck : ((runSystem demoDeployment).exec (.idle (storing listThenRun))
      cancelledOnTheWay).all (fun c => (runSystem demoDeployment).checkRun (fun _ w _ =>
        (w.runs 0).map RunRow.status != some .failed) c (steps 2 2)) = true := by decide +kernel
  obtain ⟨c', hc'⟩ := Option.isSome_iff_exists.mp hrun
  obtain ⟨c, hc, hc'⟩ := Option.bind_eq_some_iff.mp hc'
  rw [hc, Option.bind_some] at hstatus
  rw [hc, Option.all_some] at hcheck
  obtain ⟨row, hrow, hstatus⟩ := Option.map_eq_some_iff.mp hstatus
  refine ⟨c, c', row, hc, hc', hrow, hstatus, over_run_stops demoDeployment hc hc' hrow
    (.inl hstatus) (System.allowedRun_of_check (fun e w w' ht hf => ?_) hcheck)⟩
  rw [hf] at ht
  exact absurd ht (by decide)

end Examples

end Manus
