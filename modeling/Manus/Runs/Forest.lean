import Manus.Lib.Stable
import Manus.Runs.StatusMachine

/-! # The forest of runs

A step of a run may start a run of another workflow, and finished runs may be
deleted, which clears the links of the runs they started. What every commit can
do to the rows of this forest is said once. The workflows above a run are stored
with it, so that no chain of runs can come back to a workflow or grow too long.
-/

namespace Manus

variable {ω : Type}

section Deletion

/-- Delete the rows of some runs with their step rows; the runs they started lose the link. -/
def World.deleteRuns (w : World) (ids : List ℕ) : World :=
  { w with
    runs := fun id => if id ∈ ids then none else (w.runs id).map fun row =>
      { row with parentRunId := row.parentRunId.filter (· ∉ ids) }
    steps := fun id => if id ∈ ids then [] else w.steps id }

def deleteRuns (ids : List ℕ) : Run ω Unit := .update fun w => ((), w.deleteRuns ids)

def deleteRun (runId : ℕ) : Run ω Unit := do
  match ← getRun runId with
  | none => return
  | some row => if row.status ∉ terminalRunStatuses then return else deleteRuns [runId]

def purgeBatchSize : ℕ := 500

def finishedRunsOlder (older : List ℕ) : Run ω (List ℕ) :=
  .get fun w => ((List.range w.nextRunId).filter fun id =>
    decide (id ∈ older) && (w.runs id).any fun row => row.status ∈ terminalRunStatuses).take
      purgeBatchSize

/-- Delete the finished runs created before the cutoff, batch by batch. Every batch that is not
empty removes a run, so as many batches as there are older runs are enough. -/
def purgeBatches (older : List ℕ) : ℕ → Run ω Unit
  | 0 => return
  | fuel + 1 => do
    let ids ← finishedRunsOlder older
    if ids.isEmpty then return
    else do
      deleteRuns ids
      purgeBatches older fuel

def purgeFinishedRunsOlderThan (older : List ℕ) : Run ω Unit := purgeBatches older older.length

end Deletion

section System

inductive ForestLaunch where
  | run (what : Launch)
  | deleteRun (runId : ℕ)
  | purgeFinishedRuns (older : List ℕ)

def returnCancel (runId : ℕ) : Run ω Unit :=
  .update fun w => ((), { w with cancelReturned := runId :: w.cancelReturned })

def forestSystem (d : Deployment ω) : System ForestLaunch (Answer ω) World where
  start
    | .run (.triggerRun new), w => some (⟨do
        let _ ← createAndDispatchRun { new with parentRunId := none, ancestorWorkflowIds := [] },
        []⟩, w)
    | .run (.cancelRun runId), w => some (⟨do
        if ← Manus.cancelRun runId then returnCancel runId, []⟩, w)
    | .run what, w => (runSystem d).start what w
    | .deleteRun runId, w => some (⟨Manus.deleteRun runId, []⟩, w)
    | .purgeFinishedRuns older, w => some (⟨purgeFinishedRunsOlderThan older, []⟩, w)

theorem forestSystem_run {d : Deployment ω} {what : Launch} {w : World}
    (hn : what.startsRun = false) (hc : ∀ runId, what ≠ .cancelRun runId) :
    (forestSystem d).start (.run what) w = (runSystem d).start what w := by
  cases what with
  | cancelRun runId => exact absurd rfl (hc runId)
  | triggerRun new => cases hn
  | _ => rfl

end System

section Steps

def World.Active (w : World) (id : ℕ) : Prop :=
  ∃ row, w.runs id = some row ∧ row.status ∈ activeRunStatuses

inductive RowMoved : Option RunRow → Option RunRow → Prop
  | missing : RowMoved none none
  | moved {row row' : RunRow} (hworkflow : row'.workflowId = row.workflowId)
      (hancestors : row'.ancestorWorkflowIds = row.ancestorWorkflowIds)
      (hparent : row'.parentRunId = row.parentRunId)
      (hsticky : row.status ∉ activeRunStatuses → row'.status = row.status) :
      RowMoved (some row) (some row')

theorem RowMoved.refl (row : Option RunRow) : RowMoved row row := by
  cases row with
  | none => exact .missing
  | some row => exact .moved rfl rfl rfl fun _ => rfl

/-- The row of a new run: one without a parent, or one that extends the chain of an existing run. -/
structure FirstRow (w : World) (row : RunRow) : Prop where
  pending : row.status = .pending
  root : row.parentRunId = none → row.ancestorWorkflowIds = []
  child : ∀ id, row.parentRunId = some id → ∃ parent, w.runs id = some parent ∧
    row.ancestorWorkflowIds = parent.ancestorWorkflowIds ++ [parent.workflowId] ∧
    row.workflowId ∉ row.ancestorWorkflowIds ∧ row.ancestorWorkflowIds.length ≤ maxChildRunDepth

structure MovesRows (w w' : World) : Prop where
  rows : ∀ id, RowMoved (w.runs id) (w'.runs id)
  nextRunId : w'.nextRunId = w.nextRunId
  created : w'.created = w.created
  starting : w'.starting = w.starting
  cancelReturned : w'.cancelReturned = w.cancelReturned

/-- What a commit may do to the forest of runs. A cancel returns only when `Done` holds of its
run. -/
inductive ForestStep (Done : ℕ → World → Prop) (w w' : World) : Prop
  | moved (h : MovesRows w w')
  | created (row : RunRow) (hrow : FirstRow w row) (hw : w' = w.create row)
  | ended (runId parentRunId : ℕ) (first : RunRow) (hfirst : w.created runId = some first)
      (hparent : first.parentRunId = some parentRunId)
      (hwhy : w.runs parentRunId = none ∨ w.Active parentRunId ∨ ¬ w.Active runId)
      (hw : w' = w.endStart runId)
  | deleted (ids : List ℕ) (hover : ∀ id ∈ ids, ¬ w.Active id) (hw : w' = w.deleteRuns ids)
  | returned (runId : ℕ) (hdone : Done runId w)
      (hw : w' = { w with cancelReturned := runId :: w.cancelReturned })

variable {Done : ℕ → World → Prop} {I : World → Prop}

theorem MovesRows.of_runs {w w' : World} (hr : w'.runs = w.runs) (hn : w'.nextRunId = w.nextRunId)
    (hc : w'.created = w.created) (hs : w'.starting = w.starting)
    (hd : w'.cancelReturned = w.cancelReturned) : MovesRows w w' :=
  ⟨fun id => by rw [hr]; exact .refl _, hn, hc, hs, hd⟩

theorem MovesRows.refl (w : World) : MovesRows w w := .of_runs rfl rfl rfl rfl rfl

theorem MovesRows.setRun {w : World} {runId : ℕ} {row row' : RunRow}
    (hrow : w.runs runId = some row) (h : RowMoved (some row) (some row')) :
    MovesRows w (w.setRun runId row') := by
  refine ⟨fun id => ?_, rfl, rfl, rfl, rfl⟩
  by_cases he : id = runId
  · subst he
    simpa only [World.setRun, Function.update_self, hrow] using h
  · simpa only [World.setRun, Function.update_of_ne he] using .refl _

theorem RunRow.move_status (row : RunRow) (toStatus : RunStatus) (fields : RunFields) :
    (row.move toStatus fields).status = toStatus := by
  unfold RunRow.move
  dsimp only
  split <;> rfl

theorem RunRow.move_moved {row : RunRow} {toStatus : RunStatus} {fields : RunFields}
    (h : row.status ∉ activeRunStatuses → toStatus = row.status) :
    RowMoved (some row) (some (row.move toStatus fields)) := by
  refine .moved ?_ ?_ ?_ fun hs => (row.move_status toStatus fields).trans (h hs)
  all_goals
    unfold RunRow.move
    dsimp only
    split <;> rfl

theorem active_of_not_terminal {status : RunStatus} (h : status ∉ terminalRunStatuses) :
    status ∈ activeRunStatuses := by
  revert h
  cases status <;> decide

theorem transition_movesRows (w : World) (runId : ℕ) {toStatus : RunStatus}
    {fromStatuses : Option (List RunStatus)} (fields : RunFields)
    (h : ∀ statuses, fromStatuses = some statuses →
      ∀ s ∈ statuses, s ∉ activeRunStatuses → toStatus = s) :
    MovesRows w (w.transition runId toStatus fromStatuses fields).2 := by
  rcases w.transition_cases runId toStatus fromStatuses fields with ht | ⟨row, hrow, hmay, ht⟩
  · rw [ht]
    exact .refl w
  · rw [ht]
    refine .setRun hrow (RunRow.move_moved fun hover => ?_)
    cases fromStatuses with
    | none => exact absurd (active_of_not_terminal (of_decide_eq_true hmay)) hover
    | some statuses => exact h statuses rfl row.status (of_decide_eq_true hmay) hover

theorem claim_movesRows (w : World) (thread runId : ℕ) :
    MovesRows w (w.claim thread runId).2 := by
  have h : MovesRows w (w.transition runId .running (some [.pending]) {}).2 :=
    transition_movesRows w runId {} fun statuses hs => by
      cases hs
      decide
  unfold World.claim
  dsimp only
  split
  · exact ⟨h.rows, h.nextRunId, h.created, h.starting, h.cancelReturned⟩
  · exact h

theorem always_movesRows {α : Type} {f : Action (Answer ω) World α}
    (h : ∀ t w x w', f t w = some (x, w') → MovesRows w w') :
    (Prog.lift f).Always I fun _ => ForestStep Done :=
  .lift fun t w x w' _ hf => .moved (h t w x w' hf)

theorem reportChild_forest (index : ℕ) (result : Except String ChildResult) :
    (reportChild (ω := ω) index result).Always I fun _ => ForestStep Done :=
  .update fun _ _ _ => .moved (.of_runs rfl rfl rfl rfl rfl)

/-- Every operation but those that start runs moves rows at most. -/
theorem walkOps_forest :
    WalkOps (ω := ω) (fun _ => True) fun _ p => p.Always I fun _ => ForestStep Done where
  closed := ⟨.pure, .bind⟩
  gather _ := .gather
  get _ _ := .get fun _ w => .moved (.refl w)
  answer f := always_movesRows fun t w x w' h => by cases h; exact .refl w
  cancel _ := .update fun _ w _ => .moved (transition_movesRows w _ _ fun _ h => by cases h)
  transitionRun _ _ _ _ := .update fun _ w _ =>
    .moved (transition_movesRows w _ _ fun _ h => by cases h)
  annotateCancelled _ _ := .update fun _ w _ =>
    .moved (transition_movesRows w _ _ fun statuses hs => by cases hs; decide)
  finaliseOpenStepResults _ := .update fun _ w _ => .moved (.of_runs rfl rfl rfl rfl rfl)
  submit _ := always_movesRows fun t w x w' h => by
    cases h
    split <;> exact .of_runs rfl rfl rfl rfl rfl
  recordHatchetRunId runId _ := .update fun _ w _ => by
    dsimp only
    split
    · exact .moved (.refl w)
    · rename_i row hrow
      exact .moved (.setRun hrow (.moved rfl rfl rfl fun _ => rfl))
  pushBatchEvent _ _ := always_movesRows fun t w x w' h => by
    cases h
    split <;> exact .of_runs rfl rfl rfl rfl rfl
  createStepResult _ _ := .update fun _ w _ => by
    split <;> exact .moved (.of_runs rfl rfl rfl rfl rfl)
  updateStepResult _ _ _ := .update fun _ w _ => .moved (.of_runs rfl rfl rfl rfl rfl)
  loadWorkflow _ _ _ _ := always_movesRows fun t w x w' h => by
    split at h <;> cases h <;> exact .of_runs rfl rfl rfl rfl rfl
  cancelRequested _ := always_movesRows fun t w x w' h => by
    cases h
    exact .of_runs rfl rfl rfl rfl rfl
  invoke _ _ _ _ := always_movesRows fun t w x w' h => by
    cases h
    exact .of_runs rfl rfl rfl rfl rfl
  waitForEvent _ _ := always_movesRows fun t w x w' h => by
    split at h <;> cases h
    exact .refl w
  requestChild _ _ := .update fun _ w _ => .moved (.of_runs rfl rfl rfl rfl rfl)
  awaitChild _ := always_movesRows fun t w x w' h => by
    split at h
    · obtain ⟨r, -, he⟩ := Option.map_eq_some_iff.mp h
      cases he
      exact .refl w
    · cases h
      exact .refl w
  failChild _ _ := reportChild_forest _ _
  prepare runId := always_movesRows fun t w x w' h => by
    have hclaim := claim_movesRows w t.thread runId
    rwa [Option.some.inj h] at hclaim
  writeCanvas _ _ := .update fun _ w _ => .moved (.of_runs rfl rfl rfl rfl rfl)

end Steps

section Chains

/-- What the chain of workflows above a run is made of, by the rows as they were created. -/
structure ChainOk (created : ℕ → Option RunRow) (id : ℕ) (first : RunRow) : Prop where
  root : first.parentRunId = none → first.ancestorWorkflowIds = []
  child : ∀ p, first.parentRunId = some p → p < id ∧ ∃ parent, created p = some parent ∧
    first.ancestorWorkflowIds = parent.ancestorWorkflowIds ++ [parent.workflowId]
  nodup : first.ancestorWorkflowIds.Nodup
  own : first.workflowId ∉ first.ancestorWorkflowIds
  depth : first.ancestorWorkflowIds.length ≤ maxChildRunDepth

/-- A row is still the one that was created, as far as the forest goes; its link is cleared when
its parent is gone. -/
structure RowOf (w : World) (first row : RunRow) : Prop where
  workflow : row.workflowId = first.workflowId
  ancestors : row.ancestorWorkflowIds = first.ancestorWorkflowIds
  parent : row.parentRunId = first.parentRunId ∨
    row.parentRunId = none ∧ ∃ p, first.parentRunId = some p ∧ w.runs p = none

structure ForestOk (w : World) : Prop where
  fresh : ∀ id, w.nextRunId ≤ id → w.runs id = none ∧ w.created id = none
  rows : ∀ id row, w.runs id = some row → ∃ first, w.created id = some first ∧ RowOf w first row
  links : ∀ id row p, w.runs id = some row → row.parentRunId = some p →
    ∃ parent, w.runs p = some parent
  chains : ∀ id first, w.created id = some first → ChainOk w.created id first

namespace ForestOk

variable {w w' : World}

theorem lt_of_created (h : ForestOk w) {id : ℕ} {first : RunRow} (hf : w.created id = some first) :
    id < w.nextRunId := by
  by_contra hge
  rw [(h.fresh id (Nat.le_of_not_lt hge)).2] at hf
  cases hf

theorem lt_of_row (h : ForestOk w) {id : ℕ} {row : RunRow} (hr : w.runs id = some row) :
    id < w.nextRunId := by
  obtain ⟨first, hf, -⟩ := h.rows id row hr
  exact h.lt_of_created hf

theorem movesRows (h : ForestOk w) (hm : MovesRows w w') : ForestOk w' := by
  have hback : ∀ id row', w'.runs id = some row' → ∃ row, w.runs id = some row ∧
      RowMoved (some row) (some row') := by
    intro id row' hrow'
    have hmoved := hm.rows id
    rw [hrow'] at hmoved
    cases hrow : w.runs id with
    | none => rw [hrow] at hmoved; cases hmoved
    | some row => exact ⟨row, rfl, hrow ▸ hmoved⟩
  have hnone : ∀ id, w.runs id = none → w'.runs id = none := by
    intro id hid
    have hmoved := hm.rows id
    rw [hid] at hmoved
    cases hrow : w'.runs id with
    | none => rfl
    | some row => rw [hrow] at hmoved; cases hmoved
  constructor
  · intro id hid
    rw [hm.nextRunId] at hid
    exact ⟨hnone id (h.fresh id hid).1, by rw [hm.created]; exact (h.fresh id hid).2⟩
  · intro id row' hrow'
    obtain ⟨row, hrow, hmoved⟩ := hback id row' hrow'
    obtain ⟨first, hf, hof⟩ := h.rows id row hrow
    cases hmoved with
    | moved hworkflow hancestors hparent _ =>
      refine ⟨first, by rw [hm.created]; exact hf, hworkflow.trans hof.workflow,
        hancestors.trans hof.ancestors, ?_⟩
      rw [hparent]
      exact hof.parent.imp_right fun ⟨hcleared, p, hp, hgone⟩ =>
        ⟨hcleared, p, hp, hnone p hgone⟩
  · intro id row' p hrow' hp
    obtain ⟨row, hrow, hmoved⟩ := hback id row' hrow'
    cases hmoved with
    | moved _ _ hparent _ =>
      obtain ⟨parent, hparentRow⟩ := h.links id row p hrow (hparent ▸ hp)
      have hm' := hm.rows p
      rw [hparentRow] at hm'
      cases hr : w'.runs p with
      | none => rw [hr] at hm'; cases hm'
      | some parent' => exact ⟨parent', rfl⟩
  · rw [hm.created]
    exact h.chains

theorem of_same (h : ForestOk w) (hr : w'.runs = w.runs) (hn : w'.nextRunId = w.nextRunId)
    (hc : w'.created = w.created) : ForestOk w' := by
  refine ⟨fun id hid => ?_, fun id row hrow => ?_, fun id row p hrow hp => ?_, ?_⟩
  · rw [hr, hc]
    exact h.fresh id (hn ▸ hid)
  · rw [hr] at hrow
    obtain ⟨first, hf, hof⟩ := h.rows id row hrow
    exact ⟨first, hc ▸ hf, hof.workflow, hof.ancestors, by rw [hr]; exact hof.parent⟩
  · rw [hr] at hrow ⊢
    exact h.links id row p hrow hp
  · rw [hc]
    exact h.chains

theorem create_runs (w : World) (row : RunRow) :
    (w.create row).runs w.nextRunId = some row := by
  simp only [World.create, World.setRun, Function.update_self]

theorem create_runs_of_ne {id : ℕ} (row : RunRow) (h : id ≠ w.nextRunId) :
    (w.create row).runs id = w.runs id := by
  simp only [World.create, World.setRun, Function.update_of_ne h]

theorem create_created (w : World) (row : RunRow) :
    (w.create row).created w.nextRunId = some row := by
  simp only [World.create, Function.update_self]

theorem create_created_of_ne {id : ℕ} (row : RunRow) (h : id ≠ w.nextRunId) :
    (w.create row).created id = w.created id := by
  simp only [World.create, Function.update_of_ne h]

theorem create_created_some (h : ForestOk w) (row : RunRow) {id : ℕ} {first : RunRow}
    (hf : w.created id = some first) : (w.create row).created id = some first := by
  rw [create_created_of_ne row (h.lt_of_created hf).ne]
  exact hf

/-- The chain of a new run extends the one of its parent. -/
theorem chain_create (h : ForestOk w) {row : RunRow} (hrow : FirstRow w row) :
    ChainOk (w.create row).created w.nextRunId row := by
  cases hp : row.parentRunId with
  | none =>
    have hroot := hrow.root hp
    refine ⟨fun _ => hroot, fun p he => ?_, ?_, ?_, ?_⟩
    · rw [hp] at he
      cases he
    all_goals simp [hroot]
  | some p =>
    obtain ⟨parent, hparent, hanc, hown, hdepth⟩ := hrow.child p hp
    obtain ⟨first, hf, hof⟩ := h.rows p parent hparent
    have hchain := h.chains p first hf
    rw [hof.ancestors, hof.workflow] at hanc
    refine ⟨fun he => ?_, fun q hq => ?_, ?_, hown, hdepth⟩
    · rw [hp] at he
      cases he
    · rw [hp] at hq
      cases hq
      exact ⟨h.lt_of_created hf, first, h.create_created_some row hf, hanc⟩
    · rw [hanc, List.nodup_append]
      refine ⟨hchain.nodup, List.nodup_singleton _, fun a ha b hb => ?_⟩
      rintro rfl
      exact hchain.own (List.mem_singleton.mp hb ▸ ha)

theorem create (h : ForestOk w) {row : RunRow} (hrow : FirstRow w row) :
    ForestOk (w.create row) := by
  constructor
  · intro id hid
    have hlt : w.nextRunId < id := hid
    rw [create_runs_of_ne row hlt.ne', create_created_of_ne row hlt.ne']
    exact h.fresh id hlt.le
  · intro id row' hrow'
    by_cases he : id = w.nextRunId
    · subst he
      rw [create_runs] at hrow'
      cases hrow'
      exact ⟨row, create_created w row, rfl, rfl, .inl rfl⟩
    · rw [create_runs_of_ne row he] at hrow'
      obtain ⟨first, hf, hof⟩ := h.rows id row' hrow'
      refine ⟨first, h.create_created_some row hf, hof.workflow, hof.ancestors,
        hof.parent.imp_right fun ⟨hcleared, p, hp, hgone⟩ => ⟨hcleared, p, hp, ?_⟩⟩
      have hlt := ((h.chains id first hf).child p hp).1.trans (h.lt_of_created hf)
      rw [create_runs_of_ne row hlt.ne]
      exact hgone
  · intro id row' p hrow' hp
    have hlink : ∃ parent, w.runs p = some parent := by
      by_cases he : id = w.nextRunId
      · subst he
        rw [create_runs] at hrow'
        cases hrow'
        obtain ⟨parent, hparent, -⟩ := hrow.child p hp
        exact ⟨parent, hparent⟩
      · rw [create_runs_of_ne row he] at hrow'
        exact h.links id row' p hrow' hp
    obtain ⟨parent, hparent⟩ := hlink
    refine ⟨parent, ?_⟩
    rw [create_runs_of_ne row (h.lt_of_row hparent).ne]
    exact hparent
  · intro id first hf
    by_cases he : id = w.nextRunId
    · subst he
      rw [create_created] at hf
      cases hf
      exact h.chain_create hrow
    · rw [create_created_of_ne row he] at hf
      have hchain := h.chains id first hf
      refine ⟨hchain.root, fun p hp => ?_, hchain.nodup, hchain.own, hchain.depth⟩
      obtain ⟨hlt, parent, hparent, hanc⟩ := hchain.child p hp
      exact ⟨hlt, parent, h.create_created_some row hparent, hanc⟩

theorem deleteRuns_row {ids : List ℕ} {id : ℕ} {row' : RunRow}
    (h : (w.deleteRuns ids).runs id = some row') : id ∉ ids ∧ ∃ row, w.runs id = some row ∧
      row' = { row with parentRunId := row.parentRunId.filter (· ∉ ids) } := by
  simp only [World.deleteRuns] at h
  split at h
  · cases h
  · rename_i hid
    obtain ⟨row, hrow, rfl⟩ := Option.map_eq_some_iff.mp h
    exact ⟨hid, row, hrow, rfl⟩

theorem deleteRuns_none {ids : List ℕ} {id : ℕ} (h : id ∈ ids ∨ w.runs id = none) :
    (w.deleteRuns ids).runs id = none := by
  simp only [World.deleteRuns]
  rcases h with h | h
  · rw [if_pos h]
  · rw [h, Option.map_none, ite_self]

theorem deleteRuns_of_not_mem {ids : List ℕ} {id : ℕ} {row : RunRow} (hid : id ∉ ids)
    (hrow : w.runs id = some row) : (w.deleteRuns ids).runs id =
      some { row with parentRunId := row.parentRunId.filter (· ∉ ids) } := by
  simp only [World.deleteRuns, if_neg hid, hrow, Option.map_some]

theorem deleteRuns (h : ForestOk w) (ids : List ℕ) : ForestOk (w.deleteRuns ids) := by
  constructor
  · intro id hid
    exact ⟨deleteRuns_none (.inr (h.fresh id hid).1), (h.fresh id hid).2⟩
  · intro id row' hrow'
    obtain ⟨-, row, hrow, rfl⟩ := deleteRuns_row hrow'
    obtain ⟨first, hf, hof⟩ := h.rows id row hrow
    refine ⟨first, hf, hof.workflow, hof.ancestors, ?_⟩
    dsimp only
    rcases hof.parent with hp | ⟨hp, p, hfirst, hgone⟩
    · cases hparent : row.parentRunId with
      | none => exact .inl (by rw [← hp, hparent]; rfl)
      | some p =>
        by_cases hmem : p ∈ ids
        · exact .inr ⟨by simp [hmem], p, hp ▸ hparent, deleteRuns_none (.inl hmem)⟩
        · exact .inl (by rw [← hp, hparent]; simp [hmem])
    · exact .inr ⟨by rw [hp]; rfl, p, hfirst, deleteRuns_none (.inr hgone)⟩
  · intro id row' p hrow' hp
    obtain ⟨-, row, hrow, rfl⟩ := deleteRuns_row hrow'
    obtain ⟨hparent, hmem⟩ := Option.filter_eq_some_iff.mp hp
    obtain ⟨parent, hparentRow⟩ := h.links id row p hrow hparent
    exact ⟨_, deleteRuns_of_not_mem (of_decide_eq_true hmem) hparentRow⟩
  · exact h.chains

theorem step (h : ForestOk w) (hs : ForestStep Done w w') : ForestOk w' := by
  cases hs with
  | moved hm => exact h.movesRows hm
  | created row hrow hw => exact hw ▸ h.create hrow
  | ended _ _ _ _ _ _ hw => exact hw ▸ h.of_same rfl rfl rfl
  | deleted ids _ hw => exact hw ▸ h.deleteRuns ids
  | returned _ _ hw => exact hw ▸ h.of_same rfl rfl rfl

end ForestOk

end Chains

section Stability

theorem ForestStep.created_some {w w' : World} (hok : ForestOk w)
    (h : ForestStep Done w w') {id : ℕ}
    {first : RunRow} (hf : w.created id = some first) : w'.created id = some first := by
  cases h with
  | moved hm => rw [hm.created]; exact hf
  | created row _ hw => exact hw ▸ hok.create_created_some row hf
  | ended _ _ _ _ _ _ hw => exact hw ▸ hf
  | deleted _ _ hw => exact hw ▸ hf
  | returned _ _ hw => exact hw ▸ hf

/-- A run that is not active does not become active again. -/
theorem ForestStep.active {w w' : World} (hok : ForestOk w) (h : ForestStep Done w w') {id : ℕ}
    {first : RunRow} (hf : w.created id = some first) (ha : w'.Active id) : w.Active id := by
  obtain ⟨row', hrow', hs⟩ := ha
  cases h with
  | moved hm =>
    have hmoved := hm.rows id
    rw [hrow'] at hmoved
    cases hrow : w.runs id with
    | none => rw [hrow] at hmoved; cases hmoved
    | some row =>
      rw [hrow] at hmoved
      cases hmoved with
      | moved _ _ _ hsticky =>
        refine ⟨row, hrow, by_contra fun hover => hover ?_⟩
        rwa [← hsticky hover]
  | created row _ hw =>
    subst hw
    rw [ForestOk.create_runs_of_ne row (hok.lt_of_created hf).ne] at hrow'
    exact ⟨row', hrow', hs⟩
  | ended _ _ _ _ _ _ hw =>
    subst hw
    exact ⟨row', hrow', hs⟩
  | deleted ids _ hw =>
    subst hw
    obtain ⟨-, row, hrow, rfl⟩ := ForestOk.deleteRuns_row hrow'
    exact ⟨row, hrow, hs⟩
  | returned _ _ hw =>
    subst hw
    exact ⟨row', hrow', hs⟩

end Stability

section Triples

variable {Inv : World → Prop} {Allowed : World → World → Prop}

def forestRules (Inv : World → Prop) (Done : ℕ → World → Prop) (Allowed : World → World → Prop) :
    Rules World where
  Inv w := ForestOk w ∧ Inv w
  Step := ForestStep Done
  Allowed := Allowed

def chainOf (id : ℕ) (row : RunRow) : Assertion (forestRules Inv Done Allowed) where
  Holds w := ∃ first, w.created id = some first ∧ first.workflowId = row.workflowId ∧
    first.ancestorWorkflowIds = row.ancestorWorkflowIds
  stable hI hs _ h := by
    obtain ⟨first, hf, h⟩ := h
    exact ⟨first, hs.created_some hI.1 hf, h⟩

def startedBy (id parentRunId : ℕ) : Assertion (forestRules Inv Done Allowed) where
  Holds w := ∃ first, w.created id = some first ∧ first.parentRunId = some parentRunId
  stable hI hs _ h := by
    obtain ⟨first, hf, hp⟩ := h
    exact ⟨first, hs.created_some hI.1 hf, hp⟩

def allOver (ids : List ℕ) : Assertion (forestRules Inv Done Allowed) where
  Holds w := ∀ id ∈ ids, (∃ first, w.created id = some first) ∧ ¬ w.Active id
  stable hI hs _ h := by
    intro id hid
    obtain ⟨⟨first, hf⟩, hnot⟩ := h id hid
    exact ⟨⟨first, hs.created_some hI.1 hf⟩, fun ha => hnot (hs.active hI.1 hf ha)⟩

theorem transition_not_active (w : World) (runId : ℕ) {toStatus : RunStatus} (fields : RunFields)
    (hto : toStatus ∈ terminalRunStatuses) :
    ¬ (w.transition runId toStatus none fields).2.Active runId := by
  have hnot : ∀ s, s ∈ terminalRunStatuses → s ∉ activeRunStatuses := by
    intro s
    cases s <;> decide
  rintro ⟨row', hrow', hs⟩
  unfold World.transition at hrow'
  split at hrow'
  · rename_i hrow
    rw [hrow] at hrow'
    cases hrow'
  · rename_i row hrow
    split at hrow'
    · simp only [World.setRun, Function.update_self, Option.some.injEq] at hrow'
      subst hrow'
      rw [RunRow.move_status] at hs
      exact hnot _ hto hs
    · rename_i hmay
      rw [hrow] at hrow'
      cases hrow'
      exact hnot _ (by simpa [RunRow.mayMove] using hmay) hs

theorem transitionRun_over {id parentRunId : ℕ} {toStatus : RunStatus} {fields : RunFields}
    (hto : toStatus ∈ terminalRunStatuses) :
    (forestRules Inv Done Allowed).Triple (startedBy id parentRunId)
      (transitionRun (ω := ω) id toStatus none fields)
      fun _ => startedBy id parentRunId ⊓ allOver [id] := by
  refine .update fun w hI hw => ?_
  have hm : MovesRows w (w.transition id toStatus none fields).2 :=
    transition_movesRows w id fields fun _ h => by cases h
  obtain ⟨first, hf, hp⟩ := hw
  refine ⟨.moved hm, fun _ => ⟨⟨first, by rw [hm.created]; exact hf, hp⟩, fun j hj => ?_⟩⟩
  rw [List.mem_singleton.mp hj]
  exact ⟨⟨first, by rw [hm.created]; exact hf⟩, transition_not_active w id fields hto⟩

theorem lifecycle_forest :
    LifecycleOps (ω := ω) fun _ p => p.Always (forestRules Inv Done Allowed).Inv
      fun _ => (forestRules Inv Done Allowed).Step :=
  walkOps_forest.toLifecycleOps

theorem cancelActiveRun_over {id parentRunId : ℕ} :
    (forestRules Inv Done Allowed).Triple (startedBy id parentRunId)
      (cancelActiveRun (ω := ω) id) fun _ => startedBy id parentRunId ⊓ allOver [id] :=
  .bind (transitionRun_over (by decide)) fun won => .always (lifecycle_forest.settleCancel id won)

theorem endStart_over {id parentRunId : ℕ} :
    (forestRules Inv Done Allowed).Triple (startedBy id parentRunId ⊓ allOver [id])
      (endStart (ω := ω) id) fun _ => ⊤ := by
  refine .update fun w hI hw => ⟨?_, fun _ => trivial⟩
  obtain ⟨⟨first, hf, hp⟩, hover⟩ := hw
  exact .ended id parentRunId first hf hp (.inr (.inr (hover id List.mem_cons_self).2)) rfl

theorem recheckParent_triple {id parentRunId : ℕ} :
    (forestRules Inv Done Allowed).Triple (startedBy id parentRunId)
      (recheckParent (ω := ω) parentRunId id) fun _ => startedBy id parentRunId := by
  refine .update fun w hI hw => ?_
  obtain ⟨first, hf, hp⟩ := hw
  unfold World.recheck
  split
  · rename_i hgone
    exact ⟨.ended id parentRunId first hf hp (.inl hgone) rfl, fun _ => ⟨first, hf, hp⟩⟩
  · rename_i parent hparent
    split
    · rename_i hactive
      exact ⟨.ended id parentRunId first hf hp (.inr (.inl ⟨parent, hparent, hactive⟩)) rfl,
        fun _ => ⟨first, hf, hp⟩⟩
    · exact ⟨.moved (.refl w), fun _ => ⟨first, hf, hp⟩⟩

theorem createRun_root (workflowId : ℕ) (uuid : String) (runInputs : Dict Json) :
    (createRun (ω := ω) workflowId uuid runInputs none []).Always
      (forestRules Inv Done Allowed).Inv fun _ => (forestRules Inv Done Allowed).Step :=
  .update fun _ w _ => .created _ ⟨rfl, fun _ => rfl, fun _ h => by cases h⟩ rfl

theorem createRun_child {parentRunId workflowId : ℕ} {parent : RunRow} (uuid : String)
    (runInputs : Dict Json)
    (hnew : workflowId ∉ parent.ancestorWorkflowIds ++ [parent.workflowId])
    (hdepth : (parent.ancestorWorkflowIds ++ [parent.workflowId]).length ≤ maxChildRunDepth) :
    (forestRules Inv Done Allowed).Triple (chainOf parentRunId parent)
      (createRun (ω := ω) workflowId uuid runInputs (some parentRunId)
        (parent.ancestorWorkflowIds ++ [parent.workflowId]))
      fun created => match created with
        | none => ⊤
        | some id => startedBy id parentRunId := by
  refine .update fun w hI hw => ?_
  split
  · rename_i hexists
    obtain ⟨row, hrow⟩ := Option.isSome_iff_exists.mp hexists
    obtain ⟨first, hf, hof⟩ := hI.1.rows parentRunId row hrow
    obtain ⟨first', hf', hworkflow, hancestors⟩ := hw
    cases hf.symm.trans hf'
    refine ⟨.created _ ⟨rfl, fun h => (by cases h), fun id h => ?_⟩ rfl, fun _ =>
      ⟨_, ForestOk.create_created w _, rfl⟩⟩
    cases h
    exact ⟨row, hrow, by rw [hof.ancestors, hof.workflow, hworkflow, hancestors], hnew, hdepth⟩
  · exact ⟨.moved (.refl w), fun _ => trivial⟩

theorem createAndDispatchRun_child {parentRunId workflowId : ℕ} {parent : RunRow} (new : NewRun)
    (hnew : workflowId ∉ parent.ancestorWorkflowIds ++ [parent.workflowId])
    (hdepth : (parent.ancestorWorkflowIds ++ [parent.workflowId]).length ≤ maxChildRunDepth) :
    (forestRules Inv Done Allowed).Triple (chainOf parentRunId parent)
      (createAndDispatchRun (ω := ω) { new with
        workflowId, parentRunId := some parentRunId
        ancestorWorkflowIds := parent.ancestorWorkflowIds ++ [parent.workflowId] })
      fun started => match started with
        | none => ⊤
        | some (id, true) => startedBy id parentRunId
        | some (id, false) => startedBy id parentRunId ⊓ allOver [id] := by
  refine .bind (.always lifecycle_forest.callSucceeds) fun valid => ?_
  cases valid with
  | false => exact .pure le_top
  | true =>
    refine .bind (createRun_child new.uuid new.runInputs hnew hdepth) fun created => ?_
    cases created with
    | none => exact .pure le_top
    | some id =>
      refine .bind (.always (lifecycle_forest.handOver id new.hatchetRunId)) fun dispatched => ?_
      cases dispatched with
      | true => exact .pure le_rfl
      | false =>
        exact .bind (.bind (transitionRun_over (by decide)) fun _ =>
          .always (lifecycle_forest.get _ fun _ _ => rfl)) fun _ => .pure le_rfl

theorem startChildRun_triple (parentRunId workflowId : ℕ) (new : NewRun) :
    (forestRules Inv Done Allowed).Triple ⊤ (startChildRun (ω := ω) parentRunId workflowId new)
      fun _ => ⊤ := by
  have hread : (forestRules Inv Done Allowed).Triple ⊤ (getRun (ω := ω) parentRunId)
      fun parent => match parent with
        | none => ⊤
        | some row => chainOf parentRunId row := by
    refine .get fun w hI _ => ⟨.moved (.refl w), ?_⟩
    cases hrow : w.runs parentRunId with
    | none => trivial
    | some row =>
      obtain ⟨first, hf, hof⟩ := hI.1.rows parentRunId row hrow
      exact ⟨first, hf, hof.workflow.symm, hof.ancestors.symm⟩
  refine .bind hread fun parent => ?_
  cases parent with
  | none => exact .pure le_top
  | some row =>
    dsimp only
    split
    · exact .pure le_top
    · split
      · exact .pure le_top
      · rename_i hallowed
        rw [not_or, not_lt] at hallowed
        refine .bind (createAndDispatchRun_child new hallowed.1 hallowed.2) fun started => ?_
        match started with
        | none => exact .pure le_top
        | some (id, false) => exact endStart_over
        | some (id, true) =>
          refine .bind recheckParent_triple fun active => ?_
          match active with
          | some false => exact .bind cancelActiveRun_over fun _ => endStart_over
          | some true => exact .pure le_top
          | none => exact .pure le_top

theorem deleteRuns_triple (ids : List ℕ) :
    (forestRules Inv Done Allowed).Triple (allOver ids) (deleteRuns (ω := ω) ids) fun _ => ⊤ :=
  .update fun _ _ hw => ⟨.deleted ids (fun id hid => (hw id hid).2) rfl, fun _ => trivial⟩

theorem over_of_terminal {w : World} {id : ℕ} {row : RunRow} (hok : ForestOk w)
    (hrow : w.runs id = some row) (hs : row.status ∈ terminalRunStatuses) :
    (∃ first, w.created id = some first) ∧ ¬ w.Active id := by
  obtain ⟨first, hf, -⟩ := hok.rows id row hrow
  refine ⟨⟨first, hf⟩, ?_⟩
  rintro ⟨row', hrow', hactive⟩
  cases hrow.symm.trans hrow'
  revert hs hactive
  cases row.status <;> decide

theorem deleteRun_triple (runId : ℕ) :
    (forestRules Inv Done Allowed).Triple ⊤ (deleteRun (ω := ω) runId) fun _ => ⊤ := by
  have hread : (forestRules Inv Done Allowed).Triple ⊤ (getRun (ω := ω) runId)
      fun found => match found with
        | none => ⊤
        | some row => if row.status ∈ terminalRunStatuses then allOver [runId] else ⊤ := by
    refine .get fun w hI _ => ⟨.moved (.refl w), ?_⟩
    cases hrow : w.runs runId with
    | none => trivial
    | some row =>
      dsimp only
      split
      · rename_i hs
        intro id hid
        rw [List.mem_singleton.mp hid]
        exact over_of_terminal hI.1 hrow hs
      · trivial
  refine .bind hread fun found => ?_
  cases found with
  | none => exact .pure le_top
  | some row =>
    dsimp only
    by_cases hs : row.status ∈ terminalRunStatuses
    · rw [if_pos hs, if_neg (not_not.mpr hs)]
      exact deleteRuns_triple [runId]
    · rw [if_neg hs, if_pos hs]
      exact .pure le_top

theorem purgeBatches_triple (older : List ℕ) (fuel : ℕ) :
    (forestRules Inv Done Allowed).Triple ⊤ (purgeBatches (ω := ω) older fuel) fun _ => ⊤ := by
  induction fuel with
  | zero => exact .pure le_top
  | succ fuel ih =>
    have hread : (forestRules Inv Done Allowed).Triple ⊤
      (finishedRunsOlder (ω := ω) older) allOver := by
      refine .get fun w hI _ => ⟨.moved (.refl w), fun id hid => ?_⟩
      have hfinished := (List.mem_filter.mp (List.mem_of_mem_take hid)).2
      simp only [Bool.and_eq_true, decide_eq_true_eq, Option.any_eq_true] at hfinished
      obtain ⟨-, row, hrow, hs⟩ := hfinished
      exact over_of_terminal hI.1 hrow hs
    refine .bind hread fun ids => ?_
    split
    · exact .pure le_top
    · exact .bind (deleteRuns_triple ids) fun _ => ih

theorem start_movesRows {d : Deployment ω} {what : ForestLaunch} {w w' : World}
    {task : Task (Answer ω) World} (h : (forestSystem d).start what w = some (task, w')) :
    MovesRows w w' := by
  cases what with
  | deleteRun runId => cases h; exact .refl w
  | purgeFinishedRuns older => cases h; exact .refl w
  | run what =>
    cases what with
    | deviceGroup index =>
      obtain ⟨queued, -, he⟩ := Option.map_eq_some_iff.mp h
      cases he
      exact .of_runs rfl rfl rfl rfl rfl
    | prepare runId | executeSteps runId | failRun runId =>
      simp only [forestSystem, runSystem] at h
      split at h <;> cases h
      exact .refl w
    | _ =>
      cases h
      exact .refl w

/-- The whole system keeps to the rules of the forest, provided that a cancel does. -/
theorem forest_governs (d : Deployment ω)
    (hinv : ∀ {w w'}, ForestOk w → Inv w → ForestStep Done w w' → Allowed w w' → Inv w')
    (hcancel : ∀ runId, (forestRules Inv Done Allowed).Triple ⊤
      (do if ← cancelRun runId then returnCancel runId : Run ω Unit) fun _ => ⊤) :
    (forestRules Inv Done Allowed).Governs (forestSystem d) where
  inv hI hs ha := ⟨hI.1.step hs, hinv hI.1 hI.2 hs ha⟩
  launch _ hs := .moved (start_movesRows hs)
  prog {what w task w'} hs := by
    have hworks : WorkOps d (fun _ => True) fun _ p => p.Always (forestRules Inv Done Allowed).Inv
        fun _ => (forestRules Inv Done Allowed).Step := walkOps_forest.works d
    cases what with
    | deleteRun runId =>
      cases hs
      exact deleteRun_triple runId
    | purgeFinishedRuns older =>
      cases hs
      exact purgeBatches_triple older older.length
    | run what =>
      cases what with
      | triggerRun new =>
        cases hs
        exact .always (hworks.closed.bind (hworks.createAndDispatchRun (createRun_root _ _ _))
          fun _ => hworks.closed.pure _)
      | startScheduledRun new refusal =>
        cases hs
        exact .always (hworks.startScheduledRun (createRun_root _ _ _) refusal)
      | startChildRun parentRunId workflowId new =>
        cases hs
        exact startChildRun_triple parentRunId workflowId new
      | cancelRun runId =>
        cases hs
        exact hcancel runId
      | _ =>
        rw [forestSystem_run rfl fun _ h => by cases h] at hs
        exact .always (hworks.start hs (Launch.covered_of_all (fun _ => trivial) _ _) rfl
          fun index _ result => reportChild_forest index result)
  handlers {what w task w'} hs p hp := by
    have hworks : WorkOps d (fun _ => True) fun _ p => p.Always (forestRules Inv Done Allowed).Inv
        fun _ => (forestRules Inv Done Allowed).Step := walkOps_forest.works d
    cases what with
    | deleteRun runId => cases hs; cases hp
    | purgeFinishedRuns older => cases hs; cases hp
    | run what =>
      cases what with
      | triggerRun new => cases hs; cases hp
      | startScheduledRun new refusal => cases hs; cases hp
      | startChildRun parentRunId workflowId new => cases hs; cases hp
      | cancelRun runId => cases hs; cases hp
      | _ =>
        rw [forestSystem_run rfl fun _ h => by cases h] at hs
        exact .always (hworks.handlers hs p hp)

end Triples

section Recursion

/-- A run was started by a step of another one, whether or not their rows still exist. -/
def World.Started (w : World) (parentRunId id : ℕ) : Prop :=
  ∃ first, w.created id = some first ∧ first.parentRunId = some parentRunId

def World.workflowOf (w : World) (id : ℕ) : Option ℕ := (w.created id).map RunRow.workflowId

theorem ForestOk.chain_ancestors {w : World} (h : ForestOk w) {x : ℕ} {chain : List ℕ}
    {first : RunRow} (hf : w.created x = some first) (hc : (x :: chain).IsChain w.Started) :
    ∃ z last, w.created z = some last ∧
      (last.ancestorWorkflowIds ++ [last.workflowId]).map some =
        first.ancestorWorkflowIds.map some ++ (x :: chain).map w.workflowOf := by
  induction chain generalizing x first with
  | nil => exact ⟨x, first, hf, by simp [World.workflowOf, hf]⟩
  | cons y chain ih =>
    rw [List.isChain_cons_cons] at hc
    obtain ⟨⟨second, hs, hp⟩, hrest⟩ := hc
    obtain ⟨-, parent, hparent, hanc⟩ := (h.chains y second hs).child x hp
    cases hf.symm.trans hparent
    obtain ⟨z, last, hl, he⟩ := ih hs hrest
    refine ⟨z, last, hl, ?_⟩
    rw [he, hanc]
    simp [World.workflowOf, hf]

theorem ForestOk.chain_short {w : World} (h : ForestOk w) {chain : List ℕ}
    (hc : chain.IsChain w.Started) :
    chain.length ≤ maxChildRunDepth + 1 ∧ (chain.map w.workflowOf).Nodup := by
  match chain, hc with
  | [], _ => exact ⟨Nat.zero_le _, List.nodup_nil⟩
  | [x], _ => exact ⟨by simp [maxChildRunDepth], List.nodup_singleton _⟩
  | x :: y :: chain, hc =>
    obtain ⟨⟨second, hs, hp⟩, -⟩ := List.isChain_cons_cons.mp hc
    obtain ⟨-, first, hf, -⟩ := (h.chains y second hs).child x hp
    obtain ⟨z, last, hl, he⟩ := h.chain_ancestors hf hc
    have hlast := h.chains z last hl
    have hnodup : ((last.ancestorWorkflowIds ++ [last.workflowId]).map some).Nodup := by
      refine List.Nodup.map (Option.some_injective ℕ) ?_
      refine List.nodup_append.mpr ⟨hlast.nodup, List.nodup_singleton _, fun a ha b hb => ?_⟩
      rintro rfl
      exact hlast.own (List.mem_singleton.mp hb ▸ ha)
    have hlength := congrArg List.length he
    have hdepth := hlast.depth
    rw [he] at hnodup
    simp only [List.length_map, List.length_append, List.length_cons, List.length_nil] at hlength ⊢
    exact ⟨by omega, (List.nodup_append.mp hnodup).2.1⟩

theorem forestOk_start (canvases : ℕ → Option Canvas) : ForestOk { canvases } := by
  constructor
  · intro id _
    exact ⟨rfl, rfl⟩
  · intro id row h
    cases h
  · intro id row p h
    cases h
  · intro id first h
    cases h

abbrev plainRules : Rules World := forestRules (fun _ => True) (fun _ _ => True) fun _ _ => True

theorem plainRules_governs (d : Deployment ω) : plainRules.Governs (forestSystem d) := by
  refine forest_governs d (fun _ _ _ _ => trivial) fun runId => .always ?_
  refine lifecycle_forest.closed.bind (lifecycle_forest.cancelRun runId) fun returned => ?_
  split
  · exact .update fun _ w _ => .returned runId trivial rfl
  · exact lifecycle_forest.closed.pure _

/-- How the workflows above a run are stored: never changed once the run exists, empty for a run
without a parent, and the parent's list at that moment with the parent's workflow for any other. -/
def KeepsChains (w w' : World) : Prop :=
  ∀ id row', w'.runs id = some row' →
    (∃ row, w.runs id = some row ∧ row'.workflowId = row.workflowId ∧
      row'.ancestorWorkflowIds = row.ancestorWorkflowIds) ∨
    w.runs id = none ∧ (row'.parentRunId = none ∧ row'.ancestorWorkflowIds = [] ∨
      ∃ p parent, row'.parentRunId = some p ∧ w.runs p = some parent ∧
        row'.ancestorWorkflowIds = parent.ancestorWorkflowIds ++ [parent.workflowId])

theorem ForestStep.keepsChains {w w' : World} (hok : ForestOk w) (h : ForestStep Done w w') :
    KeepsChains w w' := by
  intro id row' hrow'
  cases h with
  | moved hm =>
    have hmoved := hm.rows id
    rw [hrow'] at hmoved
    cases hrow : w.runs id with
    | none => rw [hrow] at hmoved; cases hmoved
    | some row =>
      rw [hrow] at hmoved
      cases hmoved with
      | moved hworkflow hancestors _ _ => exact .inl ⟨row, rfl, hworkflow, hancestors⟩
  | created row hfirst hw =>
    subst hw
    by_cases he : id = w.nextRunId
    · subst he
      rw [ForestOk.create_runs] at hrow'
      cases hrow'
      refine .inr ⟨(hok.fresh _ le_rfl).1, ?_⟩
      cases hp : row'.parentRunId with
      | none => exact .inl ⟨rfl, hfirst.root hp⟩
      | some p =>
        obtain ⟨parent, hparent, hanc, -⟩ := hfirst.child p hp
        exact .inr ⟨p, parent, rfl, hparent, hanc⟩
    · rw [ForestOk.create_runs_of_ne row he] at hrow'
      exact .inl ⟨row', hrow', rfl, rfl⟩
  | ended _ _ _ _ _ _ hw =>
    subst hw
    exact .inl ⟨row', hrow', rfl, rfl⟩
  | deleted ids _ hw =>
    subst hw
    obtain ⟨-, row, hrow, rfl⟩ := ForestOk.deleteRuns_row hrow'
    exact .inl ⟨row, hrow, rfl, rfl⟩
  | returned _ _ hw =>
    subst hw
    exact .inl ⟨row', hrow', rfl, rfl⟩

/-- Workflow chains cannot recurse. Whatever is started, cancelled, deleted and purged, the list of
workflows stored with a run has no repetition, does not name the run's own workflow and has at most
`maxChildRunDepth` entries; it is the list of the parent at the start of the run, followed by the
parent's workflow. A chain of runs, each started by the one before, has at most one run more than
that and runs no workflow twice, deleted runs included. -/
theorem workflow_chains (d : Deployment ω) {canvases : ℕ → Option Canvas}
    {es : List (Event ForestLaunch (Answer ω))} {c : Config (Answer ω) World}
    (h : (forestSystem d).exec (.idle { canvases }) es = some c) :
    (∀ id row, c.state.runs id = some row → row.ancestorWorkflowIds.Nodup ∧
      row.workflowId ∉ row.ancestorWorkflowIds ∧
      row.ancestorWorkflowIds.length ≤ maxChildRunDepth) ∧
    (forestSystem d).AllowedRun (fun _ => KeepsChains) (.idle { canvases }) es ∧
    ∀ chain : List ℕ, chain.IsChain c.state.Started →
      chain.length ≤ maxChildRunDepth + 1 ∧ (chain.map c.state.workflowOf).Nodup := by
  have hgoverns := plainRules_governs d
  have hstart : plainRules.Inv { canvases } := ⟨forestOk_start canvases, trivial⟩
  have hall : (forestSystem d).AllowedRun (fun _ => plainRules.Allowed) (.idle { canvases }) es :=
    allowedRun_true es
  have hok := (hgoverns.exec hstart h hall).1
  refine ⟨fun id row hrow => ?_, ?_, fun chain hc => hok.chain_short hc⟩
  · obtain ⟨first, hf, hof⟩ := hok.rows id row hrow
    have hchain := hok.chains id first hf
    rw [hof.ancestors, hof.workflow]
    exact ⟨hchain.nodup, hchain.own, hchain.depth⟩
  · refine (hgoverns.steps hstart hall).imp fun _ w w' hs => ?_
    rcases hs.2 with rfl | hstep
    · exact fun id row' hrow' => .inl ⟨row', hrow', rfl, rfl⟩
    · exact hstep.keepsChains hs.1.1

def forestSteps (thread n : ℕ) : List (Event ForestLaunch (Answer Unit)) :=
  List.replicate n (.step ⟨thread, [], { seed := () }⟩)

def childRun : NewRun := { workflowId := 0, uuid := "u", hatchetRunId := "h" }

def deletedLink : List (Event ForestLaunch (Answer Unit)) :=
  .launch 0 (.run (.triggerRun { workflowId := 1, uuid := "u", hatchetRunId := "h" })) ::
    forestSteps 0 6 ++
  .launch 1 (.run (.startChildRun 0 2 childRun)) :: forestSteps 1 8 ++
  .launch 2 (.run (.startChildRun 1 3 childRun)) :: forestSteps 2 8 ++
  .launch 3 (.run (.cancelRun 1)) :: forestSteps 3 12 ++
  .launch 4 (.deleteRun 1) :: forestSteps 4 2

theorem deletedLink_chain :
    ∃ c row, (forestSystem demoDeployment).exec (.idle {}) deletedLink = some c ∧
      c.state.runs 1 = none ∧ c.state.runs 2 = some row ∧ row.parentRunId = none ∧
      row.ancestorWorkflowIds = [1, 2] ∧
      ((∀ id row, c.state.runs id = some row → row.ancestorWorkflowIds.Nodup ∧
        row.workflowId ∉ row.ancestorWorkflowIds ∧
        row.ancestorWorkflowIds.length ≤ maxChildRunDepth) ∧
      (forestSystem demoDeployment).AllowedRun (fun _ => KeepsChains) (.idle {}) deletedLink ∧
      ∀ chain : List ℕ, chain.IsChain c.state.Started →
        chain.length ≤ maxChildRunDepth + 1 ∧ (chain.map c.state.workflowOf).Nodup) := by
  have hrun : (((forestSystem demoDeployment).exec (.idle {}) deletedLink).map fun c =>
      ((c.state.runs 1).isNone, (c.state.runs 2).map fun row =>
        (row.parentRunId, row.ancestorWorkflowIds))) = some (true, some (none, [1, 2])) := by
    decide +kernel
  obtain ⟨c, hc, hrun⟩ := Option.map_eq_some_iff.mp hrun
  simp only [Prod.mk.injEq, Option.isNone_iff_eq_none] at hrun
  obtain ⟨hgone, hrow⟩ := hrun
  obtain ⟨row, hrow, he⟩ := Option.map_eq_some_iff.mp hrow
  simp only [Prod.mk.injEq] at he
  exact ⟨c, row, hc, hgone, hrow, he.1, he.2, workflow_chains demoDeployment hc⟩

end Recursion

end Manus
