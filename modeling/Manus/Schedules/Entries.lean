import Mathlib.Data.List.Nodup
import Mathlib.Logic.Function.Basic
import Mathlib.Tactic.Common

/-! # Schedules and their engine entries

A schedule is a row of the database and an entry of the engine that fires a
trigger. The two stores are written one after the other, and every call to the
engine may fail. The trigger itself looks at the row only, so an entry that was
left behind fires as soon as the row is enabled again.
-/

namespace Manus.Schedules

section Stores

inductive ScheduleType where
  | cron
  | once
  deriving DecidableEq, Repr

structure WorkflowSchedule where
  workflowId : ℕ
  createdById : Option ℕ := none
  scheduleType : ScheduleType
  cronExpression : Option String := none
  runAt : Option ℕ := none
  enabled : Bool := false
  hatchetCronId : Option ℕ := none
  hatchetScheduledId : Option ℕ := none

/-- A cron or one-time entry of the engine, with the input its firing hands to the trigger. -/
structure Entry where
  id : ℕ
  kind : ScheduleType
  workflowId : ℕ
  scheduleId : ℕ
  deriving DecidableEq

/-- The rows, the live entries, and the schedule whose entry is being replaced right now. -/
structure World where
  rows : ℕ → Option WorkflowSchedule := fun _ => none
  nextId : ℕ := 0
  entries : List Entry := []
  nextEntryId : ℕ := 0
  replacing : Option ℕ := none

/-- How a call to the engine ends: it is carried out, it fails, or it is carried out and its answer
is lost, so that the caller sees a failure. -/
inductive Answer where
  | done
  | failed
  | lost
  deriving DecidableEq, Repr

/-- Whether the row points at an entry. -/
def WorkflowSchedule.names (row : WorkflowSchedule) (entryId : ℕ) : Bool :=
  row.hatchetCronId == some entryId || row.hatchetScheduledId == some entryId

def WorkflowSchedule.hasEntry (row : WorkflowSchedule) : Bool :=
  row.hatchetCronId.isSome || row.hatchetScheduledId.isSome

/-- The row with its entry ids cleared, as every update leaves it. -/
def WorkflowSchedule.clearIds (row : WorkflowSchedule) : WorkflowSchedule :=
  { row with hatchetCronId := none, hatchetScheduledId := none }

def WorkflowSchedule.disable (row : WorkflowSchedule) : WorkflowSchedule :=
  { row.clearIds with enabled := false }

/-- The trigger's guard: the row exists, is enabled and belongs to the same workflow. -/
def World.guard (w : World) (e : Entry) : Bool :=
  (w.rows e.scheduleId).any fun row => row.enabled && row.workflowId == e.workflowId

/-- The live entries whose firing would pass the guard for a schedule. -/
def World.live (w : World) (id : ℕ) : List Entry :=
  w.entries.filter fun e => e.scheduleId == id && w.guard e

namespace World

def setRow (w : World) (id : ℕ) (row : Option WorkflowSchedule) : World :=
  { w with rows := Function.update w.rows id row }

@[simp] theorem setRow_self (w : World) (id : ℕ) (row : Option WorkflowSchedule) :
    (w.setRow id row).rows id = row := Function.update_self ..

theorem setRow_of_ne (w : World) {id id' : ℕ} (h : id' ≠ id) (row : Option WorkflowSchedule) :
    (w.setRow id row).rows id' = w.rows id' := Function.update_of_ne h ..

def createEntry (w : World) (id : ℕ) (row : WorkflowSchedule) : World :=
  { w with
    entries := ⟨w.nextEntryId, row.scheduleType, row.workflowId, id⟩ :: w.entries
    nextEntryId := w.nextEntryId + 1 }

/-- The engine removes the entry a row points at; that it has no such entry is fine as well. -/
def deleteEntryIds (w : World) (row : WorkflowSchedule) (answer : Answer) : World :=
  if answer = .failed then w
  else { w with entries := w.entries.filter fun e => !row.names e.id }

/-- A one-time entry is consumed when it fires. -/
def consume (w : World) (e : Entry) : World :=
  match e.kind with
  | .cron => w
  | .once => { w with entries := w.entries.filter fun e' => e'.id != e.id }

end World

def setHatchetIds (row : WorkflowSchedule) (entryId : ℕ) : WorkflowSchedule :=
  match row.scheduleType with
  | .cron => { row with hatchetCronId := some entryId, hatchetScheduledId := none }
  | .once => { row with hatchetCronId := none, hatchetScheduledId := some entryId }

end Stores

section Operations

def validateTiming (row : WorkflowSchedule) (now : ℕ) : Bool :=
  match row.scheduleType with
  | .cron => row.cronExpression.any (· ≠ "")
  | .once => row.runAt.any (now < ·)

/-- The stores a registration goes through, and whether it succeeded. The row is the one in memory,
which storing the id commits. -/
def registerHatchetEntry (w : World) (id : ℕ) (row : WorkflowSchedule) (answer : Answer) :
    List World × Bool :=
  if !row.enabled then ([], true)
  else if row.scheduleType = .once ∧ row.runAt = none then ([], false)
  else match answer with
    | .failed => ([], false)
    | .lost => ([w.createEntry id row], false)
    | .done =>
      let created := w.createEntry id row
      ([created, created.setRow id (some (setHatchetIds row w.nextEntryId))], true)

/-- Where a sequence of stores ends. -/
def endOf (w : World) (points : List World) : World := points.getLast?.getD w

structure ScheduleCreate where
  workflowId : ℕ
  scheduleType : ScheduleType
  cronExpression : Option String := none
  runAt : Option ℕ := none
  enabled : Bool := true

/-- The stores a creation goes through; `allowed` stands for the checks of the workflow, the inputs
and the background tier. The row is stored disabled at first, and deleted when the registration
fails. -/
def createSchedule (w : World) (data : ScheduleCreate) (userId now : ℕ) (allowed : Bool)
    (answer : Answer) : List World :=
  let stored : WorkflowSchedule := {
    workflowId := data.workflowId, createdById := some userId, scheduleType := data.scheduleType
    cronExpression := data.cronExpression, runAt := data.runAt }
  if !(allowed && validateTiming stored now) then []
  else
    let id := w.nextId
    let w₁ := { w.setRow id (some stored) with nextId := id + 1 }
    let attempt := registerHatchetEntry w₁ id { stored with enabled := data.enabled } answer
    let points := w₁ :: attempt.1
    if attempt.2 then points else points ++ [(endOf w points).setRow id none]

structure ScheduleUpdate where
  scheduleType : Option ScheduleType := none
  cronExpression : Option String := none
  runAt : Option ℕ := none
  enabled : Option Bool := none

/-- The row with the fields of an update. -/
def ScheduleUpdate.apply (data : ScheduleUpdate) (row : WorkflowSchedule) : WorkflowSchedule :=
  { row.clearIds with
    scheduleType := data.scheduleType.getD row.scheduleType
    cronExpression := data.cronExpression.or row.cronExpression
    runAt := data.runAt.or row.runAt
    enabled := data.enabled.getD row.enabled }

/-- Timing is checked when it changes and when the schedule becomes active again. -/
def ScheduleUpdate.checksTiming (data : ScheduleUpdate) (row : WorkflowSchedule) : Bool :=
  data.scheduleType.isSome || data.cronExpression.isSome || data.runAt.isSome ||
    (data.enabled == some true && !row.enabled)

/-- Whether an update is refused before it writes anything. -/
def ScheduleUpdate.refused (data : ScheduleUpdate) (row : WorkflowSchedule) (now : ℕ)
    (allowed : Bool) : Bool :=
  !allowed || (data.checksTiming row && !validateTiming (data.apply row) now)

/-- The stores an update goes through: the row, the new entry, and only then the removal of the old
one, whose failure is not reported. When there is no new entry the row is disabled. -/
def replaceEntry (w : World) (id : ℕ) (old new : WorkflowSchedule)
    (createAnswer deleteAnswer : Answer) : List World :=
  let w₁ := w.setRow id (some new)
  let attempt := registerHatchetEntry { w₁ with replacing := some id } id new createAnswer
  let w₂ := { endOf w₁ attempt.1 with replacing := none }
  if attempt.2 then w₁ :: attempt.1 ++ [w₂.deleteEntryIds old deleteAnswer]
  else
    let w₃ := w₂.setRow id (some new.disable)
    w₁ :: attempt.1 ++ [w₃, w₃.deleteEntryIds old deleteAnswer]

def updateSchedule (w : World) (id : ℕ) (data : ScheduleUpdate) (now : ℕ) (allowed : Bool)
    (createAnswer deleteAnswer : Answer) : List World :=
  match w.rows id with
  | none => []
  | some row =>
    if data.refused row now allowed then []
    else replaceEntry w id row (data.apply row) createAnswer deleteAnswer

/-- A removal that must succeed: whether its caller sees a failure. -/
def deleteRaises (row : WorkflowSchedule) (answer : Answer) : Bool :=
  row.hasEntry && decide (answer ≠ .done)

def deleteSchedule (w : World) (id : ℕ) (allowed : Bool) (answer : Answer) : List World :=
  match w.rows id with
  | none => []
  | some row =>
    if !allowed then []
    else
      let w₁ := w.deleteEntryIds row answer
      if deleteRaises row answer then [w₁] else [w₁, w₁.setRow id none]

/-- Disable some schedules one after another, up to the first failure. -/
def disableAll (answers : ℕ → Answer) : List ℕ → World → List World
  | [], _ => []
  | id :: ids, w =>
    match w.rows id with
    | none => disableAll answers ids w
    | some row =>
      let w₁ := w.deleteEntryIds row (answers id)
      if deleteRaises row (answers id) then [w₁]
      else
        let w₂ := w₁.setRow id (some row.disable)
        w₁ :: w₂ :: disableAll answers ids w₂

def listByCreator (w : World) (userId : ℕ) : List ℕ :=
  (List.range w.nextId).filter fun id => (w.rows id).any fun row => row.createdById == some userId

def disableForUser (w : World) (userId : ℕ) (answers : ℕ → Answer) : List World :=
  disableAll answers (listByCreator w userId) w

/-- An entry fires. The trigger disables the schedule when
its creator may no longer run the workflow, and a one-time schedule that has fired. -/
def dispatch (w : World) (entryId : ℕ) (authorised : Bool) : List World :=
  match w.entries.find? fun e => e.id == entryId with
  | none => []
  | some e =>
    let w₁ := w.consume e
    match w₁.rows e.scheduleId with
    | none => [w₁]
    | some row =>
      if !w₁.guard e then [w₁]
      else if !authorised || row.scheduleType = .once then
        [w₁, w₁.setRow e.scheduleId (some row.disable)]
      else [w₁]

inductive Op where
  | create (data : ScheduleCreate) (userId now : ℕ) (allowed : Bool) (answer : Answer)
  | update (id : ℕ) (data : ScheduleUpdate) (now : ℕ) (allowed : Bool)
      (createAnswer deleteAnswer : Answer)
  | disableForUser (userId : ℕ) (answers : ℕ → Answer)
  | delete (id : ℕ) (allowed : Bool) (answer : Answer)
  | fire (entryId : ℕ) (authorised : Bool)

/-- The stores an operation goes through. -/
def Op.points (w : World) : Op → List World
  | .create data userId now allowed answer => createSchedule w data userId now allowed answer
  | .update id data now allowed createAnswer deleteAnswer =>
    updateSchedule w id data now allowed createAnswer deleteAnswer
  | .disableForUser userId answers => Schedules.disableForUser w userId answers
  | .delete id allowed answer => deleteSchedule w id allowed answer
  | .fire entryId authorised => dispatch w entryId authorised

/-- Where a sequence of operations ends. -/
def afterAll : World → List Op → World
  | w, [] => w
  | w, op :: ops => afterAll (endOf w (op.points w)) ops

/-- All stores a sequence of operations goes through. -/
def pointsOf : World → List Op → List World
  | w, [] => [w]
  | w, op :: ops => w :: op.points w ++ pointsOf (endOf w (op.points w)) ops

end Operations

end Manus.Schedules
