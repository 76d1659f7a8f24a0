import Manus.Lib.Steps
import Manus.Runs.Worker

/-! # Approval gates

The batch loop of one fan-out run beside the users who approve its batches. A
call reads the row, may write it back with the flag for all further gates, and
pushes the event of the batch it has read; the worker pauses the row, waits for
that event, reads the row and writes it back as running. Nothing holds the row
between a read and the write that follows.
-/

namespace Manus.Gates

/-- Key and scope of the event that releases a batch. -/
def batchApprovalEventKey (runUuid : String) (batchIndex : ℕ) : String :=
  "workflow-run." ++ runUuid ++ ".batch." ++ toString batchIndex

theorem batchApprovalEventKey_injective (runUuid : String) :
    Function.Injective (batchApprovalEventKey runUuid) := by
  intro j k h
  have hrepr : j.repr = k.repr := (String.append_right_inj _).mp h
  have hdigits : Nat.toDigits 10 j = Nat.toDigits 10 k := by
    rw [← Nat.toList_repr, ← Nat.toList_repr, hrepr]
  rw [← Nat.ofDigitChars_ten_toDigits (n := j), hdigits, Nat.ofDigitChars_ten_toDigits]

section Loop

/-- What a dispatch in batches works on. -/
structure Dispatch where
  runId : ℕ
  runUuid : String
  signal : FanOutSignal
  plan : FanOutDispatchPlan
  batchSize : ℤ
  parsed : parseFanOutDispatch signal = .ok plan
  sized : pyInt ((plan.approvalCfg.get? "batch_size").getD (.int 1)) = .ok batchSize

namespace Dispatch

variable (d : Dispatch)

def firstBatchAuto : Bool := ((d.plan.approvalCfg.get? "first_batch_auto").getD (.bool true)).truthy

def batches : List (List (List String)) :=
  chunks (max 1 d.batchSize).toNat d.plan.groups.length d.plan.groups

/-- The gate in front of a batch. -/
def buildApprovalState (batchIndex : ℕ) (batch : List (List String)) (loop : BatchState) :
    ApprovalState where
  awaiting := true
  nextBatchIndex := batchIndex
  totalBatches := d.batches.length
  batchesCompleted := batchIndex
  devicesTotal := d.plan.deviceIds.length
  devicesCompleted := loop.devicesCompleted
  devicesFailed := loop.devicesFailed
  nextBatchDeviceNames := (deviceNamesForGroups d.plan batch).take maxApprovalStateDeviceNames

/-- What a pause writes besides the status. -/
def pauseFields (batchIndex : ℕ) (batch : List (List String)) (loop : BatchState) : RunFields where
  currentNodeId := some d.signal.inventoryNodeId
  debugMessage := some (formatApprovalPauseMessage batchIndex d.batches.length
    loop.devicesCompleted loop.devicesFailed batchIndex (deviceNamesForGroups d.plan batch))
  approvalState := some (d.buildApprovalState batchIndex batch loop)

end Dispatch

/-- The row of a run after `update_run_status`. -/
def updateRunStatus (row : RunRow) (status : RunStatus) (fields : RunFields) : RunRow :=
  if row.mayMove none then row.move status fields else row

/-- The gate a row is paused at, as `_require_awaiting_batch` looks for it. -/
def requireAwaitingBatch (row : RunRow) : Option ApprovalState :=
  row.approvalState.filter fun state => row.status = .paused && state.awaiting

/-- The batch a row is paused for. -/
def awaits (row : RunRow) : Option ℕ := (requireAwaitingBatch row).map ApprovalState.nextBatchIndex

/-- The flag that opens all further gates, as a row shows it. -/
def autoApproveRemaining (row : RunRow) : Bool :=
  row.approvalState.any ApprovalState.autoApproveRemaining

/-- Where the worker is: in front of a gate, waiting at it, past the event with the row it has
read, past the gate, or running the batch. -/
inductive Position where
  | gate (batchIndex : ℕ)
  | waiting (batchIndex : ℕ)
  | woken (batchIndex : ℕ) (row : RunRow)
  | ready (batchIndex : ℕ)
  | running (batchIndex : ℕ)
  | returned
  | raised

/-- How far a user's call has got: it has found the run waiting, or, for all batches, it has written
the flag as well. -/
inductive Call where
  | idle
  | approveBatch (state : ApprovalState)
  | approveAll (state : ApprovalState)
  | flagged (state : ApprovalState)

/-- The row, the worker, the calls of the users and the events the engine has; and, of the past,
the children asked for, the gates the worker has paused at, the batches that were approved, each
with the batch the row was paused for at that moment, the gates that have read the flag as set, and
whether an approval of all batches has returned. -/
structure State where
  row : RunRow
  position : Position := .gate 0
  loop : BatchState := {}
  calls : ℕ → Call := fun _ => .idle
  events : List String := []
  dispatched : List DeviceGroupInput := []
  pauses : List ℕ := []
  approvals : List (ℕ × Option ℕ) := []
  autoReads : List ℕ := []
  returnedAll : Bool := false

/-- The steps of the worker, then those of the calls. -/
inductive Move where
  | enter
  | wake
  | resume
  | runGroups
  | collect (results : List (Except String ChildResult))
  | raise
  | approveBatch (call : ℕ)
  | approveAll (call : ℕ)
  | flag (call : ℕ)
  | push (call : ℕ) (delivered : Bool)

def State.setCall (s : State) (call : ℕ) (value : Call) : State :=
  { s with calls := Function.update s.calls call value }

/-- The loop's variables after a batch. -/
def afterBatch (loop : BatchState) (batch : List (List String))
    (results : List (Except String ChildResult)) : BatchState where
  results := loop.results ++ results
  autoApproveRemaining := loop.autoApproveRemaining
  devicesCompleted := loop.devicesCompleted + (tallyBatchFailures batch results).1
  devicesFailed := loop.devicesFailed + (tallyBatchFailures batch results).2
  groupOffset := loop.groupOffset + batch.length

namespace Dispatch

variable (d : Dispatch)

def pause (s : State) (k : ℕ) (batch : List (List String)) : State :=
  { s with
    row := updateRunStatus s.row .paused (d.pauseFields k batch s.loop)
    position := .waiting k
    pauses := k :: s.pauses }

/-- Write the row that was read back as running, and go on with the flag it shows. -/
def resume (s : State) (k : ℕ) (row : RunRow) : State :=
  let resumed := row.approvalState.map fun gate => { gate with awaiting := false }
  { s with
    row := updateRunStatus s.row .running { approvalState := resumed }
    position := .ready k
    loop := { s.loop with autoApproveRemaining := autoApproveRemaining row }
    autoReads := if autoApproveRemaining row then k :: s.autoReads else s.autoReads }

def runGroups (s : State) (k : ℕ) (batch : List (List String)) : State :=
  { s with
    position := .running k
    dispatched := s.dispatched ++ buildChildInputs d.runId d.signal batch s.loop.groupOffset }

/-- Write the row as it was read, with the flag. -/
def flag (s : State) (call : ℕ) (state : ApprovalState) : State :=
  { s.setCall call (.flagged state) with
    row := updateRunStatus s.row .paused
      { approvalState := some { state with autoApproveRemaining := true } } }

/-- Push the event of a batch; the call is over, whether the engine took the event or not. -/
def pushBatchEvent (s : State) (call batchIndex : ℕ) (delivered : Bool) : State :=
  if delivered then
    { s.setCall call .idle with
      events := batchApprovalEventKey d.runUuid batchIndex :: s.events
      approvals := (batchIndex, awaits s.row) :: s.approvals }
  else s.setCall call .idle

/-- One step; `none` when it cannot be taken. An event that was pushed stays with the engine, so
nothing is lost by reading the row in the step that receives it. -/
def step (s : State) : Move → Option State
  | .enter => match s.position with
    | .gate k => match d.batches[k]? with
      | none => some { s with position := .returned }
      | some batch =>
        if batchNeedsApprovalGate k d.firstBatchAuto s.loop.autoApproveRemaining then
          some (d.pause s k batch)
        else some { s with position := .ready k }
    | _ => none
  | .wake => match s.position with
    | .waiting k =>
      if batchApprovalEventKey d.runUuid k ∈ s.events then
        some { s with position := .woken k s.row }
      else none
    | _ => none
  | .resume => match s.position with
    | .woken k row => some (resume s k row)
    | _ => none
  | .runGroups => match s.position with
    | .ready k => d.batches[k]?.map (d.runGroups s k)
    | _ => none
  | .collect results => match s.position with
    | .running k => match d.batches[k]? with
      | some batch =>
        if results.length = batch.length then
          some { s with position := .gate (k + 1), loop := afterBatch s.loop batch results }
        else none
      | none => none
    | _ => none
  | .raise => match s.position with
    | .returned | .raised => none
    | _ => some { s with position := .raised }
  | .approveBatch i => match s.calls i, requireAwaitingBatch s.row with
    | .idle, some state => some (s.setCall i (.approveBatch state))
    | .idle, none => some s
    | _, _ => none
  | .approveAll i => match s.calls i, requireAwaitingBatch s.row with
    | .idle, some state => some (s.setCall i (.approveAll state))
    | .idle, none => some s
    | _, _ => none
  | .flag i => match s.calls i with
    | .approveAll state => some (flag s i state)
    | _ => none
  | .push i delivered => match s.calls i with
    | .approveBatch state => some (d.pushBatchEvent s i state.nextBatchIndex delivered)
    | .flagged state => some { d.pushBatchEvent s i state.nextBatchIndex delivered with
        returnedAll := s.returnedAll || delivered }
    | _ => none

end Dispatch

/-- The row as the walk leaves it: running, without a gate. -/
def init (row : RunRow) : State where
  row := { row with status := .running, approvalState := none }

end Loop


section Demo

def demoDevice (id : String) : DeviceContext := { id, name := id, hostname := id }

def demoSignal : FanOutSignal where
  inventoryNodeId := "I"
  fanOutConfig := Dict.ofPairs [("approval", .obj [("enabled", .bool true)])]
  inventoryOutcome := {
    runId := "1", workflowId := "1"
    devices := Dict.ofPairs [("a", demoDevice "a"), ("b", demoDevice "b"), ("c", demoDevice "c")] }
  stepOutcomes := ∅
  joinNodeId := none

/-- Three devices, each a batch; the first one needs no approval. -/
def demo : Dispatch where
  runId := 1
  runUuid := "u"
  signal := demoSignal
  plan := {
    groups := [["a"], ["b"], ["c"]], deviceIds := ["a", "b", "c"], maxConcurrency := 0
    approvalEnabled := true, approvalCfg := .obj [("enabled", .bool true)]
    allDevices := demoSignal.inventoryOutcome.devices }
  batchSize := 1
  parsed := rfl
  sized := rfl

def demoRow : RunRow := { uuid := "u", workflowId := 1 }

def demoResult : Except String ChildResult := .ok ⟨∅, []⟩

/-- The first batch runs and the worker pauses in front of the second. -/
def toFirstGate : List Move := [.enter, .runGroups, .collect [demoResult], .enter]

/-- A gate is passed and its batch runs. -/
def throughGate : List Move := [.wake, .resume, .runGroups]

/-- An approval of all batches writes its flag after another user has released the batch. -/
def lateFlag : List Move := toFirstGate ++ [.approveAll 1, .approveBatch 2, .push 2 true] ++
  throughGate ++ [.flag 1, .push 1 true]

/-- An approval of all batches writes its flag at the gate behind the one it has read, between what
another user's approval of that batch reads and its event. -/
def staleFlag : List Move := toFirstGate ++ [.approveAll 1, .approveBatch 2, .push 2 true] ++
  throughGate ++ [.collect [demoResult], .enter, .approveBatch 2, .flag 1, .push 2 true, .wake,
    .resume]

def approvedAtOnce : List Move := toFirstGate ++ [.approveAll 1, .flag 1, .push 1 true]

/-- The batches behind an approved gate run to the end. -/
def toTheEnd : List Move := throughGate ++
  [.collect [demoResult], .enter, .runGroups, .collect [demoResult], .enter]

end Demo

section Steps

inductive Step (d : Dispatch) (s : State) : Move → State → Prop
  | finish {k : ℕ} : s.position = .gate k → d.batches.length ≤ k →
      Step d s .enter { s with position := .returned }
  | pause {k : ℕ} {batch : List (List String)} : s.position = .gate k →
      d.batches[k]? = some batch →
      batchNeedsApprovalGate k d.firstBatchAuto s.loop.autoApproveRemaining = true →
      Step d s .enter (d.pause s k batch)
  | pass {k : ℕ} : s.position = .gate k →
      batchNeedsApprovalGate k d.firstBatchAuto s.loop.autoApproveRemaining = false →
      Step d s .enter { s with position := .ready k }
  | wake {k : ℕ} : s.position = .waiting k → batchApprovalEventKey d.runUuid k ∈ s.events →
      Step d s .wake { s with position := .woken k s.row }
  | resume {k : ℕ} {row : RunRow} : s.position = .woken k row →
      Step d s .resume (Dispatch.resume s k row)
  | runGroups {k : ℕ} {batch : List (List String)} : s.position = .ready k →
      d.batches[k]? = some batch → Step d s .runGroups (d.runGroups s k batch)
  | collect {k : ℕ} {batch : List (List String)} {results : List (Except String ChildResult)} :
      s.position = .running k → d.batches[k]? = some batch →
      Step d s (.collect results)
        { s with position := .gate (k + 1), loop := afterBatch s.loop batch results }
  | raise : Step d s .raise { s with position := .raised }
  | refuse {move : Move} : Step d s move s
  | approveBatch {i : ℕ} {state : ApprovalState} : requireAwaitingBatch s.row = some state →
      Step d s (.approveBatch i) (s.setCall i (.approveBatch state))
  | approveAll {i : ℕ} {state : ApprovalState} : requireAwaitingBatch s.row = some state →
      Step d s (.approveAll i) (s.setCall i (.approveAll state))
  | flag {i : ℕ} {state : ApprovalState} : s.calls i = .approveAll state →
      Step d s (.flag i) (Dispatch.flag s i state)
  | pushBatch {i : ℕ} {state : ApprovalState} {delivered : Bool} :
      s.calls i = .approveBatch state →
      Step d s (.push i delivered) (d.pushBatchEvent s i state.nextBatchIndex delivered)
  | pushAll {i : ℕ} {state : ApprovalState} {delivered : Bool} : s.calls i = .flagged state →
      Step d s (.push i delivered) { d.pushBatchEvent s i state.nextBatchIndex delivered with
        returnedAll := s.returnedAll || delivered }

variable {d : Dispatch} {s s' : State} {move : Move}

theorem step_cases (h : d.step s move = some s') : Step d s move s' := by
  cases move with
  | enter =>
    simp only [Dispatch.step] at h
    split at h
    · rename_i k hpos
      split at h
      · rename_i hnone
        cases h
        exact .finish hpos (List.getElem?_eq_none_iff.mp hnone)
      · rename_i batch hbatch
        split at h
        · rename_i hgate
          cases h
          exact .pause hpos hbatch hgate
        · rename_i hgate
          cases h
          exact .pass hpos (Bool.eq_false_iff.mpr hgate)
    · cases h
  | wake =>
    simp only [Dispatch.step] at h
    split at h
    · rename_i k hpos
      split at h
      · rename_i hmem
        cases h
        exact .wake hpos hmem
      · cases h
    · cases h
  | resume =>
    simp only [Dispatch.step] at h
    split at h
    · rename_i k row hpos
      cases h
      exact .resume hpos
    · cases h
  | runGroups =>
    simp only [Dispatch.step] at h
    split at h
    · rename_i k hpos
      obtain ⟨batch, hbatch, rfl⟩ := Option.map_eq_some_iff.mp h
      exact .runGroups hpos hbatch
    · cases h
  | collect results =>
    simp only [Dispatch.step] at h
    split at h
    · rename_i k hpos
      split at h
      · rename_i batch hbatch
        split at h
        · cases h
          exact .collect hpos hbatch
        · cases h
      · cases h
    · cases h
  | raise =>
    simp only [Dispatch.step] at h
    split at h
    · cases h
    · cases h
    · cases h
      exact .raise
  | approveBatch i =>
    simp only [Dispatch.step] at h
    split at h
    · rename_i state _ hstate
      cases h
      exact .approveBatch hstate
    · cases h
      exact .refuse
    · cases h
  | approveAll i =>
    simp only [Dispatch.step] at h
    split at h
    · rename_i state _ hstate
      cases h
      exact .approveAll hstate
    · cases h
      exact .refuse
    · cases h
  | flag i =>
    simp only [Dispatch.step] at h
    split at h
    · rename_i state hcall
      cases h
      exact .flag hcall
    · cases h
  | push i delivered =>
    simp only [Dispatch.step] at h
    split at h
    · rename_i state hcall
      cases h
      exact .pushBatch hcall
    · rename_i state hcall
      cases h
      exact .pushAll hcall
    · cases h

end Steps

section Rows

/-- A row is running or paused while its batches run. -/
def Live (row : RunRow) : Prop := row.status = .running ∨ row.status = .paused

variable {row : RunRow}

theorem Live.update (h : Live row) (status : RunStatus) (hs : status ∉ terminalRunStatuses)
    (fields : RunFields) :
    (updateRunStatus row status fields).status = status ∧
      (updateRunStatus row status fields).approvalState =
        fields.approvalState.or row.approvalState := by
  have hmay : row.mayMove none = true := by
    rcases h with h | h <;> simp [RunRow.mayMove, h, terminalRunStatuses]
  simp only [updateRunStatus, hmay, if_true, RunRow.move, if_neg hs, and_self]

end Rows

end Manus.Gates
