import Manus.Children.DeviceLines
import Manus.Context.Guards
import Manus.Releases.Stamp

/-! # The step that starts another workflow

The devices are handed to one run of the other workflow, or each to a run of its own. The
step waits for the runs, if it is to, and lets each device leave by what became of its run.
What the database answers to the starts and the polls is an input of the step.
-/

namespace Manus.Children

variable {F : Type} (floats : Floats F) (names : DriverNames)

section Values

mutual

/-- `repr(value)`. -/
def reprValue : JsonValue (Number F) → String
  | .null => "None"
  | .bool b => if b then "True" else "False"
  | .num n => String.ofList (n.text floats)
  | .str text => reprText text
  | .arr items => "[" ++ ", ".intercalate (reprItems items) ++ "]"
  | .obj fields => "\x7b" ++ ", ".intercalate (reprFields fields) ++ "\x7d"

def reprItems : List (JsonValue (Number F)) → List String
  | [] => []
  | value :: items => reprValue value :: reprItems items

def reprFields : List (String × JsonValue (Number F)) → List String
  | [] => []
  | (key, value) :: fields => (reprText key ++ ": " ++ reprValue value) :: reprFields fields

end

/-- `str(value or default).strip()`. -/
def textOr (default : String) (value : JsonValue (Number F)) : String :=
  let text := if Releases.truthy floats value then
      match value with
      | .str text => text
      | value => reprValue floats value
    else default
  String.ofList (pyStrip text.toList)

variable (config : List (String × JsonValue (Number F)))

def getConfig (key : String) : JsonValue (Number F) := (config.lookup key).getD .null

/-- `parse_bool_flag`. -/
def parseBoolFlag (key : String) (default : Bool) : Except String Bool :=
  let unclear := fun value : JsonValue (Number F) =>
    Except.error (key ++ " must be true or false, got " ++ reprValue floats value)
  match getConfig config key with
  | .null => .ok default
  | .bool b => .ok b
  | .num (.int n) => .ok (n ≠ 0)
  | .num (.float x) => .ok (floats.whole x ≠ some 0)
  | .str text =>
    if ["1", "true", "yes", "on"].any fun word => spells word text then .ok true
    else if ["0", "false", "no", "off", ""].any fun word => spells word text then .ok false
    else unclear (.str text)
  | value => unclear value

/-- A whole number with bounds. -/
def Bounded (minimum maximum : ℕ) : Type := { n : ℕ // minimum ≤ n ∧ n ≤ maximum }

/-- `parse_int_flag`. -/
def parseIntFlag {minimum maximum : ℕ} (key : String) (default : Bounded minimum maximum) :
    Except String (Bounded minimum maximum) :=
  let unclear := fun value : JsonValue (Number F) =>
    key ++ " must be a whole number, got " ++ reprValue floats value
  let number := fun value : JsonValue (Number F) =>
    match value with
    | .bool _ => Except.error (unclear value)
    | .num (.float x) =>
      match floats.whole x with
      | some n => .ok n
      | none => .error (unclear value)
    | value => (Releases.int floats value).mapError fun _ => unclear value
  let value := getConfig config key
  let isBlank := match value with
    | .null => true
    | .str text => pyStrip text.toList = []
    | _ => false
  if isBlank then .ok default
  else do
    let n ← number value
    if h : minimum ≤ n.toNat ∧ n.toNat ≤ maximum ∧ 0 ≤ n then .ok ⟨n.toNat, h.1, h.2.1⟩
    else .error (key ++ " must be between " ++ toString minimum ++ " and " ++ toString maximum ++
      ", got " ++ toString n)

end Values

section Configuration

def maxWaitSeconds : ℕ := 600
def minWaitSeconds : ℕ := 5
def maxPollSeconds : ℕ := 60
def maxRunsCeiling : ℕ := 200

/-- `_ParsedConfig`. A wait makes progress, since a poll interval has a second at least. -/
structure ParsedConfig (F : Type) where
  workflowId : ℤ
  runInputs : List (String × JsonValue (Number F))
  devicesInput : String
  perDevice : Bool
  maxRuns : Bounded 1 maxRunsCeiling
  wait : Bool
  waitSeconds : Bounded minWaitSeconds maxWaitSeconds
  pollIntervalSeconds : Bounded 1 maxPollSeconds
  allowPartial : Bool
  bagName : String

def runModes : List String := ["all_devices", "per_device"]

def bagNameOf (config : List (String × JsonValue (Number F))) : String :=
  match textOr floats "child_run" (getConfig config "bag_name") with
  | "" => "child_run"
  | name => name

def runInputsOf (config : List (String × JsonValue (Number F))) :
    Except String (List (String × JsonValue (Number F))) :=
  let value := getConfig config "run_inputs"
  if Releases.truthy floats value then
    match value with
    | .obj fields => .ok fields
    | _ => .error "start-workflow: run_inputs must be an object of input name to value"
  else .ok []

/-- `_parse_config`. -/
def parseConfig (config : List (String × JsonValue (Number F))) :
    Except String (ParsedConfig F) := do
  let workflowId ← Releases.parseWorkflowId floats config
  let runInputs ← runInputsOf floats config
  let runMode := textOr floats "all_devices" (getConfig config "run_mode")
  if runMode ∉ runModes then
    .error ("start-workflow: run_mode must be one of " ++ ", ".intercalate runModes)
  let devicesInput := textOr floats "" (getConfig config "devices_input")
  if runMode = "per_device" ∧ devicesInput = "" then
    .error "start-workflow: one run per device needs devices_input to put the device in"
  let (wait, allowPartial, waitSeconds, pollIntervalSeconds, maxRuns) ← Except.mapError
    (fun message => "start-workflow: " ++ message) do
      let wait ← parseBoolFlag floats config "wait" true
      let allowPartial ← parseBoolFlag floats config "allow_partial" false
      let waitSeconds ← parseIntFlag floats config "wait_seconds" ⟨300, by decide⟩
      let pollInterval ← parseIntFlag floats config "poll_interval_seconds" ⟨5, by decide⟩
      let maxRuns ← parseIntFlag floats config "max_runs" ⟨25, by decide⟩
      return (wait, allowPartial, waitSeconds, pollInterval, maxRuns)
  return {
    workflowId, runInputs, devicesInput, perDevice := runMode = "per_device", maxRuns, wait,
    waitSeconds, pollIntervalSeconds, allowPartial, bagName := bagNameOf floats config }

end Configuration

section Groups

/-- The parts of `FailureInfo` that the step fills. -/
structure FailureInfo where
  phase : String
  kind : String
  retryable : Bool := false
  elapsedMs : Option ℕ := none
  deriving DecidableEq

/-- `_Group`. -/
structure Group where
  deviceKeys : List String
  text : Option String
  runId : Option ℤ := none
  status : String := "not_started"
  waited : ℕ := 0
  code : String := ""
  message : String := ""
  failure : Option FailureInfo := none
  accepted : Bool := false
  finished : Bool := false

def Group.reject (group : Group) (code message : String) (failure : FailureInfo) (status : String)
    (waited : ℕ) : Group :=
  { group with accepted := false, finished := true, code, message, failure, status, waited }

structure ChildRunSnapshot where
  runId : ℤ
  status : String
  worstStepStatus : Option String
  stepStatuses : Dict String

def ChildRunSnapshot.isTerminal (snapshot : ChildRunSnapshot) : Bool :=
  snapshot.status ∈ ["success", "failed", "cancelled"]

/-- `_judge`: whether a finished run is accepted, else a code and a message. -/
def judge (snapshot : ChildRunSnapshot) (parsed : ParsedConfig F) (readers : List String) :
    Bool × String × String :=
  let run := "run " ++ toString snapshot.runId
  if snapshot.status ≠ "success" then
    (false, "child_run_" ++ snapshot.status, run ++ " ended with status " ++ snapshot.status)
  else if readers ≠ [] ∧
      ¬ readers.any fun node => snapshot.stepStatuses.get? node = some "success" then
    (false, "child_run_not_applied",
      run ++ " finished, but its step that takes the devices did not run")
  else if snapshot.worstStepStatus ∈ [some "failed", some "skipped"] ∨
      (snapshot.worstStepStatus = some "partial" ∧ parsed.allowPartial = false) then
    (false, "child_run_partial", run ++ " finished, but a step did not succeed for every device")
  else (true, "", "")

variable (parsed : ParsedConfig F)

/-- `_build_groups`. -/
def buildGroups (eligible : Dict DeviceContext) (lines : Dict String) : List Group :=
  let line := fun key => (lines.get? key).getD ""
  if parsed.devicesInput = "" then [{ deviceKeys := eligible.keys, text := none }]
  else if parsed.perDevice then
    eligible.keys.map fun key => { deviceKeys := [key], text := some (line key) }
  else [{ deviceKeys := eligible.keys, text := some ("\n".intercalate (eligible.keys.map line)) }]

/-- What one start of a child run ends in. -/
inductive StartAnswer where
  | run (id : ℤ)
  | engineError
  | domainError (message : String)
  | callerGone

/-- A run that was started, and the devices that were handed to it. -/
structure StartedRun (F : Type) where
  deviceKeys : List String
  runInputs : List (String × JsonValue (Number F))
  runId : ℤ

inductive StepError where
  | valueError (message : String)
  | notFoundError (message : String)

def engineUnavailable (group : Group) : Group :=
  group.reject "engine_unavailable"
    "the workflow execution engine is unavailable; nothing was started"
    { phase := "api", kind := "server_error", retryable := true } "not_started" 0

/-- `_start_groups` from a call on, and the runs that it started. -/
def startGroups (starts : ℕ → StartAnswer) (call : ℕ) (engineDown : Bool) :
    List Group → List (StartedRun F) × Except StepError (List Group)
  | [] => ([], .ok [])
  | group :: groups =>
    if engineDown then
      let (started, result) := startGroups starts call true groups
      (started, result.map (engineUnavailable group :: ·))
    else
      let runInputs := match group.text with
        | some text =>
          if parsed.devicesInput ≠ "" then
            Dict.insertEntry parsed.devicesInput (.str text) parsed.runInputs
          else parsed.runInputs
        | none => parsed.runInputs
      match starts call with
      | .run id =>
        let (started, result) := startGroups starts (call + 1) false groups
        ({ deviceKeys := group.deviceKeys, runInputs, runId := id } :: started,
          result.map ({ group with runId := some id, status := "dispatched" } :: ·))
      | .engineError =>
        let (started, result) := startGroups starts (call + 1) true groups
        (started, result.map (engineUnavailable group :: ·))
      | .domainError message => ([], .error (.valueError ("start-workflow: " ++ message)))
      | .callerGone => ([], .error (.valueError "start-workflow: the calling run no longer exists"))

def Group.isPending (group : Group) : Bool := group.runId.isSome && !group.finished

/-- What a poll changes in a group, if the run still exists. -/
def pollGroup (readers : List String) (waited : ℕ) (group : Group) :
    Option ChildRunSnapshot → Except StepError Group
  | none => .error (.notFoundError "Run not found")
  | some snapshot =>
    if snapshot.isTerminal then
      let (accepted, code, message) := judge snapshot parsed readers
      .ok { group with
        accepted, code, message, status := snapshot.status, waited, finished := true
        failure := if accepted then group.failure else
          some { phase := "task", kind := "task_failed", elapsedMs := some (waited * 1000) } }
    else .ok group

def pollGroups (polls : ℤ → Option ChildRunSnapshot) (readers : List String) (waited : ℕ)
    (groups : List Group) : Except StepError (List Group) :=
  groups.mapM fun group =>
    if group.isPending then
      pollGroup parsed readers waited group (polls (group.runId.getD 0))
    else .ok group

def rejectPending (reject : Group → Group) (groups : List Group) : List Group :=
  groups.map fun group => if group.isPending then reject group else group

def callerCancelled (waited : ℕ) (group : Group) : Group :=
  group.reject "calling_run_cancelled"
    ("the calling run was cancelled while waiting for run " ++ toString (group.runId.getD 0))
    { phase := "task", kind := "task_failed", elapsedMs := some (waited * 1000) }
    "cancelled_parent" waited

def timedOut (waited : ℕ) (group : Group) : Group :=
  group.reject "child_run_timeout"
    ("run " ++ toString (group.runId.getD 0) ++ " was still running after " ++ toString waited ++
      " s; it keeps running in the background")
    { phase := "task", kind := "task_timeout", retryable := true,
      elapsedMs := some (waited * 1000) } "timeout" waited

/-- The rounds of `_wait_for_groups`, with what is found in each round. -/
def waitForGroups (polls : ℕ → ℤ → Option ChildRunSnapshot) (cancelled : ℕ → Bool)
    (readers : List String) (round waited : ℕ) (groups : List Group) :
    Except StepError (List Group) :=
  if groups.any Group.isPending then do
    let groups ← pollGroups parsed (polls round) readers waited groups
    if ¬ groups.any Group.isPending then return groups
    else if cancelled round then return rejectPending (callerCancelled waited) groups
    else if _h : parsed.waitSeconds.1 ≤ waited then return rejectPending (timedOut waited) groups
    else
      let step := min parsed.pollIntervalSeconds.1 (parsed.waitSeconds.1 - waited)
      waitForGroups polls cancelled readers (round + 1) (waited + step) groups
  else .ok groups
termination_by parsed.waitSeconds.1 - waited
decreasing_by
  have := parsed.pollIntervalSeconds.2.1
  omega

end Groups

section Outcomes

structure Outcome extends StepOutcome where
  summary : Option String := none
  failure : Option FailureInfo := none

variable (parsed : ParsedConfig F)

/-- `_with_bag`, for a group with a run. -/
def withBag (group : Group) (device : DeviceContext) : DeviceContext :=
  match group.runId with
  | none => device
  | some id =>
    let bag : Dict Json := .ofPairs [("run_id", .int id), ("workflow_id", .int parsed.workflowId),
      ("status", .str group.status), ("waited_seconds", .int group.waited)]
    { device with attributeBags := device.attributeBags.insert parsed.bagName bag }

def Group.passes (group : Group) : Bool := group.accepted || (!group.finished && group.runId.isSome)

/-- The devices of the groups, each with its group, in the order of the two loops. -/
def handed (devices : Dict DeviceContext) (groups : List Group) :
    List (Group × String × DeviceContext) :=
  groups.flatMap fun group => group.deviceKeys.filterMap fun key =>
    (devices.get? key).map fun device => (group, key, device)

def passedDevices (devices : Dict DeviceContext) (groups : List Group) : Dict DeviceContext :=
  .ofPairs (((handed devices groups).filter fun entry => entry.1.passes).map fun entry =>
    (entry.2.1, withBag parsed entry.1 entry.2.2))

/-- The devices of the groups that fail, after those that were not handed over. -/
def failedDevices (devices : Dict DeviceContext) (groups : List Group)
    (noIdentity : Dict DeviceContext) (nodeId : String) : Dict DeviceContext :=
  noIdentity.update (.ofPairs (((handed devices groups).filter fun entry => !entry.1.passes).map
    fun entry => (entry.2.1, markDeviceFailed (withBag parsed entry.1 entry.2.2) nodeId
      "start-workflow" entry.1.code entry.1.message)))

/-- `_assemble`. -/
def assemble (context : WorkflowContext) (groups : List Group) (noIdentity : Dict DeviceContext)
    (nodeId : String) : List Outcome :=
  let ok := passedDevices parsed context.devices groups
  let failed := failedDevices parsed context.devices groups noIdentity nodeId
  let firstFailure := ((handed context.devices groups).filter fun entry =>
    !entry.1.passes).findSome? fun entry => entry.1.failure
  let success : Outcome :=
    { name := "success", context := { context with devices := ok }
      summary := some (toString ok.keys.length ++ " device(s) passed, " ++
        toString failed.keys.length ++ " failed") }
  let failure : Outcome :=
    { name := "failure", context := { context with devices := failed }
      failure := if ok.isEmpty then firstFailure else none }
  (if ¬ ok.isEmpty ∨ failed.isEmpty then [success] else []) ++
    (if failed.isEmpty then [] else [failure])

def lineOf (device : DeviceContext) : Option String :=
  let ip := String.ofList (pyStrip (bareHostname device.primaryIp4 "").toList)
  deviceLine names (some device.name) (some ip) device.networkDriver device.platform

/-- `_split_by_identity`: the devices to hand over, their lines, and those without a line. -/
def splitByIdentity (context : WorkflowContext) (nodeId : String) :
    Dict DeviceContext × Dict String × Dict DeviceContext :=
  if parsed.devicesInput = "" then (context.devices, ∅, ∅)
  else
    let hasLine := fun key => (context.devices.get? key).any fun device =>
      (lineOf names device).isSome
    (context.devices.restrict hasLine,
      .ofPairs (context.devices.entries.filterMap fun entry =>
        (lineOf names entry.2).map fun line => (entry.1, line)),
      (context.devices.restrict fun key => !hasLine key).mapValues fun device =>
        markDeviceFailed device nodeId "start-workflow" "no_device_identity"
          "the device has no name or IP address the started workflow can use")

end Outcomes

section Execution

/-- The answers of the database: to the check of the target, to the starts, and in each round to
the polls and to the question whether the calling run is cancelled. -/
structure Answers where
  target : Except String (List String)
  starts : ℕ → StartAnswer
  polls : ℕ → ℤ → Option ChildRunSnapshot
  cancelled : ℕ → Bool

structure Execution (F : Type) where
  started : List (StartedRun F)
  result : Except StepError (List Outcome)

def startAndWait (parsed : ParsedConfig F) (answers : Answers) (groups : List Group) :
    List (StartedRun F) × Except StepError (List Group) :=
  match answers.target with
  | .error message => ([], .error (.valueError message))
  | .ok readers =>
    let (started, result) := startGroups parsed answers.starts 0 false groups
    (started, do
      let groups ← result
      if parsed.wait then
        waitForGroups parsed answers.polls answers.cancelled readers 0 0 groups
      else return groups)

/-- `execute`. -/
def execute (config : List (String × JsonValue (Number F))) (context : WorkflowContext)
    (nodeId : String) (answers : Answers) : Execution F :=
  match parseConfig floats config with
  | .error message => ⟨[], .error (.valueError message)⟩
  | .ok parsed =>
    if context.devices.isEmpty then ⟨[], .ok [{ name := "success", context }]⟩
    else
      let (eligible, lines, noIdentity) := splitByIdentity names parsed context nodeId
      if eligible.isEmpty then ⟨[], .ok (assemble parsed context [] noIdentity nodeId)⟩
      else
        let groups := buildGroups parsed eligible lines
        if parsed.maxRuns.1 < groups.length then
          ⟨[], .error (.valueError ("start-workflow: this step would start " ++
            toString groups.length ++ " runs, more than max_runs (" ++
            toString parsed.maxRuns.1 ++
            "); raise max_runs or start one run for all devices"))⟩
        else
          let (started, result) := startAndWait parsed answers groups
          ⟨started, result.map fun groups => assemble parsed context groups noIdentity nodeId⟩

end Execution

end Manus.Children
