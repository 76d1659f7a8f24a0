import Manus.Children.DeviceLines
import Manus.Context.AttributePath
import Manus.Lib.IpAddress

/-! # Replacing the configuration of devices

A device gets a new configuration by a command that it takes back by itself unless the
change is confirmed on the same connection. A diff before may show that there is nothing
to do, and a diff afterwards that something is left. All calls go through a shim that
answers with the output of each command or with errors, for the whole job or for a command.
-/

namespace Manus.ConfigureReplace

open Children (splitLines)

section Texts

/-- `text.lower()`, as far as the markers below go. -/
def lower (text : List Char) : List Char := text.flatMap lowerChar

def archiveNotConfiguredMarker : String := "turn config archive on"

def noPendingRollbackMarker : String := "no rollback confirmed change pending"

def isArchiveNotConfiguredError (message : String) : Bool :=
  decide (archiveNotConfiguredMarker.toList <:+: lower message.toList)

/-- `str(raw_output or "")` -/
def rawText (raw : Option String) : String := raw.getD ""

def hasNoPendingRollback (raw : Option String) : Bool :=
  decide (noPendingRollbackMarker.toList <:+: lower (rawText raw).toList)

local instance linesLawful : LawfulBEq (List Char) := inferInstance

/-- The line says nothing: it is blank or one of the two lines of a diff without changes. -/
def isNoOpLine (line : List Char) : Bool :=
  let stripped := pyStrip line
  let lowered := lower (pyStrip (stripped.dropWhile (· == '!')))
  stripped.isEmpty ||
    lowered ∈ ["contextual config diffs:".toList, "no changes were found".toList]

def diffHasChanges (diffText : String) : Bool :=
  (splitLines [] diffText.toList).any fun line => !isNoOpLine line

end Texts

section Shim

structure CommandEntry where
  error : Option String := none
  raw : Option String := none

structure JobResult where
  success : Bool
  error : Option String := none
  commands : Dict CommandEntry := ∅

/-- The shim refuses a job, or answers it; a missing or empty result counts as none. -/
inductive JobAnswer where
  | apiError (code message : String)
  | response (result : Option JobResult)

def outcomeUnknown : String :=
  " -- the job may still have been applied on the device; check it before re-running"

/-- `value or default`, where an empty text is false. -/
def orElse (value : Option String) (default : String) : String :=
  match value with
  | none | some "" => default
  | some text => text

/-- `_run_shim_job`: the entries of the commands, or the error of the job. -/
def runShimJob : JobAnswer → Except String (Dict CommandEntry)
  | .apiError code message =>
    .error (if code = "timeout" ∨ "timed out".toList <:+: message.toList then
      message ++ outcomeUnknown else message)
  | .response none => .error "pyATS shim reported failure for this device"
  | .response (some result) =>
    if result.success = false then
      .error (orElse result.error "pyATS shim reported failure for this device")
    else .ok result.commands

/-- The error of an entry; a missing entry has none. -/
def errorOf (entries : Dict CommandEntry) (command : String) : Option String :=
  match (entries.get? command).bind CommandEntry.error with
  | some "" => none
  | error => error

/-- The output of an entry; a missing entry has none. -/
def rawOf (entries : Dict CommandEntry) (command : String) : Option String :=
  (entries.get? command).bind CommandEntry.raw

/-- `_run_diff` -/
def runDiff (diffCommand : String) (answer : JobAnswer) : Except String String :=
  match runShimJob answer with
  | .error error => .error error
  | .ok entries =>
    match errorOf entries diffCommand with
    | some error => .error error
    | none => .ok (rawText (rawOf entries diffCommand))

/-- The jobs of one device: each is sent once at most. -/
structure Shim where
  preDiff : JobAnswer
  replace : JobAnswer
  postDiff : JobAnswer

end Shim

section Step

structure Settings where
  destinationFilename : String
  fileSystem : String
  timeoutMinutes : ℕ
  skipIfNoPendingChanges : Bool
  verifyDiffAfterReplace : Bool

/-- What a step run is given besides its settings: the resolved pyATS sources, how a password is
unwrapped, what the shim answers for each device, and the artifact store. -/
structure Environment where
  nodeId : String
  sourceCredentials : List String
  sourceErrors : Dict String
  unwrapSecret : Json → Except String (Option String)
  shim : String → Shim
  store : String → String → String → Except String ArtifactRef

variable (settings : Settings) (env : Environment)

def Settings.target : String := settings.fileSystem ++ settings.destinationFilename

def Settings.diffCommand : String :=
  "show archive config differences system:running-config " ++ settings.target

def Settings.replaceCommand : String :=
  s!"configure replace {settings.target} force time {settings.timeoutMinutes}"

def confirmCommand : String := "configure confirm"

/-- A device at the end, and whether it leaves by `success`. -/
abbrev DeviceResult := DeviceContext × Bool

/-- `_fail_device` -/
def failDevice (device : DeviceContext) (code message : String) : DeviceResult :=
  (markDeviceFailed device env.nodeId "configure-replace-config" code message, false)

/-- `str(bag.get(key) or "")` -/
def bagText (bag : Dict Json) (key : String) : String :=
  match bag.get? key with
  | none => ""
  | some value => if value.truthy then pyStr value else ""

/-- `_prepare_target`: nothing, or the failed device. The password is not used further on. -/
def prepareTarget (device : DeviceContext) : Except String (Option DeviceResult) :=
  match device.attributeBags.get? "pyats_testbed" with
  | none => .ok (some (failDevice env device "missing_testbed"
      "No pyats_testbed bag found -- add an Add Testbed step upstream"))
  | some bag =>
    let sourceId := bagText bag "pyats_source_id"
    match env.sourceErrors.get? sourceId with
    | some error => .ok (some (failDevice env device "source_error" error))
    | none =>
      if sourceId ∉ env.sourceCredentials then
        .ok (some (failDevice env device "source_error"
          ("pyATS source " ++ pyReprJson (.str sourceId) ++ " could not be resolved")))
      else do
        match ← env.unwrapSecret ((bag.get? "password").getD .null) with
        | none | some "" => return some (failDevice env device "missing_credential"
            "pyats_testbed bag has no usable password")
        | some _ => return none

/-- `parsed[node_id][key] = value` -/
def setNodeResult (parsed : Dict Json) (nodeId key : String) (value : Json) : Dict Json :=
  let nodeBag : Dict Json := match parsed.get? nodeId with
    | some (.obj fields) => Dict.ofPairs fields
    | _ => ∅
  parsed.insert nodeId (.obj (nodeBag.insert key value).entries)

/-- `artifact_ref.model_dump(mode="json")` -/
def artifactJson (ref : ArtifactRef) : Json :=
  .obj [("artifact_id", .str ref.artifactId), ("kind", .str ref.kind),
    ("media_type", .str ref.mediaType), ("size_bytes", (ref.sizeBytes.map Json.int).getD .null),
    ("sha256", (ref.sha256.map Json.str).getD .null), ("created_at", .str ref.createdAt)]

/-- A device with a result of this step, as read by later steps. -/
def withResult (device : DeviceContext) (key : String) (entry : Json) : DeviceContext :=
  { device with
    parsed := setNodeResult device.parsed env.nodeId key entry
    capabilities := device.capabilities ∪ {.parsed} }

def deviceWithDiffRefs (device : DeviceContext) (pre post : Option ArtifactRef) : DeviceContext :=
  let refs := (pre.map fun ref => ("pre_diff_artifact_ref", artifactJson ref)).toList ++
    (post.map fun ref => ("post_diff_artifact_ref", artifactJson ref)).toList
  if refs.isEmpty then device
  else withResult env device "configure_replace_diff"
    (.obj (("kind", .str "configure_replace_diff") :: refs))

/-- What the diff before the replace decides. -/
inductive PreDiff where
  | skipped (device : DeviceContext)
  | goOn (ref : Option ArtifactRef)

def preReplaceDiff (deviceId : String) (device : DeviceContext) : Except String PreDiff :=
  match runDiff settings.diffCommand (env.shim deviceId).preDiff with
  | .error _ => .ok (.goOn none)
  | .ok text =>
    if diffHasChanges text = false then
      let entry := Json.obj [("kind", .str "configure_replace"), ("confirmed", .bool false),
        ("skipped", .bool true), ("reason", .str "no_pending_changes"),
        ("destination_filename", .str settings.destinationFilename),
        ("file_system", .str settings.fileSystem),
        ("timeout_minutes", .int settings.timeoutMinutes)]
      .ok (.skipped { withResult env device "configure_replace" entry with status := .ok })
    else
      (env.store deviceId "configure_replace_pre_diff" text).map fun ref => .goOn (some ref)

def failReplace (device : DeviceContext) (error : String) : DeviceResult :=
  if isArchiveNotConfiguredError error then
    failDevice env device "archive_not_configured"
      ("Device rejected 'configure replace' because config archiving is not enabled -- the " ++
        "'time'/Rollback Confirmed Change feature this step relies on requires it. Configure it " ++
        "once on the device, e.g.:\n  archive\n   path flash:archive\nthen retry. See this " ++
        "step's Help panel for details.")
  else failDevice env device "replace_failed"
    ("'configure replace' failed or the connection was lost: " ++ error)

/-- `_replace_and_confirm`: the failed device, or nothing when the replace was confirmed. -/
def replaceAndConfirm (deviceId : String) (device : DeviceContext) : Option DeviceResult :=
  match runShimJob (env.shim deviceId).replace with
  | .error error => some (failReplace env device error)
  | .ok entries =>
    match errorOf entries settings.replaceCommand with
    | some error => some (failReplace env device error)
    | none =>
      match errorOf entries confirmCommand with
      | some error => some (failDevice env device "confirm_failed"
          (s!"'configure replace' succeeded but sending '{confirmCommand}' on the same " ++
            s!"connection failed ({error}); device will auto-revert after " ++
            s!"{settings.timeoutMinutes} minute(s)"))
      | none =>
        if hasNoPendingRollback (rawOf entries confirmCommand) then
          some (failDevice env device "confirm_not_pending"
            ("Device reported no pending Rollback Confirmed Change when " ++
              s!"'{confirmCommand}' was sent -- the timed replace may have already reverted " ++
              "or been confirmed by another session; verify the running configuration manually"))
        else none

/-- `_verify_after_replace` -/
def verifyAfterReplace (deviceId : String) (device : DeviceContext) (pre : Option ArtifactRef) :
    Except String (Option DeviceResult) :=
  match runDiff settings.diffCommand (env.shim deviceId).postDiff with
  | .error error => .ok (some (failDevice env (deviceWithDiffRefs env device pre none)
      "post_verify_failed"
      (s!"'configure confirm' succeeded but the post-replace diff check failed ({error}); the " ++
        s!"running configuration could not be verified against {settings.target}")))
  | .ok text =>
    if diffHasChanges text = false then .ok none
    else (env.store deviceId "configure_replace_post_diff" text).map fun ref =>
      some (failDevice env (deviceWithDiffRefs env device pre (some ref)) "diff_mismatch"
        (s!"Running configuration still differs from {settings.target} after 'configure " ++
          "replace'/'configure confirm' succeeded; see the stored diff artifact (artifact_id=" ++
          s!"{ref.artifactId}) for details"))

def confirmedResult (device : DeviceContext) (pre : Option ArtifactRef) : DeviceResult :=
  let entry := Json.obj [("kind", .str "configure_replace"), ("confirmed", .bool true),
    ("destination_filename", .str settings.destinationFilename),
    ("file_system", .str settings.fileSystem), ("timeout_minutes", .int settings.timeoutMinutes)]
  ({ withResult env (deviceWithDiffRefs env device pre none) "configure_replace" entry with
      status := .ok }, true)

/-- The part of `_process_one_device` after the diff before. -/
def replaceAndVerify (deviceId : String) (device : DeviceContext) (pre : Option ArtifactRef) :
    Except String DeviceResult :=
  match replaceAndConfirm settings env deviceId device with
  | some failed => .ok failed
  | none =>
    if settings.verifyDiffAfterReplace then do
      match ← verifyAfterReplace settings env deviceId device pre with
      | some failed => return failed
      | none => return confirmedResult settings env device pre
    else .ok (confirmedResult settings env device pre)

/-- `_process_one_device`. Whatever raises in it is raised by the whole step. -/
def processOneDevice (deviceId : String) (device : DeviceContext) :
    Except String DeviceResult := do
  match ← prepareTarget env device with
  | some failed => return failed
  | none =>
    if settings.skipIfNoPendingChanges then
      match ← preReplaceDiff settings env deviceId device with
      | .skipped device => return (device, true)
      | .goOn pre => replaceAndVerify settings env deviceId device pre
    else replaceAndVerify settings env deviceId device none

/-- The devices that leave by one of the two outcomes. -/
def partition (results : List (String × DeviceResult)) (ok : Bool) : Dict DeviceContext :=
  Dict.ofPairs ((results.filter fun r => r.2.2 = ok).map fun r => (r.1, r.2.1))

/-- `execute`, with settings that were accepted. The devices do not see each other, so the order in
which their tasks run makes no difference. -/
def execute (context : WorkflowContext) : Except String (List StepOutcome) :=
  if context.devices.isEmpty then .ok [⟨"success", context⟩]
  else do
    let results ← context.devices.entries.mapM fun entry => do
      return (entry.1, ← processOneDevice settings env entry.1 entry.2)
    let success : StepOutcome :=
      ⟨"success", { context with devices := partition results true }⟩
    if (partition results false).isEmpty then return [success]
    else return [success, ⟨"failure", { context with devices := partition results false }⟩]

end Step

end Manus.ConfigureReplace
