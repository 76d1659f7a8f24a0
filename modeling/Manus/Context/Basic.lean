import Manus.Canvas.Resolution
import Mathlib.Data.Finset.Basic

/-! # The workflow envelope

Every edge of a workflow carries one envelope: the devices with what the steps
learned about them, the commands they queued and free-form metadata.
-/

namespace Manus

inductive DeviceStatus where
  | pending
  | ok
  | failed
  | skipped
  deriving DecidableEq, Repr

def DeviceStatus.value : DeviceStatus → String
  | .pending => "pending"
  | .ok => "ok"
  | .failed => "failed"
  | .skipped => "skipped"

/-- Pointer to content stored outside the envelope. -/
structure ArtifactRef where
  artifactId : String
  kind : String
  mediaType : String := "text/plain"
  sizeBytes : Option ℤ := none
  sha256 : Option String := none
  createdAt : String := ""
  deriving DecidableEq

/-- Metadata of one command a step ran on a device. -/
structure CommandResult where
  nodeId : String
  command : String
  success : Bool
  executedAt : String := ""
  outputRef : Option ArtifactRef := none
  summary : Option String := none
  deriving DecidableEq

/-- One outbound call a step made for a device. -/
structure RequestRecord where
  target : String
  method : String
  endpoint : String
  request : Json := .null
  response : Json := .null
  ok : Bool := true
  sentAt : String := ""

/-- Field by field, with Python equality of the two payloads. -/
def RequestRecord.pyEq (l r : RequestRecord) : Bool :=
  l.target == r.target && l.method == r.method && l.endpoint == r.endpoint &&
    Json.pyEq l.request r.request && Json.pyEq l.response r.response && l.ok == r.ok &&
    l.sentAt == r.sentAt

/-- An error a step or a merge recorded on a device. How the error is classified is left out. -/
structure DeviceError where
  nodeId : String
  stepId : String
  code : String
  message : String
  deriving DecidableEq

/-- Everything the workflow knows about one device. -/
structure DeviceContext where
  id : String
  name : String
  hostname : String
  platform : Option String := none
  networkDriver : Option String := none
  primaryIp4 : Option String := none
  source : String := ""
  sourceId : String := ""
  attributeBags : Dict (Dict Json) := ∅
  runningConfigRef : Option ArtifactRef := none
  startupConfigRef : Option ArtifactRef := none
  parsed : Dict Json := ∅
  commandResults : Dict (List CommandResult) := ∅
  dryRunResults : Dict Json := ∅
  requests : Dict (List RequestRecord) := ∅
  capabilities : Finset Capability := ∅
  status : DeviceStatus := .pending
  errors : List DeviceError := []

/-- `mark_device_failed` -/
def markDeviceFailed (device : DeviceContext) (nodeId stepId code message : String) :
    DeviceContext :=
  { device with
    status := .failed
    errors := device.errors ++ [⟨nodeId, stepId, code, message⟩] }

/-- The single envelope that flows along every edge. -/
structure WorkflowContext where
  runId : String
  workflowId : String
  schemaVersion : ℕ := 2
  devices : Dict DeviceContext := ∅
  pendingCommands : Dict (Dict (List String)) := ∅
  metadata : Dict Json := ∅

/-- A named exit of a step, with the envelope that leaves by it. -/
structure StepOutcome where
  name : String
  context : WorkflowContext

namespace WorkflowContext

/-- Whether every device has the capability; vacuous without devices. -/
def providesCapability (ctx : WorkflowContext) (c : Capability) : Bool :=
  ctx.devices.values.all fun d => decide (c ∈ d.capabilities)

/-- Whether every device has the parser key; false without devices. -/
def providesParsedKey (ctx : WorkflowContext) (key : String) : Bool :=
  !ctx.devices.isEmpty && ctx.devices.values.all fun d => decide (key ∈ d.parsed.keys)

end WorkflowContext

end Manus
