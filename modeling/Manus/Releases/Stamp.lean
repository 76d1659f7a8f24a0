import Manus.Context.AttributePath
import Manus.Lib.Digits
import Manus.Lib.JsonNumber
import Manus.Lib.Steps
import Mathlib.Data.Prod.Lex

/-! # The stamp of a release

A release pins the definition of a workflow, its release settings and the definition
of every workflow it starts, by a hash of the text of all of them. The stamp is stored
with the release and computed again whenever the release is used.
-/

namespace Manus.Releases

section Builtins

inductive ConversionError where
  | typeError
  | valueError
  deriving DecidableEq, Repr

variable {F : Type} (floats : Floats F)

/-- `int(raw)`. -/
def int : JsonValue (Number F) → Except ConversionError ℤ
  | .bool b => .ok (if b then 1 else 0)
  | .num (.int n) => .ok n
  | .num (.float x) => .ok (floats.trunc x)
  | .str text =>
    match intOfText text.toList with
    | some n => .ok n
    | none => .error .valueError
  | .null | .arr _ | .obj _ => .error .typeError

/-- Python truthiness. -/
def truthy : JsonValue (Number F) → Bool
  | .null => false
  | .bool b => b
  | .num (.int n) => n ≠ 0
  | .num (.float x) => floats.whole x ≠ some 0
  | .str text => text ≠ ""
  | .arr items => !items.isEmpty
  | .obj fields => !fields.isEmpty

end Builtins

section Definitions

variable {F : Type}

/-- The columns of a workflow that say what it does. -/
structure Definition (F : Type) where
  canvasNodes : Option (List (JsonValue (Number F)))
  canvasEdges : Option (List (JsonValue (Number F)))
  canvasGroups : Option (List (JsonValue (Number F)))
  staticAttributes : Option (List (JsonValue (Number F)))

/-- The columns that the releaser decides on. -/
structure Settings where
  aiDescription : Option String := none
  aiResultNodeId : Option String := none
  aiDevicesInput : Option String := none
  aiCredentialInputs : Option (List String) := none
  aiAllowFreeIp : Bool := false

structure Workflow (F : Type) where
  id : ℤ
  definition : Definition F
  settings : Settings := {}
  aiReleased : Bool := false
  aiReleaseStamp : Option String := none

def orNull : Option String → JsonValue (Number F)
  | none => .null
  | some text => .str text

/-- `release_settings`. -/
def releaseSettings (settings : Settings) : JsonValue (Number F) :=
  .obj [
    ("description", .str (String.ofList (pyStrip (settings.aiDescription.getD "").toList))),
    ("result_node_id", orNull settings.aiResultNodeId),
    ("devices_input", orNull settings.aiDevicesInput),
    ("credential_inputs", .arr (((settings.aiCredentialInputs.getD []).mergeSort fun a b =>
      decide (a ≤ b)).map .str)),
    ("allow_free_ip", .bool settings.aiAllowFreeIp)]

/-- `_definition`. -/
def Definition.toJson (definition : Definition F) : JsonValue (Number F) :=
  .obj [
    ("nodes", .arr (definition.canvasNodes.getD [])),
    ("edges", .arr (definition.canvasEdges.getD [])),
    ("groups", .arr (definition.canvasGroups.getD [])),
    ("inputs", .arr (definition.staticAttributes.getD []))]

/-- `value.get(key)` of an object; nothing of another value. -/
def get? (key : String) : JsonValue (Number F) → Option (JsonValue (Number F))
  | .obj fields => fields.lookup key
  | _ => none

def startWorkflowKind : String := "start-workflow"

end Definitions

inductive StampError where
  /-- `ReleaseTooLargeError` -/
  | tooLarge
  /-- The configuration of a step is no object. -/
  | attributeError
  deriving DecidableEq, Repr

section Children

variable {F : Type} (floats : Floats F)

/-- `_as_id`. -/
def asId (raw : JsonValue (Number F)) : Option ℤ :=
  match int floats raw with
  | .error _ => none
  | .ok value => if value > 0 then some value else none

/-- The workflow that a node of the canvas starts, if any. -/
def childWorkflowId (node : JsonValue (Number F)) : Except StampError (Option ℤ) :=
  match get? "data" node with
  | some (.obj data) =>
    match data.lookup "kind" with
    | some (.str kind) =>
      if kind ≠ startWorkflowKind then .ok none
      else
        let config := (data.lookup "pluginConfig").getD .null
        if !truthy floats config then .ok (asId floats .null)
        else
          match config with
          | .obj config => .ok (asId floats ((config.lookup "workflow_id").getD .null))
          | _ => .error .attributeError
    | _ => .ok none
  | _ => .ok none

/-- `child_workflow_ids`. -/
def childWorkflowIds (nodes : List (JsonValue (Number F))) : Except StampError (List ℤ) := do
  let found ← nodes.mapM (childWorkflowId floats)
  return found.filterMap id

/-- `_parse_workflow_id` of the step that starts the workflow. -/
def parseWorkflowId (config : List (String × JsonValue (Number F))) : Except String ℤ := do
  let rawId := (config.lookup "workflow_id").getD .null
  let workflowId ←
    match rawId with
    | .null | .str "" => .ok 0
    | raw =>
      match int floats raw with
      | .ok value => .ok value
      | .error _ => .error "start-workflow: workflow_id must be a workflow id"
  if workflowId < 1 then
    .error "start-workflow: select the workflow to start (workflow_id)"
  else return workflowId

/-- The workflow that the step of a node starts when it is run. -/
def startTarget (node : JsonValue (Number F)) : Option ℤ :=
  match get? "data" node with
  | some (.obj data) =>
    match data.lookup "kind", (data.lookup "pluginConfig").getD (.obj []) with
    | some (.str kind), .obj config =>
      if kind = startWorkflowKind then (parseWorkflowId floats config).toOption else none
    | _, _ => none
  | _ => none

end Children

section Stamps

variable {F : Type} (floats : Floats F)

/-- A release can pin at most this many workflows. -/
def maxStampedWorkflows : ℕ := 50

abbrev Loader (F : Type) := ℤ → Option (Definition F)

/-- The definitions found so far, and the ids still to be looked at. -/
def collectFrom (load : Loader F) (queue : List ℤ) (seen : List (ℤ × Option (Definition F))) :
    Except StampError (List (ℤ × Option (Definition F))) :=
  match queue with
  | [] => .ok seen
  | workflowId :: queue =>
    if workflowId ∈ seen.map Prod.fst then collectFrom load queue seen
    else if _hroom : seen.length ≥ maxStampedWorkflows then .error .tooLarge
    else
      match load workflowId with
      | none => collectFrom load queue (seen ++ [(workflowId, none)])
      | some child =>
        match childWorkflowIds floats (child.canvasNodes.getD []) with
        | .error e => .error e
        | .ok ids => collectFrom load (queue ++ ids) (seen ++ [(workflowId, some child)])
termination_by (maxStampedWorkflows - seen.length, queue.length)

/-- `_collect`: the definition of every workflow reachable from the root. -/
def collect (rootId : ℤ) (root : Definition F) (load : Loader F) :
    Except StampError (List (ℤ × Option (Definition F))) := do
  let queue ← childWorkflowIds floats (root.canvasNodes.getD [])
  collectFrom floats load queue [(rootId, some root)]

def entryJson : Option (Definition F) → JsonValue (Number F)
  | none => .null
  | some definition => definition.toJson

def workflowsJson (seen : List (ℤ × Option (Definition F))) : JsonValue (Number F) :=
  .obj (seen.map fun entry => (String.ofList (intText entry.1), entryJson entry.2))

/-- `compute_stamp`, with the hash of a text. -/
def computeStamp (hash : List Char → String) (rootId : ℤ) (root : Definition F)
    (settings : Settings) (load : Loader F) : Except StampError String := do
  let seen ← collect floats rootId root load
  let payload : JsonValue (Number F) :=
    .obj [("settings", releaseSettings settings), ("workflows", workflowsJson seen)]
  return hash (payload.dumps floats.numberText)

abbrev Store (F : Type) := ℤ → Option (Workflow F)

def Store.loader (store : Store F) : Loader F := fun id => (store id).map Workflow.definition

/-- `release_is_current`. -/
def releaseIsCurrent (hash : List Char → String) (workflow : Workflow F) (store : Store F) :
    Except StampError Bool :=
  match workflow.aiReleaseStamp with
  | none => .ok false
  | some stored =>
    if !workflow.aiReleased || stored == "" then .ok false
    else
      match computeStamp floats hash workflow.id workflow.definition workflow.settings
        store.loader with
      | .error .tooLarge => .ok false
      | .error e => .error e
      | .ok current => .ok (stored == current)

end Stamps

section Runs

variable {F : Type} (floats : Floats F) (hash : List Char → String)

/-- The workflows, and for each stamp the workflows as they were when it was written. -/
structure ReleaseState (F : Type) where
  workflows : Store F := fun _ => none
  stampedAt : ℤ → Option (Store F) := fun _ => none

inductive Move (F : Type) where
  /-- A workflow is created, changed in any way, or deleted (no row). -/
  | edit (id : ℤ) (row : Option (Workflow F))
  | release (id : ℤ) (settings : Settings)

/-- The row keeps the id, and has no stamp but the one it had. -/
def Keeps (id : ℤ) (before row : Option (Workflow F)) : Bool :=
  row.all fun row => row.id == id &&
    (row.aiReleaseStamp.isNone || before.any fun b => b.aiReleaseStamp == row.aiReleaseStamp)

/-- `release_for_ai`, of a workflow that may be released. -/
def released (row : Workflow F) (settings : Settings) (stamp : String) : Workflow F :=
  { row with settings, aiReleased := true, aiReleaseStamp := some stamp }

def step (s : ReleaseState F) : Move F → Option (ReleaseState F)
  | .edit id row =>
    if Keeps id (s.workflows id) row then
      some { s with workflows := Function.update s.workflows id row }
    else none
  | .release id settings => do
    let row ← s.workflows id
    match computeStamp floats hash row.id row.definition settings s.workflows.loader with
    | .error _ => return s
    | .ok stamp =>
      let workflows := Function.update s.workflows id (some (released row settings stamp))
      return { workflows, stampedAt := Function.update s.stampedAt id (some workflows) }

end Runs

end Manus.Releases
