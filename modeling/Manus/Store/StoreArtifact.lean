import Manus.Lib.IpAddress
import Manus.Store.ExportPath

/-! # The store-artifact step

Every device has a task of its own that writes its items one after another, up to the first that
fails; the tasks write in any order. A write into a git working tree is one step, one into a
directory empties the file first and fills it later. Then the files in a git working tree are
committed, unless no device is left in success, the lock is lost or the message cannot be made.
-/

namespace Manus.StoreArtifact

section Items

/-- An item of a device, with the moment its name is rendered at and how its steps end. -/
structure ExportItem where
  kind : String
  extra : List (String × Json)
  env : LookupEnv
  content : Except Raised String
  /-- A write that breaks off may leave a text in the file. -/
  written : Except (Raised × Option String) Unit

structure StoreConfig where
  contentSource : String
  filenameTemplate : String
  strictTemplates : Bool
  destination : Destination

/-- What an item came to: the file that was left and the text in it. -/
inductive Attempt where
  | wrote (path : List Char) (content : String) (item : ExportItem)
  | broke (path : List Char) (left : String) (e : Raised)
  | failed (e : Raised)

variable (config : StoreConfig) (device : DeviceContext)

/-- `_relative_export_path`, and the path that the sink makes of it. -/
def exportPath (index : ℕ) (item : ExportItem) : Except Raised (List Char) := do
  let path ← renderDeviceTemplate config.strictTemplates config.filenameTemplate.toList
    (exportContext device item.env item.extra index)
  config.destination.relativePath path

/-- One round of the loop of `_store_for_device`. -/
def attempt (index : ℕ) (item : ExportItem) : Attempt :=
  match item.content with
  | .error e => .failed e
  | .ok content =>
    match exportPath config device index item, item.written with
    | .error e, _ => .failed e
    | .ok path, .ok () => .wrote path content item
    | .ok path, .error (e, some left) => .broke path left e
    | .ok _, .error (e, none) => .failed e

/-- The attempts of a device, up to the first that fails. -/
def attemptsFrom : ℕ → List ExportItem → List Attempt
  | _, [] => []
  | index, item :: items =>
    match attempt config device index item with
    | .wrote path content item => .wrote path content item :: attemptsFrom (index + 1) items
    | other => [other]

end Items

local instance pathsLawful : LawfulBEq (List Char) := inferInstance

section Tasks

/-- A device of the context with what it exports. -/
structure DeviceTask where
  device : DeviceContext
  items : List ExportItem

variable (config : StoreConfig)

def DeviceTask.attempts (task : DeviceTask) : List Attempt :=
  attemptsFrom config task.device 0 task.items

section Orders

variable {α : Type}

def takeNext (id : String) : List (String × List α) → Option (α × List (String × List α))
  | [] => none
  | (id', steps) :: rest =>
    match steps with
    | step :: steps =>
      if id' = id then some (step, (id', steps) :: rest)
      else (takeNext id rest).map fun found => (found.1, (id', step :: steps) :: found.2)
    | [] => (takeNext id rest).map fun found => (found.1, (id', []) :: found.2)

/-- The steps in the order in which the devices come to them; the rest follows in order. -/
def interleave : List String → List (String × List α) → List (String × α)
  | [], tasks => tasks.flatMap fun task => task.2.map fun step => (task.1, step)
  | id :: order, tasks =>
    match takeNext id tasks with
    | none => interleave order tasks
    | some (step, tasks) => (id, step) :: interleave order tasks

end Orders

/-- What an attempt leaves in a file. -/
def Attempt.left : Attempt → Option (List Char × String)
  | wrote path content _ => some (path, content)
  | broke path left _ => some (path, left)
  | failed _ => none

abbrev Files := List Char → Option String

def writeFile (files : Files) (entry : String × Attempt) : Files :=
  match entry.2.left with
  | some (path, text) => Function.update files path (some text)
  | none => files

def writeFiles (files : Files) (events : List (String × Attempt)) : Files :=
  events.foldl writeFile files

/-- The parts of a write into a directory. -/
inductive Part where
  | opens (path : List Char)
  | puts (path : List Char) (text : String)

def Attempt.parts (attempt : Attempt) : List Part :=
  match attempt.left with
  | some (path, text) => [.opens path, .puts path text]
  | none => []

def Part.path : Part → List Char
  | opens path => path
  | puts path _ => path

/-- Opening a file empties it; the end of a longer text that another write has put there stays
(counted in characters). -/
def Part.apply (held : Option String) : Part → Option String
  | opens _ => some ""
  | puts _ text =>
    some (String.ofList (text.toList ++ (held.getD "").toList.drop text.toList.length))

def applyParts (files : Files) (events : List (String × Part)) : Files :=
  events.foldl (fun files event =>
    Function.update files event.2.path (event.2.apply (files event.2.path))) files

/-- `_written_paths`: a path is added when its write returns. -/
def writtenPaths : List (List Char) → List (String × Attempt) → List (List Char)
  | paths, [] => paths
  | paths, (_, .wrote path _ _) :: events =>
    writtenPaths (if path ∈ paths then paths else paths ++ [path]) events
  | paths, _ :: events => writtenPaths paths events

structure StoredRecord where
  deviceId : String
  contentSource : String
  kind : String
  path : List Char
  destination : String
  sizeBytes : ℕ
  sha256 : String
  extra : List (String × Json)

def Destination.name : Destination → String
  | filesystem => "filesystem"
  | git _ => "git"

variable (sha256 : String → String)

def recordOf (id : String) : Attempt → Option StoredRecord
  | .wrote path content item =>
    some ⟨id, config.contentSource, item.kind, path, config.destination.name, content.utf8ByteSize,
      sha256 content, item.extra⟩
  | _ => none

/-- `_device_failure` -/
def deviceFailure (nodeId : String) (device : DeviceContext) (code message : String) :
    DeviceContext :=
  { device with
    status := .failed
    errors := device.errors ++ [⟨nodeId, "store-artifact", code, message⟩] }

def failureOf (attempts : List Attempt) : Option Raised :=
  attempts.findSome? fun
    | .wrote _ _ _ => none
    | .broke _ _ e => some e
    | .failed e => some e

/-- The device as the task of `_store_for_device` leaves it, and whether it succeeded. -/
def storeForDevice (nodeId id : String) (task : DeviceTask) : DeviceContext × Bool :=
  if task.items = [] then
    (deviceFailure nodeId task.device "missing_content"
      (s!"No '{config.contentSource}' content available for device {id}. " ++
        "Ensure an upstream step produced the selected data."), false)
  else match failureOf (task.attempts config) with
    | some e => (deviceFailure nodeId task.device e.typeName.toLower e.message, false)
    | none => ({ task.device with status := .ok }, true)

end Tasks

section Git

/-- How the parts of the finalizing end. -/
structure GitAnswers where
  prepare : Except Raised Unit
  lease : Except Raised Unit
  message : Except Raised String
  commit : Except Raised Unit
  push : Except Raised Unit

/-- The files of a working tree and those of its last commit. -/
structure Tree where
  work : Files
  head : Files

variable (commitAfterWrite pushAfterWrite : Bool) (answers : GitAnswers)

/-- A commit takes all the given files. -/
def Tree.commit (tree : Tree) (paths : List (List Char)) : Tree :=
  { tree with head := fun path => if path ∈ paths then tree.work path else tree.head path }

/-- `finalize`; the push is skipped where the commit changed nothing. -/
def finalize (paths : List (List Char)) (tree : Tree) : Except Raised Unit × Tree :=
  if commitAfterWrite then
    match answers.commit with
    | .error e => (.error e, tree)
    | .ok () =>
      let changed := paths.any fun path => tree.work path ≠ tree.head path
      (if pushAfterWrite ∧ changed then answers.push else .ok (), tree.commit paths)
  else (if pushAfterWrite then answers.push else .ok (), tree)

/-- `_finalize_git_sink` where there are written files and devices in success. -/
def finalizeGitSink (paths : List (List Char)) (tree : Tree) : Except Raised Unit × Tree :=
  match answers.lease, answers.message with
  | .error e, _ => (.error e, tree)
  | .ok (), .error e => (.error e, tree)
  | .ok (), .ok _ => finalize commitAfterWrite pushAfterWrite answers paths tree

end Git

section Step

structure StoreOutcome where
  success : List (String × DeviceContext)
  failure : List (String × DeviceContext)
  stored : List StoredRecord
  tree : Tree

variable (config : StoreConfig) (sha256 : String → String) (nodeId : String)
  (commitAfterWrite pushAfterWrite : Bool) (answers : GitAnswers)

def allAttempts (tasks : Dict DeviceTask) : List (String × List Attempt) :=
  tasks.entries.map fun task => (task.1, task.2.attempts config)

/-- The attempts of a step, in the order in which they are made. -/
def eventsOf (tasks : Dict DeviceTask) (order : List String) : List (String × Attempt) :=
  interleave order (allAttempts config tasks)

/-- The files after the writes. -/
def writtenFiles (tasks : Dict DeviceTask) (order : List String) (files : Files) : Files :=
  match config.destination with
  | .filesystem => applyParts files (interleave order
      ((allAttempts config tasks).map fun task => (task.1, task.2.flatMap Attempt.parts)))
  | .git _ => writeFiles files (eventsOf config tasks order)

/-- The devices that left their tasks in success, or in failure. -/
def partitionResults (tasks : Dict DeviceTask) (ok : Bool) : List (String × DeviceContext) :=
  tasks.entries.filterMap fun task =>
    let result := storeForDevice config nodeId task.1 task.2
    if result.2 = ok then some (task.1, result.1) else none

def storedRecords (tasks : Dict DeviceTask) : List StoredRecord :=
  tasks.entries.flatMap fun task =>
    (task.2.attempts config).filterMap (recordOf config sha256 task.1)

/-- `execute` on a git working tree, or on a directory of the file system. -/
def storeArtifact (tasks : Dict DeviceTask) (order : List String) (tree : Tree) : StoreOutcome :=
  match config.destination, answers.prepare with
  | .git _, .error e =>
    { success := []
      failure := tasks.entries.map fun task =>
        (task.1, deviceFailure nodeId task.2.device e.typeName.toLower e.message)
      stored := []
      tree := tree }
  | destination, _ =>
    let events := eventsOf config tasks order
    let success := partitionResults config nodeId tasks true
    let failure := partitionResults config nodeId tasks false
    let stored := storedRecords config sha256 tasks
    let tree := { tree with work := writtenFiles config tasks order tree.work }
    let paths := writtenPaths [] events
    if destination.name = "filesystem" ∨ paths = [] ∨ success = [] then
      { success, failure, stored, tree }
    else
      match finalizeGitSink commitAfterWrite pushAfterWrite answers paths tree with
      | (.ok (), tree) => { success, failure, stored, tree }
      | (.error e, tree) =>
        { success := []
          failure := failure ++ success.map fun r =>
            (r.1, deviceFailure nodeId r.2 e.typeName.toLower e.message)
          stored := stored
          tree := tree }

end Step

end Manus.StoreArtifact
