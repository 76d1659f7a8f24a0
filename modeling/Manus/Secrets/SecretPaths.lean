import Manus.Store.ExportPath

/-! # Paths of secrets

A step that keeps a secret for every device renders its path from a template, one
segment at a time, and puts an underscore for what the secret manager refuses. A
device whose path an earlier device has fails alone, within one call.
-/

namespace Manus.SecretPaths

open StoreArtifact

section Rendering

/-- `[A-Za-z0-9 _.@=+-]` -/
def isSegmentChar (c : Char) : Bool := c.isAlphanum || c ∈ [' ', '_', '.', '@', '=', '+', '-']

def isPathChar (c : Char) : Bool := isSegmentChar c || c == '/'

/-- Segments that no path may have. -/
def isBadSegment (segment : List Char) : Bool :=
  segment.isEmpty || segment == ['.'] || segment == ['.', '.']

def invalidPath (path : List Char) : StoreArtifact.Raised := valueError
  (s!"invalid secret path {reprText (String.ofList path)}: use letters, digits, space and " ++
    "_ . @ = + - with '/' separators, no empty, '.' or '..' segments")

def validateKvPath (path : List Char) : Except StoreArtifact.Raised (List Char) :=
  if path = [] ∨ path.head? = some '/' ∨ path.all isPathChar = false ∨
      (path.splitOn '/').any isBadSegment then .error (invalidPath path)
  else .ok path

/-- `_SEGMENT_UNSAFE.sub("_", rendered.replace("/", "_"))` -/
def safeSegment (rendered : List Char) : List Char :=
  (rendered.map fun c => if c = '/' then '_' else c).map fun c => if isSegmentChar c then c else '_'

variable (strict : Bool) (device : DeviceContext)

/-- One segment of the template; an empty one is left to the validation. -/
def renderSegment (segment : List Char) (env : LookupEnv) :
    Except StoreArtifact.Raised (List Char) :=
  if pyStrip segment = [] then .ok []
  else (renderDeviceTemplate strict segment (.obj (buildTemplateContext device env).entries)).map
    safeSegment

/-- The path of a device; the moments are those at which its segments are rendered. -/
def renderSecretPath (template : List Char) (moments : ℕ → LookupEnv) :
    Except StoreArtifact.Raised (List Char) := do
  let segments ← (template.splitOn '/').zipIdx.mapM fun segment =>
    renderSegment strict device segment.1 (moments segment.2)
  validateKvPath (['/'].intercalate segments)

end Rendering

section Duplicates

/-- One round of `find_duplicate_keys`: who was first with each key, and who came later. -/
def noteKey (seen : Dict String × Dict String) (item : String × String) :
    Dict String × Dict String :=
  match seen.1.get? item.2 with
  | none => (seen.1.insert item.2 item.1, seen.2)
  | some owner => if owner ≠ item.1 then (seen.1, seen.2.insert item.1 owner) else seen

/-- Every device whose key an earlier one has, with the first that has it. -/
def findDuplicateKeys (items : List (String × String)) : Dict String :=
  (items.foldl noteKey (∅, ∅)).2

end Duplicates

section Resolving

/-- What one call of `resolve_secret_paths` is about. -/
structure Call where
  devices : Dict DeviceContext
  /-- The moments at which the segments of a device are rendered, with the id of the run. -/
  moments : String → ℕ → LookupEnv

abbrev Resolved := Dict String × Dict DeviceContext

variable (strict : Bool) (template : List Char) (nodeId stepId : String) (call : Call)

def pathOf (id : String) (device : DeviceContext) : Except StoreArtifact.Raised (List Char) :=
  renderSecretPath strict device template (call.moments id)

def renderOne (resolved : Resolved) (entry : String × DeviceContext) : Resolved :=
  match pathOf strict template call entry.1 entry.2 with
  | .ok path => (resolved.1.insert entry.1 (String.ofList path), resolved.2)
  | .error e => (resolved.1, resolved.2.insert entry.1
      (markDeviceFailed entry.2 nodeId stepId "invalid_secret_path" e.message))

def sharedMessage (path owner : String) : String :=
  s!"secret path {reprText path} is also used by device {reprText owner}; secret paths are " ++
    "keyed by the rendered template"

/-- A device that came later with its path fails. -/
def failDuplicate (resolved : Resolved) (duplicate : String × String) : Resolved :=
  match call.devices.get? duplicate.1, call.devices.get? duplicate.2 with
  | some device, some owner =>
    (resolved.1.restrict (· ≠ duplicate.1), resolved.2.insert duplicate.1
      (markDeviceFailed device nodeId stepId "duplicate_key"
        (sharedMessage ((resolved.1.get? duplicate.1).getD "") owner.name)))
  | _, _ => resolved

def resolveSecretPaths : Resolved :=
  let rendered := call.devices.entries.foldl (renderOne strict template nodeId stepId call) (∅, ∅)
  (findDuplicateKeys rendered.1.entries).entries.foldl (failDuplicate nodeId stepId call) rendered

end Resolving

end Manus.SecretPaths
