import Manus.Expression.Lookup

/-! # Paths of exported files

The name of an exported file is a template whose placeholders are read from the device and from
the item. The text is then made safe, part by part, and once more below the directory of a git
repository, so different names can become one path.
-/

namespace Manus.StoreArtifact

/-- An exception, by the name of its type and its text. -/
structure Raised where
  typeName : String
  message : String
  deriving DecidableEq

def valueError (message : String) : Raised := ⟨"ValueError", message⟩

def resolutionError (message : String) : Raised := ⟨"TemplateResolutionError", message⟩

section Sanitizing

/-- `_INVALID_SEGMENT_CHARS` -/
def isInvalidSegmentChar (c : Char) : Bool :=
  c ∈ ['<', '>', ':', '"', '/', '\\', '|', '?', '*'] || decide (c.toNat < 0x20)

/-- A run of characters becomes one underscore. -/
def replaceInvalid : Bool → List Char → List Char
  | _, [] => []
  | inRun, c :: text =>
    if isInvalidSegmentChar c then
      if inRun then replaceInvalid true text else '_' :: replaceInvalid true text
    else c :: replaceInvalid false text

/-- `replace("..", "_")` -/
def replaceDots : List Char → List Char
  | '.' :: '.' :: text => '_' :: replaceDots text
  | c :: text => c :: replaceDots text
  | [] => []

def stripDots (text : List Char) : List Char :=
  ((text.dropWhile (· == '.')).reverse.dropWhile (· == '.')).reverse

def sanitizePathSegment (segment : List Char) : Except Raised (List Char) :=
  let cleaned := stripDots (pyStrip (replaceDots (replaceInvalid false segment)))
  if cleaned = [] then .error (valueError "path segment is empty after sanitization")
  else .ok cleaned

local instance partsLawful : LawfulBEq (List Char) := inferInstance

def sanitizeRelativePath (path : List Char) : Except Raised (List Char) := do
  let normalized := pyStrip (path.map fun c => if c = '\\' then '/' else c)
  let normalized := if ['.', '/'].isPrefixOf normalized then normalized.drop 2 else normalized
  let normalized := normalized.dropWhile (· == '/')
  let parts := (normalized.splitOn '/').filter fun part => part ≠ [] ∧ part ≠ ['.']
  if parts = [] then throw (valueError "relative path is empty after normalization")
  if ['.', '.'] ∈ parts then
    throw (valueError "relative path must not contain parent directory segments")
  let cleaned ← parts.mapM sanitizePathSegment
  return ['/'].intercalate cleaned

def isSlash (c : Char) : Bool := c == '/' || c == '\\'

end Sanitizing

section Rendering

def isPlaceholderChar (c : Char) : Bool := c.isAlphanum || c == '_' || c == '.'

/-- The key of a placeholder at the start of a text. -/
def placeholderAt : List Char → Option (List Char)
  | '{' :: text =>
    let key := text.takeWhile isPlaceholderChar
    if key ≠ [] ∧ (text.dropWhile isPlaceholderChar).head? = some '}' then some key else none
  | _ => none

/-- `_PLACEHOLDER_RE.sub`, with the characters of a placeholder that are still to be passed. -/
def substitute (replace : List Char → Except Raised (List Char)) :
    ℕ → List Char → Except Raised (List Char)
  | _, [] => .ok []
  | skip + 1, _ :: text => substitute replace skip text
  | 0, c :: text =>
    match placeholderAt (c :: text) with
    | none => (substitute replace 0 text).map (c :: ·)
    | some key => do
      let value ← replace key
      let rest ← substitute replace (key.length + 1) text
      return value ++ rest

def knownNamespaces : List String :=
  ["device", "nautobot", "git", "custom", "run", "command", "parsed"]

def strictNamespaces : List String := ["nautobot", "git", "custom", "command"]

/-- `_traverse_path` -/
def traverse (root : Json) (path : List Char) : Json :=
  (path.splitOn '.').foldl (fun current part => current.getD (String.ofList part)) root

/-- `_stringify` -/
def stringify (value : Json) : Except Raised (List Char) :=
  if isContainer value ∨ value = .null then .ok []
  else match Expression.strJson value with
    | .ok text => .ok (pyStrip text.toList)
    | .error (.valueError message) => .error (valueError message)
    | .error _ => .error (valueError "")

def resolvePlaceholder (context : Json) (key : List Char) : Except Raised (List Char) :=
  match cutAtDot key with
  | some (space, _) =>
    if space ≠ "" ∧ space ∉ knownNamespaces then .ok [] else stringify (traverse context key)
  | none => stringify (traverse context key)

/-- `_validate_strict_resolution` for an empty value. -/
def unresolved (context : Json) (space key : String) : String :=
  let place := "Template placeholder \x7b" ++ key ++ "\x7d "
  if space = "nautobot" ∧ context.getD space = .obj [] then
    place ++ "requires Nautobot attributes, but none are present on this device. Add " ++
      "get-nautobot-attributes upstream."
  else if space = "git" ∧ context.getD space = .obj [] then
    place ++ "requires git attributes, but none are present on this device. Add get-git-devices " ++
      "upstream."
  else if space = "custom" then
    place ++ "resolved empty. Map a column to that custom value in get-git-devices (target " ++
      "custom.<name>) and make sure it is filled."
  else if space = "command" then
    place ++ "resolved empty. Ensure command output is available for this export."
  else
    place ++ "resolved empty. Check the attribute path in the device " ++ space ++
      " attribute bag."

/-- The value that a placeholder is replaced by. -/
def placeholderValue (strict : Bool) (context : Json) (key : List Char) :
    Except Raised (List Char) :=
  match resolvePlaceholder context key, cutAtDot key with
  | .ok [], some (space, _) =>
    if strict ∧ space ∈ strictNamespaces then
      .error (resolutionError (unresolved context space (String.ofList key)))
    else .ok []
  | value, _ => value

/-- `build_template_context` with the values of an item. -/
def exportContext (device : DeviceContext) (env : LookupEnv) (extra : List (String × Json))
    (index : ℕ) : Json :=
  let pick (name key : String) := ((extra.lookup key).map fun value => (name, value)).toList
  let command := pick "name" "command" ++ [("index", .int (index + 1))] ++
    pick "source_step_node_id" "source_step_node_id"
  .obj (((buildTemplateContext device env).insert "command" (.obj command)).insert "parsed"
    (.obj (pick "output_key" "output_key"))).entries

/-- `render_device_template` -/
def renderDeviceTemplate (strict : Bool) (template : List Char) (context : Json) :
    Except Raised (List Char) := do
  let rendered ← substitute (placeholderValue strict context) 0 template
  if pyStrip rendered = [] then
    throw (resolutionError "filename template rendered to an empty string")
  sanitizeRelativePath (pyStrip rendered)

end Rendering

section Sinks

/-- Where the files of a step go. -/
inductive Destination where
  | filesystem
  | git (subdirectory : List Char)

/-- The path below the root of the sink. -/
def Destination.relativePath : Destination → List Char → Except Raised (List Char)
  | .filesystem, path => .ok (path.dropWhile isSlash)
  | .git subdirectory, path =>
    let subdirectory := ((subdirectory.dropWhile isSlash).reverse.dropWhile isSlash).reverse
    let path := path.dropWhile isSlash
    sanitizeRelativePath (if subdirectory = [] then path else subdirectory ++ '/' :: path)

end Sinks

end Manus.StoreArtifact
