import Manus.Secrets.Redaction
import Mathlib.Data.List.DropRight

/-! # Attribute paths

A dot path names a value of a device: a scalar of its own, or one inside its
attribute bags or its parsed data. A segment may pick an item of a list, by its
position or by the value of one of its fields, and a selector may hold a path of
its own in braces. Here is what a path is made of and the values that it starts from.
-/

namespace Manus

section Texts

/-- `text.strip()`. -/
def pyStrip (text : List Char) : List Char :=
  ((text.dropWhile isPySpace).reverse.dropWhile isPySpace).reverse

theorem pyStrip_eq (text : List Char) :
    pyStrip text = (text.dropWhile isPySpace).rdropWhile isPySpace := rfl

theorem pyStrip_pyStrip (text : List Char) : pyStrip (pyStrip text) = pyStrip text := by
  have hfront : (pyStrip text).dropWhile isPySpace = pyStrip text := by
    rw [List.dropWhile_eq_self_iff]
    intro hlong
    have hprefix := List.rdropWhile_prefix isPySpace (text.dropWhile isPySpace)
    have hpos : 0 < (text.dropWhile isPySpace).length := hlong.trans_le hprefix.length_le
    have hhead : (pyStrip text)[0] = (text.dropWhile isPySpace)[0] := hprefix.getElem hlong
    rw [hhead]
    exact List.dropWhile_get_zero_not isPySpace text hpos
  rw [pyStrip_eq (pyStrip text), hfront]
  exact List.rdropWhile_idempotent _ _

theorem mem_of_mem_pyStrip {c : Char} {text : List Char} (h : c ∈ pyStrip text) : c ∈ text := by
  rw [pyStrip, List.mem_reverse] at h
  have hback := List.mem_reverse.mp ((List.dropWhile_suffix _).subset h)
  exact (List.dropWhile_suffix _).subset hback

def escapeChar (quote c : Char) : List Char :=
  if c = quote ∨ c = '\\' then ['\\', c]
  else if c = '\n' then ['\\', 'n']
  else if c = '\r' then ['\\', 'r']
  else if c = '\t' then ['\\', 't']
  else [c]

/-- `repr(text)`: double quotes where the text has single ones only. -/
def reprText (text : String) : String :=
  let quote := if '\'' ∈ text.toList ∧ '"' ∉ text.toList then '"' else '\''
  String.ofList (quote :: text.toList.flatMap (escapeChar quote) ++ [quote])

mutual

def pyReprJson : Json → String
  | .null => "None"
  | .bool b => if b then "True" else "False"
  | .int n => toString n
  | .str text => reprText text
  | .arr items => "[" ++ ", ".intercalate (pyReprItems items) ++ "]"
  | .obj fields => "\x7b" ++ ", ".intercalate (pyReprFields fields) ++ "\x7d"

def pyReprItems : List Json → List String
  | [] => []
  | v :: vs => pyReprJson v :: pyReprItems vs

def pyReprFields : List (String × Json) → List String
  | [] => []
  | (k, v) :: fields => (reprText k ++ ": " ++ pyReprJson v) :: pyReprFields fields

end

/-- `str(value)`. -/
def pyStr : Json → String
  | .str text => text
  | value => pyReprJson value

end Texts

section Scalars

def deviceScalarFields : List String :=
  ["id", "name", "hostname", "platform", "network_driver", "primary_ip4", "source", "source_id"]

def deviceReadableScalarFields : List String :=
  ["id", "name", "hostname", "platform", "network_driver", "primary_ip4", "source", "source_id",
    "primary_ip4_cidr"]

def optionalText : Option String → Json
  | none => .null
  | some text => .str text

/-- `device_scalar(device, name)` for a name that can be read. -/
def deviceScalar (device : DeviceContext) : String → Json
  | "id" => .str device.id
  | "name" => .str device.name
  | "hostname" => .str device.hostname
  | "platform" => optionalText device.platform
  | "network_driver" => optionalText device.networkDriver
  | "primary_ip4" => optionalText ((device.primaryIp4.filter (· ≠ "")).map fun address =>
      String.ofList (address.toList.takeWhile (· ≠ '/')))
  | "primary_ip4_cidr" => optionalText device.primaryIp4
  | "source" => .str device.source
  | "source_id" => .str device.sourceId
  | _ => .null

end Scalars

section Segments

def isBracket (c : Char) : Bool := c == '[' || c == ']'

/-- Key and selector of `key[selector]`. -/
def selectorOf (text : List Char) : Option (List Char × List Char) :=
  let key := text.takeWhile fun c => !isBracket c
  match text.dropWhile fun c => !isBracket c with
  | '[' :: rest =>
    let selector := rest.takeWhile fun c => !isBracket c
    let closing := rest.dropWhile fun c => !isBracket c
    if key ≠ [] ∧ (closing = [']'] ∨ closing = [']', '\n']) then some (key, selector) else none
  | _ => none

/-- `_split_path_segments`, with the brackets that are open and the segment so far. -/
def splitPathSegments (depth : ℕ) (current : List Char) : List Char → List (List Char)
  | [] => [current]
  | c :: text =>
    if c = '[' then splitPathSegments (depth + 1) (current ++ [c]) text
    else if c = ']' then splitPathSegments (depth - 1) (current ++ [c]) text
    else if c = '.' ∧ depth = 0 then current :: splitPathSegments depth [] text
    else splitPathSegments depth (current ++ [c]) text

end Segments

section Traversal

def isContainer : Json → Bool
  | .arr _ => true
  | .obj _ => true
  | _ => false

def isArray : Json → Bool
  | .arr _ => true
  | _ => false

def isObject : Json → Bool
  | .obj _ => true
  | _ => false

def fieldsOf : Json → List (String × Json)
  | .obj fields => fields
  | _ => []

/-- `value.get(key)`, with null for what is not there. -/
def Json.getD (key : String) (value : Json) : Json := (value.get? key).getD .null

def traverseKeys (keys : List String) (value : Json) : Json :=
  keys.foldl (fun value key => value.getD key) value

/-- A list of one scalar is the scalar. -/
def unwrapSingletonList : Json → Json
  | .arr [item] => if isContainer item then .arr [item] else item
  | value => value

end Traversal

section Placeholders

/-- What stands before the brace that closes, and what follows it. -/
def matchingBrace (depth : ℕ) : List Char → Option (List Char × List Char)
  | [] => none
  | c :: text =>
    if c = '}' ∧ depth = 0 then some ([], text)
    else
      let depth := if c = '{' then depth + 1 else if c = '}' then depth - 1 else depth
      (matchingBrace depth text).map fun r => (c :: r.1, r.2)

end Placeholders

section Resolution

variable (device : DeviceContext)

/-- The first segment of a dotted path and the rest of it. -/
def cutAtDot (path : List Char) : Option (String × List Char) :=
  match path.dropWhile (· ≠ '.') with
  | [] => none
  | _ :: rest => some (String.ofList (path.takeWhile (· ≠ '.')), rest)

/-- What a lookup takes from its surroundings: the clock and the run. -/
structure LookupEnv where
  timestamp : String
  date : String
  runId : Option String

def capabilitiesInOrder : List Capability :=
  [.attributes, .identity, .nautobotJob, .parsed, .pendingCommands, .pyatsTestbed, .runningConfig,
    .startupConfig]

def bagOrEmpty (bagName : String) : Json :=
  .obj (((device.attributeBags.get? bagName).getD ∅).entries)

def scalarOrEmpty (name : String) : Json :=
  match deviceScalar device name with
  | .null => .str ""
  | value => value

def buildTemplateContext (env : LookupEnv) : Dict Json := Dict.ofPairs
  [("device", .obj ([("name", .str device.name), ("hostname", .str device.hostname),
      ("id", .str device.id), ("primary_ip4", scalarOrEmpty device "primary_ip4"),
      ("primary_ip4_cidr", scalarOrEmpty device "primary_ip4_cidr"),
      ("platform", scalarOrEmpty device "platform"),
      ("network_driver", scalarOrEmpty device "network_driver"), ("source", .str device.source),
      ("source_id", .str device.sourceId)])),
    ("nautobot", bagOrEmpty device "nautobot"), ("git", bagOrEmpty device "git"),
    ("custom", bagOrEmpty device "custom"),
    ("run", .obj [("id", .str (env.runId.getD "")), ("timestamp", .str env.timestamp),
      ("date", .str env.date)]),
    ("command", .obj []), ("parsed", .obj [])]

def buildDeviceValueContext (env : LookupEnv) : Dict Json :=
  let context := device.attributeBags.entries.foldl (fun context bag =>
    if (context.get? bag.1).isSome then context else context.insert bag.1 (.obj bag.2.entries))
    (buildTemplateContext device env)
  let context := if device.parsed.isEmpty then context
    else context.insert "parsed" (.obj device.parsed.entries)
  (context.insert "capabilities" (.arr ((capabilitiesInOrder.filter (· ∈ device.capabilities)).map
    fun c => .str c.value))).insert "status" (.str device.status.value)

end Resolution

end Manus
