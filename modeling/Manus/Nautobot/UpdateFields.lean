import Manus.Expression.Resolvers

/-! # The fields of a device update

A step configures for every field of a device in Nautobot whether it is updated
and by which expression: a fixed text, a path in braces, or the value that Nautobot
itself has. A path that ends at a sealed secret fails the device.
-/

namespace Manus

open Expression

section Origin

def stripEmpty : Json → Option Json
  | .null => none
  | .str text => match pyStrip text.toList with
    | [] => none
    | text => some (.str (String.ofList text))
  | value => some value

/-- The value that stands for a reference: the first of some fields of an object, or any other
value as it is. -/
def referenceCandidate (keys : List String) : Json → Option Json
  | .obj fields => keys.findSome? fun key => stripEmpty (Json.getD key (.obj fields))
  | value => stripEmpty value

/-- A tag of a list: a text, or an object with a name. -/
def tagCandidate : Json → Option Json
  | .str text => stripEmpty (.str text)
  | .obj fields => referenceCandidate ["name", "id"] (.obj fields)
  | _ => none

def deviceFieldKeys : List String :=
  ["name", "location", "serial", "role", "status", "device_type", "platform", "secrets_group",
    "software_version", "asset_tag", "tags", "custom_fields", "primary_ip4", "rack", "position",
    "face"]

def namedReferenceFields : List String :=
  ["location", "role", "status", "platform", "secrets_group", "rack"]

/-- The values of which the text of a field is made; custom fields are taken one by one, and what
is no field has none. -/
def originCandidates (fieldKey : String) (value : Json) : List Json :=
  if fieldKey ∈ namedReferenceFields then (referenceCandidate ["name", "id"] value).toList
  else if fieldKey = "device_type" then (referenceCandidate ["model", "name", "id"] value).toList
  else if fieldKey = "primary_ip4" then (referenceCandidate ["address", "host"] value).toList
  else if fieldKey = "tags" then
    match value with
    | .str text => (stripEmpty (.str text)).toList
    | .arr items => items.filterMap tagCandidate
    | _ => []
  else if fieldKey = "custom_fields" then []
  else if fieldKey ∈ deviceFieldKeys then (stripEmpty value).toList
  else []

/-- The text of a field as it comes from Nautobot. Only tags may have several values. -/
def originText (fieldKey : String) (value : Json) : Except PyException (Option String) := do
  let texts ← (originCandidates fieldKey value).mapM strAny
  if fieldKey = "tags" ∧ isArray value = true then
    match texts.filter fun text => pyStrip text.toList ≠ [] with
    | [] => return none
    | texts => return some (", ".intercalate texts)
  else match texts with
    | [] => return none
    | text :: _ => match pyStrip text.toList with
      | [] => return none
      | text => return some (String.ofList text)

/-- `_stringify_resolved`. -/
def stringifyResolved (value : Json) : Except PyException (Option String) :=
  if isContainer value ∨ value = .null then .ok none
  else (strJson value).map fun text =>
    match pyStrip text.toList with
    | [] => none
    | stripped => some (String.ofList stripped)

def resolveNautobotOrigin (device : DeviceContext) (fieldKey : String)
    (customFieldName : Option String) : Except PyException (Option String) :=
  match device.attributeBags.get? "nautobot" with
  | none => .ok none
  | some bag =>
    if bag.isEmpty then .ok none
    else match customFieldName with
      | some name => match bag.get? "custom_fields" with
        | some (.obj fields) => stringifyResolved (Json.getD name (.obj fields))
        | _ => .ok none
      | none => match bag.get? fieldKey with
        | none => .ok none
        | some value => originText fieldKey value

end Origin

section Expressions

/-- The rest of a default, after the quote that closes it. -/
def closesDefault (text : List Char) : Bool :=
  match text.dropWhile isPySpace with
  | ')' :: rest => rest.dropWhile isPySpace == ['}']
  | _ => false

/-- The text of a default, up to the first quote that can close it. -/
def defaultText (quote : Char) : List Char → Option (List Char)
  | [] => none
  | c :: text =>
    if c = quote ∧ closesDefault text then some []
    else if c = '\n' then none
    else (defaultText quote text).map (c :: ·)

/-- `default('...')` and what closes the expression. -/
def matchDefault (text : List Char) : Option (List Char) :=
  let text := text.dropWhile isPySpace
  if "default(".toList.isPrefixOf text then
    match (text.drop 8).dropWhile isPySpace with
    | quote :: rest => if quote = '\'' ∨ quote = '"' then defaultText quote rest else none
    | [] => none
  else none

/-- A path in braces, with or without a default. The path has no closing brace. -/
def matchBraceExpression : List Char → Option (List Char × Option (List Char))
  | '{' :: rest =>
    let path := rest.takeWhile fun c => c ≠ '}' && c ≠ '|'
    if path = [] then none
    else match rest.dropWhile fun c => c ≠ '}' && c ≠ '|' with
      | ['}'] => some (pyStrip path, none)
      | '|' :: rest => (matchDefault rest).map fun text => (pyStrip path, some text)
      | _ => none
  | _ => none

/-- The text of a path, or else of the raw value there. -/
def resolveAttributePath (env : LookupEnv) (device : DeviceContext) (path : List Char) :
    Except PyException (Option String) := do
  match ← resolveDeviceAttribute device none path with
  | some text => return some text
  | none => stringifyResolved (← resolveDeviceValue device env (String.ofList path))

def resolveUpdateFieldExpression (env : LookupEnv) (device : DeviceContext) (fieldKey : String)
    (rawValue : String) (customFieldName : Option String) : Except PyException (Option String) :=
  match pyStrip rawValue.toList with
  | [] => .ok none
  | expression => match matchBraceExpression expression with
    | none => .ok (some (String.ofList expression))
    | some (path, default) => do
      let resolved ← if path = "nautobot.origin".toList then
          resolveNautobotOrigin device fieldKey customFieldName
        else resolveAttributePath env device path
      return resolved.or (default.map String.ofList)

end Expressions

section Payload

end Payload

end Manus
