import Manus.Expression.Lookup

/-! # Writing an attribute

A path is written into a bag of the device: the objects on its way are made where they
are missing, and a selector picks the item of a list that is written into, or appends
one. The fields of the device itself are written by name, except those that are fixed.
-/

namespace Manus.Expression

section Items

/-- A list around the item that is picked. -/
structure Picked where
  before : List Json
  target : List (String × Json)
  after : List Json

/-- Whether an item is the one that a write looks for. -/
def writeMatches (field wanted : String) : Json → Except PyException Bool
  | .obj fields => (strAny (Json.getD field (.obj fields))).map (· == wanted)
  | _ => .ok false

/-- The first item that a write looks for, unless there is none. -/
def pickItem (field wanted : String) : List Json → Except PyException (Option Picked)
  | [] => .ok none
  | item :: items => do
    match ← writeMatches field wanted item, item with
    | true, .obj target => return some ⟨[], target, items⟩
    | _, _ =>
      let picked ← pickItem field wanted items
      return picked.map fun picked => { picked with before := item :: picked.before }

def fieldsOf : Option Json → List (String × Json)
  | some (.obj fields) => fields
  | _ => []

/-- `selector.group(0)`. -/
def selectorText (key : String) (field : List String) (wanted : String) : String :=
  key ++ "[" ++ ".".intercalate field ++ "=" ++ wanted ++ "]"

/-- The checks of a selector; what is left of it is the flat field that it tests. -/
def writableField (key : String) (field : List String) (wanted : String)
    (rest : List (List Char)) : Except PyException String :=
  let selector := selectorText key field wanted
  if pyStrip wanted.toList = [] then
    .error (.valueError ("selector " ++ reprText selector ++
      " needs a field and a non-empty value"))
  else match field with
    | [name] =>
      if rest = [] then
        .error (.valueError ("selector " ++ reprText selector ++
          " must be followed by the field to write (for example " ++ selector ++ ".mac_address)"))
      else .ok (String.ofList (pyStrip name.toList))
    | _ =>
      .error (.valueError ("selector " ++ reprText selector ++
        ": a write needs a flat field, not the path " ++
        reprText (String.ofList (pyStrip (".".intercalate field).toList))))

/-- The list that a selector picks from. -/
def itemsOf (key : String) (field : List String) (wanted : String) :
    Option Json → Except PyException (List Json)
  | none | some .null => .ok []
  | some (.arr items) => .ok items
  | _ => .error (.valueError (reprText key ++ " is not a list, so " ++
      reprText (selectorText key field wanted) ++ " cannot select an item"))

end Items

section Segments

/-- The entry that writing a value at a path sets in an object. -/
def writtenEntry (value : Json) :
    List (List Char) → List (String × Json) → Except PyException (String × Json)
  | [], _ => .error (.indexError "list index out of range")
  | part :: rest, fields =>
    match pathSegment part with
    | .index _ _ =>
      .error (.valueError ("path segment " ++ reprText (String.ofList part) ++
        ": a write cannot target a list position; select the item by a field instead " ++
        "(for example interfaces[name=Gi0/0])"))
    | .filter key field wanted => do
      let flat ← writableField key field wanted rest
      let items ← itemsOf key field wanted (fields.lookup key)
      match ← pickItem flat wanted items with
      | some picked =>
        let entry ← writtenEntry value rest picked.target
        return (key, .arr (picked.before ++
          .obj (Dict.insertEntry entry.1 entry.2 picked.target) :: picked.after))
      | none =>
        let created := [(flat, .str wanted)]
        let entry ← writtenEntry value rest created
        return (key, .arr (items ++ [.obj (Dict.insertEntry entry.1 entry.2 created)]))
    | .key key =>
      match rest with
      | [] => .ok (key, value)
      | _ :: _ => do
        let inner := fieldsOf (fields.lookup key)
        let entry ← writtenEntry value rest inner
        return (key, .obj (Dict.insertEntry entry.1 entry.2 inner))

end Segments

section Devices

def readOnlyDeviceFields : List String := ["id", "source", "source_id"]

/-- Namespaces that are filled by the engine only. -/
def reservedBagNames : List String := ["parsed", "run_input"]

def withAttributes (device : DeviceContext) : DeviceContext :=
  { device with capabilities := insert .attributes device.capabilities }

/-- A device with another text in one of its own fields. -/
def setScalar (device : DeviceContext) (field text : String) : DeviceContext :=
  match field with
  | "name" => { device with name := text }
  | "hostname" => { device with hostname := text }
  | "platform" => { device with platform := some text }
  | "network_driver" => { device with networkDriver := some text }
  | "primary_ip4" => { device with primaryIp4 := some text }
  | _ => device

def setDeviceScalar (device : DeviceContext) (field text : String) :
    Except PyException DeviceContext :=
  if field ∈ readOnlyDeviceFields then
    .error (.valueError ("device field is read-only: " ++ field))
  else .ok (withAttributes (setScalar device field text))

def withBag (device : DeviceContext) (bagName : String) (bag : Dict Json) : DeviceContext :=
  withAttributes { device with attributeBags := device.attributeBags.insert bagName bag }

def setBagValue (device : DeviceContext) (bagName : String) (remainder : List Char)
    (value : Json) : Except PyException DeviceContext := do
  let bag := (device.attributeBags.get? bagName).getD ∅
  let entry ← writtenEntry value (splitPathSegments 0 [] remainder) bag.entries
  return withBag device bagName (bag.insert entry.1 entry.2)

/-- `set_device_attribute`, for a text. -/
def setDeviceAttribute (device : DeviceContext) (attributePath text : String) :
    Except PyException DeviceContext :=
  let path := pyStrip attributePath.toList
  if path = [] then .error (.valueError "attribute path is required")
  else match cutAtDot path with
    | none =>
      let field := String.ofList path
      if field ∈ deviceScalarFields then setDeviceScalar device field text
      else .error (.valueError
        "attribute path must use bag.field form (for example nautobot.location.name)")
    | some (bagName, remainder) =>
      if bagName = "device" then
        let field := String.ofList remainder
        if '.' ∈ remainder then
          .error (.valueError ("device.* paths support only top-level scalar fields " ++
            "(for example device.name or device.platform)"))
        else if field ∉ deviceScalarFields then
          .error (.valueError ("unknown device field: " ++ field))
        else setDeviceScalar device field text
      else if bagName ∈ deviceScalarFields then
        .error (.valueError "use device.* prefix for device scalar fields")
      else if bagName ∈ reservedBagNames then
        .error (.valueError (reprText bagName ++ " is a reserved namespace (populated by the " ++
          "workflow engine, not by update-attribute) and cannot be written to"))
      else setBagValue device bagName remainder (.str text)

end Devices

section Revealed

/-- `_resolve_leaf` with `reveal_secrets=True`, given how an envelope is opened. -/
def revealLeaf (unwrapSecret : Json → Except PyException (Option String)) (value : Json) :
    Except PyException (Option String) :=
  if isSealedSecret value then unwrapSecret value else stringify value

/-- The text of a path without placeholders; a sealed secret is opened. -/
def revealExpandedAttribute (unwrapSecret : Json → Except PyException (Option String))
    (device : DeviceContext) (error : Option ReportedError) :
    List Char → Except PyException (Option String) :=
  resolveExpandedWith device error (revealLeaf unwrapSecret)

/-- `resolve_device_attribute` with `reveal_secrets=True`; the paths in braces are not revealed. -/
def revealDeviceAttribute (unwrapSecret : Json → Except PyException (Option String))
    (device : DeviceContext) (error : Option ReportedError) (path : String) :
    Except PyException (Option String) := do
  match ← expandPathPlaceholders (resolveDeviceAttribute device error) (pyStrip path.toList) with
  | none | some [] => return none
  | some path => revealExpandedAttribute unwrapSecret device error path

end Revealed

end Manus.Expression
