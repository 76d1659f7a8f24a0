import Manus.Context.AttributePath

/-! # Default values of a device's attributes

A block of defaults is normalised to the shape of the `nautobot` bag and merged into
the bag of each device. Interfaces are matched by name, custom fields by key, any
other object key by key. The type of interfaces is no key of the bag: it is set on
the interfaces once they are merged.
-/

namespace Manus.Defaults

def namedReferenceKeys : List String :=
  ["role", "status", "location", "platform", "secrets_group", "rack"]

def interfaceTypeKey : String := "interface_type"

def scalarKeys : List String :=
  ["software_version", "serial", "asset_tag", "face", "position", interfaceTypeKey]

section Values

/-- `text.strip()`. -/
def stripText (text : String) : String := String.ofList (pyStrip text.toList)

def isEmpty : Json → Bool
  | .null => true
  | .str text => stripText text = ""
  | .arr items => items.isEmpty
  | .obj fields => fields.isEmpty
  | _ => false

/-- `dict.get(key)`, where a key that is not there is null. -/
def getKey (fields : List (String × Json)) (key : String) : Json := (fields.lookup key).getD .null

/-- `str(value).strip() if value is not None else ""`. -/
def textOf : Json → String
  | .null => ""
  | value => stripText (pyStr value)

/-- `str(value or "").strip()`. -/
def textOrEmpty (value : Json) : String := if value.truthy then stripText (pyStr value) else ""

end Values

section Merging

/-- One item of a loop of `_merge_interfaces`: what has no name is skipped, and so is a name that
is there already, unless it is overwritten. -/
def addInterface (overwrite : Bool) (byName : Dict Json) : Json → Dict Json
  | .obj fields =>
    let name := textOrEmpty (getKey fields "name")
    if name = "" ∨ ((byName.get? name).isSome ∧ overwrite = false) then byName
    else byName.insert name (.obj fields)
  | _ => byName

def itemsOf : Json → List Json
  | .arr items => items
  | _ => []

/-- `_merge_interfaces`. -/
def mergeInterfaces (overwrite : Bool) (existing : Json) : Json → List Json
  | .arr defaults =>
    let byName := (itemsOf existing).foldl (addInterface false) ∅
    (defaults.foldl (addInterface overwrite) byName).values
  | _ => itemsOf existing

/-- `type` of one interface. -/
def setType (overwrite : Bool) (default : String) : Json → Json
  | .obj fields =>
    if overwrite ∨ isEmpty (getKey fields "type") then
      .obj (Dict.insertEntry "type" (.str default) fields)
    else .obj fields
  | item => item

/-- `_apply_default_interface_type`, for a list of interfaces. -/
def applyDefaultInterfaceType (overwrite : Bool) (interfaces : List Json) (interfaceType : Json) :
    List Json :=
  let default := textOf interfaceType
  if default = "" then interfaces else interfaces.map (setType overwrite default)

def mergeCustomField (overwrite : Bool) (merged : List (String × Json)) (field : String × Json) :
    List (String × Json) :=
  if overwrite ∨ isEmpty (getKey merged field.1) then Dict.insertEntry field.1 field.2 merged
  else merged

/-- `_merge_custom_fields`. -/
def mergeCustomFields (overwrite : Bool) (existing defaults : Json) : List (String × Json) :=
  (fieldsOf defaults).foldl (mergeCustomField overwrite) (fieldsOf existing)

/-- What follows the loop of `merge_nautobot_defaults`. -/
def withInterfaceType (overwrite : Bool) (defaults merged : List (String × Json)) :
    List (String × Json) :=
  match defaults.lookup interfaceTypeKey, merged.lookup "interfaces" with
  | some interfaceType, some (.arr interfaces) =>
    let typed := applyDefaultInterfaceType overwrite interfaces interfaceType
    Dict.insertEntry "interfaces" (.arr typed) merged
  | _, _ => merged

/-- What the loop of `merge_nautobot_defaults` stores under a key, if it stores anything; `other`
is what it stores under a key without a rule of its own. -/
def mergeKey (overwrite : Bool) (key : String) (current value : Json) (other : Option Json) :
    Option Json :=
  if key = interfaceTypeKey then none
  else if key = "interfaces" then some (.arr (mergeInterfaces overwrite current value))
  else if key = "custom_fields" then some (.obj (mergeCustomFields overwrite current value))
  else other

def store (key : String) (value : Option Json) (merged : List (String × Json)) :
    List (String × Json) :=
  match value with
  | some value => Dict.insertEntry key value merged
  | none => merged

def copyDefault (overwrite : Bool) (current value : Json) : Option Json :=
  if overwrite ∨ isEmpty current then some value else none

mutual

/-- The loop of `merge_nautobot_defaults`. -/
def mergeKeys (overwrite : Bool) (merged : List (String × Json)) :
    List (String × Json) → List (String × Json)
  | [] => merged
  | (key, value) :: defaults =>
    let current := getKey merged key
    let stored := mergeKey overwrite key current value (mergeValue overwrite current value)
    mergeKeys overwrite (store key stored merged) defaults

/-- A key without a rule of its own: two dictionaries are merged. -/
def mergeValue (overwrite : Bool) (current : Json) : Json → Option Json
  | .obj fields =>
    match current with
    | .obj existing =>
      some (.obj (withInterfaceType overwrite fields (mergeKeys overwrite existing fields)))
    | current => copyDefault overwrite current (.obj fields)
  | value => copyDefault overwrite current value

end

/-- `merge_nautobot_defaults`. Without defaults the loop does nothing. -/
def mergeNautobotDefaults (overwrite : Bool) (existing : Json) (defaults : List (String × Json)) :
    List (String × Json) :=
  withInterfaceType overwrite defaults (mergeKeys overwrite (fieldsOf existing) defaults)

end Merging

section Normalising

def nameReference (name : String) : Json := .obj [("name", .str name)]

/-- `value or None`. -/
def orNone (value : Json) : Option Json := if value.truthy then some value else none

def namedReferenceDefault : Json → Option Json
  | .obj fields =>
    let name := textOrEmpty (getKey fields "name")
    if name ≠ "" then some (nameReference name) else orNone (.obj fields)
  | value => if textOf value ≠ "" then some (nameReference (textOf value)) else none

/-- The parts of `text.replace(";", ",").split(",")`. -/
def splitTags (text : String) : List String :=
  (text.toList.splitOnP fun c => c = ';' ∨ c = ',').map String.ofList

def tagsDefault (value : Json) : Option Json :=
  let tags := match value with
    | .arr items => items.map fun item => stripText (pyStr item)
    | value => (splitTags (textOf value)).map stripText
  orNone (.arr ((tags.filter (· ≠ "")).map .str))

def deviceTypeDefault : Json → Option Json
  | .obj fields =>
    let model := textOrEmpty (getKey fields "model")
    let manufacturer := match getKey fields "manufacturer" with
      | .obj manufacturer => textOrEmpty (getKey manufacturer "name")
      | manufacturer => textOf manufacturer
    orNone (.obj ((if model ≠ "" then [("model", .str model)] else []) ++
      (if manufacturer ≠ "" then [("manufacturer", nameReference manufacturer)] else [])))
  | _ => none

def interfaceStatusDefault (value : Json) : Option Json :=
  let name := match value with
    | .obj fields => textOrEmpty (getKey fields "name")
    | value => textOf value
  if name ≠ "" then some (nameReference name) else none

def interfaceIpAddressesDefault (value : Json) : List Json :=
  let items := match value with
    | .str text => [Json.str text]
    | value => itemsOf value
  let addresses := items.map fun item => match item with
    | .obj fields => textOrEmpty (getKey fields "address")
    | item => stripText (pyStr item)
  (addresses.filter (· ≠ "")).map fun address => .obj [("address", .str address)]

/-- `_normalize_interface_default`; what is not a dictionary is no interface. -/
def normalizeInterfaceDefault : Json → Option Json
  | .obj raw =>
    let name := textOrEmpty (getKey raw "name")
    let text := fun key =>
      let value := textOrEmpty (getKey raw key)
      if value ≠ "" then [(key, Json.str value)] else []
    let status := (interfaceStatusDefault (getKey raw "status")).toList
    let addresses := interfaceIpAddressesDefault (getKey raw "ip_addresses")
    if name = "" then none
    else some (.obj ([("name", .str name)] ++ text "type" ++ text "description" ++
      status.map (fun value => ("status", value)) ++
      if addresses.isEmpty then [] else [("ip_addresses", .arr addresses)]))
  | _ => none

/-- The custom fields with a name and a value; of the same name, the last. -/
def customFieldsDefault : Json → Option Json
  | .obj fields =>
    let named := fields.map fun field => (stripText field.1, textOf field.2)
    let kept := named.filter fun field => field.1 ≠ "" ∧ field.2 ≠ ""
    orNone (.obj (Dict.ofPairs (kept.map fun field => (field.1, Json.str field.2))).entries)
  | _ => none

def interfacesDefault (value : Json) : Option Json :=
  orNone (.arr ((itemsOf value).filterMap normalizeInterfaceDefault))

def scalarDefault (value : Json) : Option Json :=
  if textOf value ≠ "" then some (.str (textOf value)) else none

/-- The keys of a block in their order, and how each is read. -/
def blockReaders : List (String × (Json → Option Json)) :=
  namedReferenceKeys.map (fun key => (key, namedReferenceDefault)) ++
    [("tags", tagsDefault), ("device_type", deviceTypeDefault)] ++
    scalarKeys.map (fun key => (key, scalarDefault)) ++
    [("custom_fields", customFieldsDefault), ("interfaces", interfacesDefault)]

/-- `normalize_defaults_block`. -/
def normalizeDefaultsBlock (raw : Json) : List (String × Json) :=
  blockReaders.filterMap fun reader =>
    (raw.get? reader.1).bind fun value => (reader.2 value).map fun value => (reader.1, value)

end Normalising

end Manus.Defaults
