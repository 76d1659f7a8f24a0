import Manus.Context.Guards
import Manus.Context.Merge
import Mathlib.Data.Finset.Image

/-! # Inventory expressions

An inventory is a list of logical operations over conditions on devices. Each
condition is answered from the device list in effect or by the inventory system
itself; an AND first narrows the list down to the devices its indexed conditions
select. A condition that fails selects nothing.
-/

namespace Manus

structure LogicalCondition where
  field : String
  operator : String
  value : String
  deriving DecidableEq, Repr

structure LogicalOperation where
  operationType : String
  conditions : List LogicalCondition := []
  nestedOperations : List LogicalOperation := []

structure DeviceInfo where
  id : String
  name : Option String := none
  role : Option String := none
  tags : List String := []
  deviceType : Option String := none
  manufacturer : Option String := none
  platform : Option String := none
  primaryIp4 : Option String := none
  status : Option String := none
  customFields : Dict Json := ∅

section Queries

/-- What is outside: the queries only Nautobot answers, and how Python lowers and prints. -/
structure Nautobot where
  queryDevicesByLocation : String → Bool → Except String (List DeviceInfo)
  queryDevicesByIpPrefix : String → String → Except String (List DeviceInfo)
  queryDevicesByPrimaryPrefix : String → String → Except String (List DeviceInfo)
  lower : String → String
  str : Json → String

def indexedFields : List String := ["role", "status", "device_type", "manufacturer", "platform"]

/-- The attribute an indexed field names. -/
def DeviceInfo.attribute (d : DeviceInfo) (field : String) : Option String :=
  match field with
  | "role" => d.role
  | "status" => d.status
  | "device_type" => d.deviceType
  | "manufacturer" => d.manufacturer
  | "platform" => d.platform
  | _ => none

def isBlank (text : String) : Bool := text.toList.all isPySpace

/-- `needle in text`. -/
def isIn (needle text : String) : Bool :=
  (List.range (text.length + 1)).any fun i => needle.toList.isPrefixOf (text.toList.drop i)

/-- `(getattr(device, field) == value) != negate`. -/
def DeviceInfo.matches (d : DeviceInfo) (field value : String) (negate : Bool) : Bool :=
  decide (d.attribute field = some value) != negate

variable (nautobot : Nautobot) (devices : List DeviceInfo)

def devicesByAttribute (field value : String) (negate : Bool) : List DeviceInfo :=
  if isBlank value then [] else devices.filter fun d => d.matches field value negate

def queryDevicesByName (name : String) (useContains : Bool) : List DeviceInfo :=
  if isBlank name then []
  else devices.filter fun d =>
    if useContains then
      d.name.any fun n => n ≠ "" && isIn (nautobot.lower name) (nautobot.lower n)
    else decide (d.name = some name)

def queryDevicesByTag (tag : String) : List DeviceInfo :=
  if isBlank tag then [] else devices.filter fun d => decide (tag ∈ d.tags)

def queryDevicesByHasPrimary (hasPrimary : String) : List DeviceInfo :=
  let wanted := nautobot.lower hasPrimary == "true"
  devices.filter fun d => (d.primaryIp4.any fun ip => ip ≠ "") == wanted

def customFieldValueMatches (stored : Option Json) (target : String) (useContains : Bool) : Bool :=
  let values := match stored with
    | none | some .null => []
    | some (.arr items) => items
    | some value => [value]
  values.any fun value =>
    if useContains then isIn (nautobot.lower target) (nautobot.lower (nautobot.str value))
    else nautobot.str value == target

def queryDevicesByCustomField (field value : String) (useContains : Bool) : List DeviceInfo :=
  if isBlank value then []
  else
    let key := String.ofList (field.toList.drop "cf_".length)
    devices.filter fun d => customFieldValueMatches nautobot (d.customFields.get? key) value
      useContains

end Queries

section Conditions

/-- What an operation selected: the ids, how many queries it took, the devices it has seen and the
conditions that failed. -/
structure Selection where
  ids : Finset String := ∅
  operationsCount : ℕ := 0
  data : Dict DeviceInfo := ∅
  failures : List String := []

def packDevices (devices : List DeviceInfo) (operationsCount : ℕ) : Selection where
  ids := (devices.map DeviceInfo.id).toFinset
  operationsCount
  data := Dict.ofPairs (devices.map fun d => (d.id, d))

/-- Whether the index alone answers the condition. -/
def isIndexedCondition (c : LogicalCondition) : Bool :=
  decide (c.field ∈ indexedFields) && decide (c.operator ∈ ["equals", "not_equals"]) &&
    decide (c.value ≠ "")

def useContains (operator : String) : Bool := decide (operator ∈ ["contains", "not_contains"])

def isNegated (operator : String) : Bool := decide (operator ∈ ["not_equals", "not_contains"])

variable (nautobot : Nautobot) (devices : List DeviceInfo)

/-- The devices in effect that were not matched. -/
def applyClientNegation (matched : List DeviceInfo) : List DeviceInfo :=
  devices.filter fun d => d.id ∉ matched.map DeviceInfo.id

/-- `not_equals` on a field that has such a query of its own. -/
def queryNativeNotEquals (field value : String) :
    Option (Except String (List DeviceInfo × ℕ)) :=
  match field with
  | "location" => some ((nautobot.queryDevicesByLocation value true).map fun ds => (ds, ds.length))
  | "device_type" | "manufacturer" | "role" =>
    some (.ok (devicesByAttribute devices field value true, 1))
  | _ => none

def queryMappedField (field value : String) (contains : Bool) :
    Option (Except String (List DeviceInfo)) :=
  match field with
  | "name" => some (.ok (queryDevicesByName nautobot devices value contains))
  | "location" => some (if contains then
      .error ("The location field only supports the 'equals' and 'not_equals' operators; " ++
        "'contains' is not available for locations.")
    else nautobot.queryDevicesByLocation value false)
  | "role" | "status" | "device_type" | "manufacturer" | "platform" =>
    some (.ok (devicesByAttribute devices field value false))
  | "tag" => some (.ok (queryDevicesByTag devices value))
  | "has_primary" => some (.ok (queryDevicesByHasPrimary nautobot devices value))
  | _ => none

/-- The query behind a condition, with the number of queries it counts for; there is none for a
field nobody knows. -/
def queryCondition (c : LogicalCondition) : Option (Except String (List DeviceInfo × ℕ)) :=
  if c.field = "ip_prefix" then
    some ((nautobot.queryDevicesByIpPrefix c.value c.operator).map fun ds => (ds, 1))
  else if c.field = "primary_prefix" then
    some ((nautobot.queryDevicesByPrimaryPrefix c.value c.operator).map fun ds => (ds, 1))
  else if startsWith c.field "cf_" then
    let matched := queryDevicesByCustomField nautobot devices c.field c.value
      (useContains c.operator)
    some (.ok (if isNegated c.operator then applyClientNegation devices matched else matched, 1))
  else
    (if c.operator = "not_equals" then queryNativeNotEquals nautobot devices c.field c.value
      else none).or
      ((queryMappedField nautobot devices c.field c.value (useContains c.operator)).map
        fun answer => answer.map fun matched =>
          (if isNegated c.operator then applyClientNegation devices matched else matched, 1))

/-- Execute a condition; `raises` says that its query fails. -/
def executeCondition (raises : Bool) (c : LogicalCondition) : Selection :=
  if c.field = "" ∨ c.value = "" then {}
  else match queryCondition nautobot devices c with
    | none => { failures := ["unsupported field " ++ c.field] }
    | some answer =>
      match if raises then .error "query failed" else answer with
      | .error _ => { failures := [c.field ++ " " ++ c.operator] }
      | .ok (found, count) => packDevices found count

end Conditions

section Operations

inductive OperationType where
  | and
  | or
  | not
  | unknown
  deriving DecidableEq, Repr

/-- `operation_type.upper()` and the types it may name. -/
def LogicalOperation.type (op : LogicalOperation) : OperationType :=
  match String.ofList (op.operationType.toList.map Char.toUpper) with
  | "AND" => .and
  | "OR" => .or
  | "NOT" => .not
  | _ => .unknown

def intersectSets : List (Finset String) → Finset String
  | [] => ∅
  | first :: rest => rest.foldl (· ∩ ·) first

def unionSets (sets : List (Finset String)) : Finset String := sets.foldl (· ∪ ·) ∅

def subtractNotResults (result : Finset String) (notResults : List (Finset String)) :
    Finset String := notResults.foldl (· \ ·) result

/-- A NOT selects what is to be excluded; what is excluded from a NOT does not matter. -/
def combineLogicalResults (type : OperationType) (conditionResults notResults :
    List (Finset String)) : Finset String :=
  match type with
  | .and => subtractNotResults (intersectSets conditionResults) notResults
  | .or => subtractNotResults (unionSets conditionResults) notResults
  | .not => unionSets conditionResults
  | .unknown => ∅

/-- What goes wrong in an evaluation, by the place of an operation in the expression: which of its
conditions raise, and whether its lookup in the index does. -/
structure Faults where
  raises : List ℕ → ℕ → Bool
  lookupFails : List ℕ → Bool

variable (nautobot : Nautobot) (faults : Faults)

/-- For an AND with indexed conditions: the devices these select, and the other conditions with
their numbers. -/
def narrowByIndex (lookupFails : Bool) (devices : List DeviceInfo) (op : LogicalOperation) :
    Option (List DeviceInfo × List (LogicalCondition × ℕ) × ℕ) :=
  let indexed := op.conditions.filter isIndexedCondition
  if op.type ≠ .and ∨ indexed = [] ∨ lookupFails then none
  else some (devices.filter fun d => indexed.all fun c =>
      d.matches c.field c.value (c.operator == "not_equals"),
    op.conditions.zipIdx.filter fun p => !isIndexedCondition p.1, indexed.length)

/-- The operation itself, given what its conditions and its nested operations selected. -/
def finishOperation (op : LogicalOperation) (seed : List Selection) (conditions : List Selection)
    (nested : List (LogicalOperation × Selection)) : Selection :=
  let plain := nested.filter fun p => p.1.type ≠ .not
  let excluded := nested.filter fun p => p.1.type = .not
  let all := seed ++ conditions ++ nested.map Prod.snd
  { ids := combineLogicalResults op.type
      ((seed ++ conditions ++ plain.map Prod.snd).map Selection.ids)
      (excluded.map fun p => p.2.ids)
    operationsCount := (all.map Selection.operationsCount).sum
    data := all.foldl (fun data s => data.update s.data) ∅
    failures := all.flatMap Selection.failures }

mutual

/-- Execute an operation at a place of the expression, over the devices in effect. -/
def executeOperation (path : List ℕ) (devices : List DeviceInfo) : LogicalOperation → Selection
  | ⟨operationType, conditions, nestedOperations⟩ =>
    let op : LogicalOperation := ⟨operationType, conditions, nestedOperations⟩
    match narrowByIndex (faults.lookupFails path) devices op with
    | some ([], _, count) => { operationsCount := count }
    | some (candidates, remaining, count) =>
      finishOperation op [packDevices candidates count]
        (remaining.map fun p => executeCondition nautobot candidates (faults.raises path p.2) p.1)
        (executeNestedOperations path candidates 0 nestedOperations)
    | none =>
      finishOperation op []
        (conditions.zipIdx.map fun p =>
          executeCondition nautobot devices (faults.raises path p.2) p.1)
        (executeNestedOperations path devices 0 nestedOperations)

def executeNestedOperations (path : List ℕ) (devices : List DeviceInfo) :
    ℕ → List LogicalOperation → List (LogicalOperation × Selection)
  | _, [] => []
  | i, op :: ops => (op, executeOperation (i :: path) devices op) ::
      executeNestedOperations path devices (i + 1) ops

end

/-- One more operation at the top: the first one that selects something starts the result. -/
def previewStep (result : Finset String) (op : LogicalOperation) (selected : Finset String) :
    Finset String :=
  if result = ∅ then if op.type = .not then ∅ else selected
  else if op.type = .not then result \ selected
  else result ∩ selected

/-- The top-level operations, each with what it selected. -/
def executeOperations (devices : List DeviceInfo) (operations : List LogicalOperation) :
    List (LogicalOperation × Selection) :=
  executeNestedOperations nautobot faults [] devices 0 operations

def previewIds (executed : List (LogicalOperation × Selection)) : Finset String :=
  executed.foldl (fun result p => previewStep result p.1 p.2.ids) ∅

def previewInventory (devices : List DeviceInfo) (operations : List LogicalOperation) :
    List DeviceInfo × ℕ :=
  if operations.isEmpty then (devices, 0)
  else
    let executed := executeOperations nautobot faults devices operations
    let data := executed.foldl (fun data p => data.update p.2.data) (∅ : Dict DeviceInfo)
    (data.entries.filterMap fun p => if p.1 ∈ previewIds executed then some p.2 else none,
      (executed.map fun p => p.2.operationsCount).sum)

end Operations

end Manus
