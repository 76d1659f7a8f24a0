import Manus.Inventory.Reading
import Manus.Lib.Reads

/-! # Devices from the cache

The devices are kept in Redis, together with an index for each of a few fields.
An evaluation reads the list of all devices once and keeps it; an equality on an
indexed field is answered from the index and fetches the devices it names only.
What Redis does not answer is asked in Nautobot.
-/

namespace Manus

/-- The devices as the last refresh stored them, in the order in which Redis lists them. All hashes
are replaced at once, so they follow from the devices. -/
structure Redis where
  devices : List DeviceInfo := []
  unique : (devices.map DeviceInfo.id).Nodup
  up : Bool := true

/-- What happens outside at an action: whether the task that waits is cancelled, and what Nautobot
answers when it is asked for all devices. -/
structure Outside where
  cancelled : Bool := false
  queryAllDevicesLive : Except String (List DeviceInfo) := .ok []

/-- How a call ends early; only a failure is caught. -/
inductive Raised where
  | failed (message : String)
  | cancelled

section Commands

/-- The devices by their ids. -/
def Redis.data (r : Redis) : Dict DeviceInfo where
  entries := r.devices.map fun d => (d.id, d)
  nodup := by
    rw [List.map_map]
    exact r.unique

/-- Devices without a value are left out of the index. -/
def addToIndex (field : String) (index : Dict (List String)) (d : DeviceInfo) :
    Dict (List String) :=
  match d.attribute field with
  | some value =>
    if value = "" then index else index.insert value ((index.get? value).getD [] ++ [d.id])
  | none => index

def buildIndex (devices : List DeviceInfo) (field : String) : Dict (List String) :=
  devices.foldl (addToIndex field) ∅

def Redis.index (r : Redis) (field : String) : Dict (List String) := buildIndex r.devices field

/-- The entry of the index for a value; raises when Redis does not answer. -/
def hgetJson (field value : String) : Prog Outside Redis (Except String (Option (List String))) :=
  .get fun r => if r.up then .ok ((r.index field).get? value) else .error "Redis is down"

def hashExists (field : String) : Prog Outside Redis Bool :=
  .get fun r => r.up && !(r.index field).isEmpty

def hkeys : Prog Outside Redis (List String) := .get fun r => if r.up then r.data.keys else []

def hmgetJson (ids : List String) : Prog Outside Redis (Option (List (Option DeviceInfo))) :=
  .get fun r => if r.up then some (ids.map r.data.get?) else none

/-- All devices; nothing when there are none. -/
def hvalsJson : Prog Outside Redis (Option (List DeviceInfo)) :=
  .get fun r => if r.up && !r.data.isEmpty then some r.data.values else none

end Commands

section Service

/-- A call of the query service, with the device list the service holds before and after it. -/
def Service (α : Type) :=
  Option (List DeviceInfo) → Prog Outside Redis (Except Raised α × Option (List DeviceInfo))

namespace Service

variable {α β : Type}

instance : Monad Service where
  pure a := fun cache => .ret (.ok a, cache)
  bind x k := fun cache => x cache >>= fun
    | (.ok a, cache') => k a cache'
    | (.error e, cache') => .ret (.error e, cache')

/-- Something read from Redis; the service keeps its list. -/
def reads (p : Prog Outside Redis α) : Service α := fun cache => p >>= fun a => .ret (.ok a, cache)

/-- The list the service holds. -/
def devicesCache : Service (Option (List DeviceInfo)) := fun cache => .ret (.ok cache, cache)

/-- Wait for an answer of Nautobot. -/
def awaits (answer : Outside → Except String α) : Service α := fun cache =>
  .lift fun t r => some ((if t.oracle.cancelled then .error .cancelled
    else (answer t.oracle).mapError .failed, cache), r)

def raises (message : String) : Service α := fun cache => .ret (.error (.failed message), cache)

/-- `try ... except Exception`. -/
def orElse (x : Service α) (handler : α) : Service α := fun cache => x cache >>= fun
  | (.error (.failed _), cache') => .ret (.ok handler, cache')
  | result => .ret result

/-- Within the call the service holds the given devices only; it holds its list again when the
call ends in any way. -/
def narrowedTo (devices : List DeviceInfo) (x : Service α) : Service α := fun previous =>
  x (some devices) >>= fun result => .ret (result.1, previous)

/-- All devices: the list the service holds, or else what Redis or Nautobot answers. The service
holds it from then on. -/
def getAllDevicesCached : Service (List DeviceInfo) := fun
  | some devices => .ret (.ok devices, some devices)
  | none => do
    match ← hvalsJson with
    | some devices => return (.ok devices, some devices)
    | none =>
      match ← awaits Outside.queryAllDevicesLive none with
      | (.ok devices, _) => return (.ok devices, some devices)
      | result => return result

end Service

end Service

section Lookups

/-- `(field, value, negate)`. -/
abbrev Predicate := String × String × Bool

def matchesAll (d : DeviceInfo) (predicates : List Predicate) : Bool :=
  predicates.all fun p => d.matches p.1 p.2.1 p.2.2

/-- The ids of the devices with a value or, negated, without it, by the index alone; nothing when
the index does not say. -/
def readIndexIds (field value : String) (negate : Bool) :
    Prog Outside Redis (Option (List String)) := do
  match ← hgetJson field value with
  | .error _ => return none
  | .ok (some ids) => complement ids
  | .ok none => if ← hashExists field then complement [] else return none
where
  complement (ids : List String) : Prog Outside Redis (Option (List String)) := do
    if negate then
      let allIds ← hkeys
      return if allIds.isEmpty then none else some (allIds.filter fun id => id ∉ ids)
    else return some ids

/-- The devices with the given ids; nothing when one is missing or is not what was looked for. -/
def fetchDevices (ids : List String) (predicates : List Predicate) :
    Prog Outside Redis (Option (List DeviceInfo)) :=
  if ids.isEmpty then .ret (some [])
  else do
    match ← hmgetJson ids with
    | none => return none
    | some raws =>
      let devices := raws.filterMap id
      return if raws.all Option.isSome && devices.all fun d => matchesAll d predicates then
        some devices else none

namespace Service

/-- The ids of the devices with a value or, negated, without it. -/
def idsByAttribute (field value : String) (negate : Bool) : Service (List String) := do
  let ids ← match ← devicesCache with
    | none => reads (readIndexIds field value negate)
    | some _ => pure none
  match ids with
  | some ids => return ids
  | none =>
    let devices ← getAllDevicesCached
    return (devices.filter fun d => d.matches field value negate).map DeviceInfo.id

/-- The devices with the given ids. Where they cannot be fetched, the predicates that selected them
are asked of all devices. -/
def devicesByIds (ids : List String) (predicates : List Predicate) :
    Service (List DeviceInfo) := do
  let fetched ← match ← devicesCache with
    | none => reads (fetchDevices ids predicates)
    | some _ => pure none
  match fetched with
  | some devices => return devices
  | none =>
    let devices ← getAllDevicesCached
    return if predicates.isEmpty then devices.filter fun d => d.id ∈ ids
      else devices.filter fun d => matchesAll d predicates

/-- The devices with a value or, negated, without it. -/
def devicesByAttribute (field value : String) (negate : Bool) : Service (List DeviceInfo) := do
  let fetched ← match negate, ← devicesCache with
    | false, none => reads do
        match ← readIndexIds field value false with
        | some ids => fetchDevices ids [(field, value, false)]
        | none => return none
    | _, _ => pure none
  match fetched with
  | some devices => return devices
  | none =>
    let devices ← getAllDevicesCached
    return devices.filter fun d => d.matches field value negate

end Service

end Lookups

namespace Cached

open Service

variable (nautobot : Nautobot)

section Conditions

/-- A query over all devices; a blank filter finds nothing. -/
def scan (filter : String) (query : List DeviceInfo → List DeviceInfo) :
    Service (List DeviceInfo) :=
  if isBlank filter then pure []
  else do
    let devices ← getAllDevicesCached
    return query devices

def queryDevicesByName (name : String) (useContains : Bool) : Service (List DeviceInfo) :=
  scan name fun devices => Manus.queryDevicesByName nautobot devices name useContains

def queryDevicesByTag (tag : String) : Service (List DeviceInfo) :=
  scan tag fun devices => Manus.queryDevicesByTag devices tag

def queryDevicesByHasPrimary (hasPrimary : String) : Service (List DeviceInfo) := do
  let devices ← getAllDevicesCached
  return Manus.queryDevicesByHasPrimary nautobot devices hasPrimary

def queryDevicesByCustomField (field value : String) (useContains : Bool) :
    Service (List DeviceInfo) :=
  scan value fun devices => Manus.queryDevicesByCustomField nautobot devices field value useContains

/-- The queries by role, status, device type, manufacturer and platform. -/
def queryDevicesByAttribute (field value : String) (negate : Bool) : Service (List DeviceInfo) :=
  if isBlank value then pure [] else Service.devicesByAttribute field value negate

/-- The devices in effect that were not matched. -/
def applyClientNegation (matched : List DeviceInfo) : Service (List DeviceInfo) := do
  let devices ← getAllDevicesCached
  return Manus.applyClientNegation devices matched

def queryNativeNotEquals (field value : String) : Option (Service (List DeviceInfo × ℕ)) :=
  match field with
  | "location" => some do
    let found ← awaits fun _ => nautobot.queryDevicesByLocation value true
    return (found, found.length)
  | "device_type" | "manufacturer" | "role" => some do
    let found ← queryDevicesByAttribute field value true
    return (found, 1)
  | _ => none

def queryMappedField (field value : String) (contains : Bool) :
    Option (Service (List DeviceInfo)) :=
  match field with
  | "name" => some (queryDevicesByName nautobot value contains)
  | "location" => some (if contains then
      raises ("The location field only supports the 'equals' and 'not_equals' operators; " ++
        "'contains' is not available for locations.")
    else awaits fun _ => nautobot.queryDevicesByLocation value false)
  | "role" | "status" | "device_type" | "manufacturer" | "platform" =>
    some (queryDevicesByAttribute field value false)
  | "tag" => some (queryDevicesByTag value)
  | "has_primary" => some (queryDevicesByHasPrimary nautobot value)
  | _ => none

/-- What a query matched or, for a negated operator, what it did not. -/
def withNegation (operator : String) (query : Service (List DeviceInfo)) :
    Service (List DeviceInfo × ℕ) := do
  let matched ← query
  if isNegated operator then
    let others ← applyClientNegation matched
    return (others, 1)
  else return (matched, 1)

/-- The query behind a condition, with the number of queries it counts for. -/
def queryCondition (c : LogicalCondition) : Option (Service (List DeviceInfo × ℕ)) :=
  if c.field = "ip_prefix" then some do
    let found ← awaits fun _ => nautobot.queryDevicesByIpPrefix c.value c.operator
    return (found, 1)
  else if c.field = "primary_prefix" then some do
    let found ← awaits fun _ => nautobot.queryDevicesByPrimaryPrefix c.value c.operator
    return (found, 1)
  else if startsWith c.field "cf_" then
    some (withNegation c.operator
      (queryDevicesByCustomField nautobot c.field c.value (useContains c.operator)))
  else
    (if c.operator = "not_equals" then queryNativeNotEquals nautobot c.field c.value
      else none).or
      ((queryMappedField nautobot c.field c.value (useContains c.operator)).map
        (withNegation c.operator))

def executeCondition (c : LogicalCondition) : Service Selection :=
  if c.field = "" ∨ c.value = "" then pure {}
  else match queryCondition nautobot c with
    | none => pure { failures := ["unsupported field " ++ c.field] }
    | some query => orElse (do
        let found ← query
        return packDevices found.1 found.2) { failures := [c.field ++ " " ++ c.operator] }

def executeOperationConditions : List LogicalCondition → Service (List Selection)
  | [] => pure []
  | c :: conditions => do
    let selected ← executeCondition nautobot c
    let rest ← executeOperationConditions conditions
    return selected :: rest

end Conditions

section Operations

def lookupIds : List LogicalCondition → Service (List (List String))
  | [] => pure []
  | c :: conditions => do
    let ids ← idsByAttribute c.field c.value (c.operator == "not_equals")
    let rest ← lookupIds conditions
    return ids :: rest

def commonIds : List (List String) → List String
  | [] => []
  | first :: rest => first.filter fun id => rest.all fun ids => decide (id ∈ ids)

/-- What an indexed condition asks of a device. -/
def predicate (c : LogicalCondition) : Predicate := (c.field, c.value, c.operator == "not_equals")

def narrow (indexed : List LogicalCondition) : Service (List DeviceInfo) := do
  let idSets ← lookupIds indexed
  devicesByIds (commonIds idSets) (indexed.map predicate)

/-- For an AND with indexed conditions: the devices these select, the conditions that are left, and
how many were answered. -/
def narrowByIndex (op : LogicalOperation) :
    Service (Option (List DeviceInfo × List LogicalCondition × ℕ)) :=
  let indexed := op.conditions.filter isIndexedCondition
  if op.type ≠ .and ∨ indexed = [] then pure none
  else orElse (do
    let candidates ← narrow indexed
    return some (candidates, op.conditions.filter fun c => !isIndexedCondition c,
      indexed.length)) none

mutual

def executeOperation : LogicalOperation → Service Selection
  | ⟨operationType, conditions, nestedOperations⟩ => do
    let op : LogicalOperation := ⟨operationType, conditions, nestedOperations⟩
    match ← narrowByIndex op with
    | some ([], _, count) => return { operationsCount := count }
    | some (candidates, remaining, count) => narrowedTo candidates do
        let selected ← executeOperationConditions nautobot remaining
        let nested ← executeNestedOperations nestedOperations
        return finishOperation op [packDevices candidates count] selected nested
    | none =>
      let selected ← executeOperationConditions nautobot conditions
      let nested ← executeNestedOperations nestedOperations
      return finishOperation op [] selected nested

def executeNestedOperations : List LogicalOperation → Service (List (LogicalOperation × Selection))
  | [] => pure []
  | op :: ops => do
    let selected ← executeOperation op
    let rest ← executeNestedOperations ops
    return (op, selected) :: rest

end

end Operations

end Cached

end Manus
