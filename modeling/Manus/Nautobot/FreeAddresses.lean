import Manus.Expression.Writing
import Manus.Lib.IpAddress

/-! # The next free addresses

The step looks the prefix of each device up in Nautobot, reads the free addresses of every
prefix once, and hands them out in the order of the devices. What Nautobot answers is an
input of the step, and so is what the expressions of a device resolve to.
-/

namespace Manus.FreeIp

open Expression

/-- `AVAILABLE_IPS_CAP`. -/
def availableIpsCap : ℕ := 1000

def stepId : String := "get-next-free-ip"

/-- What a lookup fails with: a failure that names its cause, or any other exception, whose message
is kept where a step has written it. -/
inductive Problem where
  | lookup (code message : String)
  | raised (typeName : String) (message : Option String)

/-- The answers of Nautobot to the requests of the step. -/
structure Nautobot where
  namespaces : String → Except Problem Json
  prefixes : String → String → Except Problem Json
  containing : String → String → Except Problem Json
  availableIps : String → ℕ → Except Problem Json

/-- The parts of a configuration that the devices are served by. -/
structure ParsedConfig where
  prefixExpression : String
  namespaceExpression : String
  count : ℕ
  startOffset : ℕ
  count_pos : 1 ≤ count
  count_le : count ≤ 100

/-- How the expression of a field resolves for a device, and how a value is stored on it. -/
structure Attributes where
  resolve : DeviceContext → String → String → Except PyException (Option String)
  set : DeviceContext → Json → Except PyException DeviceContext

structure Devices where
  all : Dict DeviceContext
  keyed : ∀ entry ∈ all.entries, entry.1 = entry.2.id

section Pool

/-- `bare_address`. -/
def bareAddress (text : String) : Option IpAddress :=
  let value := pyStrip text.toList
  if '/' ∈ value then none else ipAddress value

/-- `parse_prefix`. -/
def parsePrefix (text : String) : Except String IpNetwork :=
  match ipNetwork (pyStrip text.toList) with
  | some network => .ok network
  | none => .error (reprText (String.ofList (pyStrip text.toList)) ++
      " is not a valid prefix; use CIDR form such as 192.168.178.0/24 or a device address")

/-- The address of an entry of `available-ips`. -/
def itemAddress : Json → Option IpAddress
  | .obj fields =>
    let value := Json.getD "address" (.obj fields)
    let text := if value.truthy then pyStr value else ""
    ipAddress (pyStrip (text.toList.takeWhile (· ≠ '/')))
  | _ => none

def freeAddress (network : IpNetwork) (startOffset : ℕ) (address : IpAddress) : Bool :=
  address.version = network.version && network.contains address &&
    decide (network.address + startOffset ≤ address.value)

/-- `free_addresses_from`. -/
def freeAddressesFrom (available : List Json) (network : IpNetwork) (startOffset : ℕ) :
    List String :=
  ((available.filterMap itemAddress).filter (freeAddress network startOffset)).map IpAddress.text

/-- `window_size`. -/
def windowSize (startOffset count devices cap : ℕ) : ℕ := min cap (startOffset + count * devices)

/-- `take`. -/
def take (pool : List String) (used count : ℕ) : Option (List String) :=
  let chunk := (pool.drop used).take count
  if chunk.length = count then some chunk else none

end Pool

section Lookups

variable (nautobot : Nautobot)

def notFound (code message : String) : Problem := .lookup code message

def invalidResponse (message : String) : Problem := .lookup "invalid_response" message

/-- `list_results`. -/
def listResults : Json → Except Problem (List (List (String × Json)))
  | .obj body =>
    let results := Json.getD "results" (.obj body)
    if results.truthy then
      match results with
      | .arr items => .ok (items.filterMap fun
          | .obj fields => some fields
          | _ => none)
      | .obj _ | .str _ => .ok []
      | _ => .error (.raised "TypeError" none)
    else .ok []
  | _ => .error (invalidResponse "Nautobot answered with an unexpected body")

/-- `more_than_one`. -/
def moreThanOne (body : Json) (results : List (List (String × Json))) : Bool :=
  1 < results.length || (body.getD "next").truthy ||
    match body.getD "count" with
    | .int count => results.length < count
    | .bool count => results.length < count.toNat
    | _ => false

def isLowerHex (c : Char) : Bool := ('0' ≤ c && c ≤ '9') || ('a' ≤ c && c ≤ 'f')

/-- `is_valid_uuid`; a line break at the end is passed over. -/
def isValidUuid (text : String) : Bool :=
  let lowered := text.toList.flatMap lowerChar
  let body := if lowered.getLast? = some '\n' then lowered.dropLast else lowered
  let parts := body.splitOn '-'
  parts.map List.length == [8, 4, 4, 4, 12] && parts.all fun part => part.all isLowerHex

/-- `uuid_or_invalid`. -/
def uuidOrInvalid (value : Json) : Except Problem String :=
  let text := if value.truthy then pyStr value else ""
  if isValidUuid text then .ok text
  else .error (invalidResponse "Nautobot answered with an id that is not a UUID")

/-- `resolve_namespace_id`. -/
def resolveNamespaceId (label : String) : Except Problem String :=
  if isValidUuid label then .ok label
  else do
    let body ← nautobot.namespaces label
    let results ← listResults body
    let missing := notFound "namespace_not_found"
      ("Namespace " ++ reprText label ++ " not found in Nautobot")
    match results with
    | [] => .error missing
    | first :: _ =>
      if (Json.getD "id" (.obj first)).truthy = false then .error missing
      else if moreThanOne body results then
        .error (.lookup "namespace_ambiguous"
          ("Namespace " ++ reprText label ++ " matches more than one namespace in Nautobot"))
      else uuidOrInvalid (Json.getD "id" (.obj first))

/-- `resolve_prefix_id`. -/
def resolvePrefixId (text namespaceId label : String) : Except Problem String := do
  let body ← nautobot.prefixes text namespaceId
  let results ← listResults body
  match results with
  | [] => .error (notFound "prefix_not_found"
      ("Prefix " ++ text ++ " not found in namespace " ++ reprText label))
  | first :: _ =>
    if moreThanOne body results then
      .error (.lookup "prefix_ambiguous"
        ("Prefix " ++ text ++ " matches several prefixes in namespace " ++ reprText label))
    else uuidOrInvalid (Json.getD "id" (.obj first))

/-- The longer of the best prefix so far, as length, id and text, and the prefix of a row. -/
def longerPrefix (best : Option (ℕ × String × String)) (row : List (String × Json)) :
    Except Problem (Option (ℕ × String × String)) :=
  let value := Json.getD "prefix" (.obj row)
  let text := if value.truthy then pyStr value else ""
  match ipNetwork text.toList with
  | none => .ok best
  | some network =>
    if best.all fun found => found.1 < network.prefixLength then
      (uuidOrInvalid (Json.getD "id" (.obj row))).map fun id =>
        some (network.prefixLength, id, text)
    else .ok best

/-- `find_containing_prefix`: the id and the text of the longest prefix. -/
def findContainingPrefix (address namespaceId label : String) :
    Except Problem (String × String) := do
  let body ← nautobot.containing address namespaceId
  let results ← listResults body
  match ← results.foldlM longerPrefix none with
  | none => .error (notFound "prefix_not_found"
      ("No prefix contains " ++ address ++ " in namespace " ++ reprText label))
  | some (_, id, text) => return (id, text)

/-- `fetch_available_ips`. -/
def fetchAvailableIps (prefixId : String) (limit : ℕ) : Except Problem (List Json) := do
  match ← nautobot.availableIps prefixId limit with
  | .arr items => return items
  | _ => .error (invalidResponse "Nautobot answered available-ips with an unexpected body")

/-- `_Target`. -/
structure Target where
  prefixId : String
  network : IpNetwork
  label : String

/-- `_resolve_target`, for a namespace and a prefix as a device resolved them. -/
def resolveTarget (expression : String) (key : String × String) : Except Problem Target :=
  let target := fun prefixId (network : IpNetwork) => (⟨prefixId, network,
    network.text ++ " (namespace " ++ reprText key.1 ++ ")"⟩ : Target)
  match bareAddress key.2 with
  | some host => do
    let namespaceId ← resolveNamespaceId nautobot key.1
    let (prefixId, found) ← findContainingPrefix nautobot host.text namespaceId key.1
    let network ← (parsePrefix found).mapError fun message => .raised "ValueError" (some message)
    return target prefixId network
  | none => do
    let network ← (parsePrefix key.2).mapError fun message => .lookup "prefix_invalid"
      (message ++ " (prefix setting " ++ reprText expression ++ ")")
    let namespaceId ← resolveNamespaceId nautobot key.1
    let prefixId ← resolvePrefixId nautobot network.text namespaceId key.1
    return target prefixId network

/-- `_load_pool`: the addresses from the offset on, and whether the window was cut short. -/
def loadPool (parsed : ParsedConfig) (target : Target) (devices : ℕ) :
    Except Problem (List String × Bool) := do
  let wanted := windowSize parsed.startOffset parsed.count devices (availableIpsCap * 1000)
  let available ← fetchAvailableIps nautobot target.prefixId (min wanted availableIpsCap)
  return (freeAddressesFrom available target.network parsed.startOffset,
    availableIpsCap < wanted && availableIpsCap ≤ available.length)

end Lookups

section Serving

/-- What became of a device: the addresses that it was given, or that it failed. -/
inductive Placed where
  | given (addresses : List String) (device : DeviceContext)
  | failed (device : DeviceContext)

def failWith (nodeId code message : String) (device : DeviceContext) : DeviceContext :=
  { device with
    status := .failed
    errors := device.errors ++ [⟨nodeId, stepId, code, message⟩] }

def failed (nodeId : String) (device : DeviceContext) : Problem → DeviceContext
  | .lookup code message => failWith nodeId code message device
  | .raised typeName message =>
    failWith nodeId typeName.toLower (message.getD typeName) device

variable (attributes : Attributes) (parsed : ParsedConfig) (nodeId : String)

/-- The value that `_assign` stores. -/
def assignedValue (addresses : List String) : Json :=
  match addresses with
  | [address] => if parsed.count = 1 then .str address else .arr [.str address]
  | addresses => .arr (addresses.map .str)

/-- The device that the pool has too few addresses left for. -/
def notEnough (target : Target) (windowCut : Bool) (left : ℕ) (device : DeviceContext) :
    DeviceContext :=
  let reason := if windowCut then
      "only the first " ++ toString availableIpsCap ++ " free addresses can be read per request " ++
        "(lower start_offset, count or the number of devices)"
    else toString left ++ " left"
  failWith nodeId (if windowCut then "free_ip_window_exceeded" else "not_enough_free_ips")
    ("Needed " ++ toString parsed.count ++ " free IP(s) in " ++ target.label ++ " from offset " ++
      toString parsed.startOffset ++ ", " ++ reason) device

/-- The devices of a prefix, served one after the other. -/
def serveMembers (target : Target) (pool : List String) (windowCut : Bool) :
    ℕ → List DeviceContext → Except PyException (List (String × Placed))
  | _, [] => .ok []
  | used, device :: members =>
    match take pool used parsed.count with
    | none => do
      let rest ← serveMembers target pool windowCut used members
      return (device.id,
        .failed (notEnough parsed nodeId target windowCut (pool.length - used) device)) :: rest
    | some chunk => do
      let updated ← attributes.set device (assignedValue parsed chunk)
      let rest ← serveMembers target pool windowCut (used + parsed.count) members
      return (device.id, .given chunk updated) :: rest

/-- `_serve_group`. -/
def serveGroup (nautobot : Nautobot) (group : Target × List DeviceContext) :
    Except PyException (List (String × Placed)) :=
  match loadPool nautobot parsed group.1 group.2.length with
  | .error problem =>
    .ok (group.2.map fun device => (device.id, .failed (failed nodeId device problem)))
  | .ok (pool, windowCut) =>
    serveMembers attributes parsed nodeId group.1 pool windowCut 0 group.2

end Serving

section Execution

variable (attributes : Attributes) (parsed : ParsedConfig) (nautobot : Nautobot) (nodeId : String)

/-- `_resolve_group_key`: the namespace and the prefix of a device, or why it has none. -/
def resolveGroupKey (device : DeviceContext) :
    Except PyException (Except (String × String) (String × String)) := do
  match ← attributes.resolve device "namespace" parsed.namespaceExpression with
  | none | some "" => return .error ("namespace_unresolved", "namespace expression " ++
      reprText parsed.namespaceExpression ++ " resolved to nothing")
  | some label =>
    match ← attributes.resolve device "prefix" parsed.prefixExpression with
    | none | some "" => return .error ("prefix_unresolved", "prefix expression " ++
        reprText parsed.prefixExpression ++ " resolved to nothing")
    | some text => return .ok (label, text)

/-- Where a device goes: it fails at once, or it waits for an address of a prefix. -/
inductive Routed where
  | failed (device : DeviceContext)
  | waits (target : Target)

/-- The target of a device. The answer for a namespace and a prefix is kept, so it is the same for
every device that resolves to them. -/
def route (device : DeviceContext) : Except PyException Routed := do
  match ← resolveGroupKey attributes parsed device with
  | .error (code, message) => return .failed (failWith nodeId code message device)
  | .ok key =>
    match resolveTarget nautobot parsed.prefixExpression key with
    | .error problem => return .failed (failed nodeId device problem)
    | .ok target => return .waits target

/-- `groups.setdefault(target.prefix_id, (target, []))[1].append(device)`. -/
def addMember (groups : Dict (Target × List DeviceContext)) (target : Target)
    (device : DeviceContext) : Dict (Target × List DeviceContext) :=
  let group := (groups.get? target.prefixId).getD (target, [])
  groups.insert target.prefixId (group.1, group.2 ++ [device])

def addRouted (groups : Dict (Target × List DeviceContext)) (routed : DeviceContext × Routed) :
    Dict (Target × List DeviceContext) :=
  match routed.2 with
  | .failed _ => groups
  | .waits target => addMember groups target routed.1

def groupsOf (routed : List (DeviceContext × Routed)) : Dict (Target × List DeviceContext) :=
  routed.foldl addRouted ∅

/-- The devices that failed before any prefix was served. -/
def failedAtOnce (routed : List (DeviceContext × Routed)) : List (String × Placed) :=
  routed.filterMap fun entry =>
    match entry.2 with
    | .failed device => some (entry.1.id, .failed device)
    | .waits _ => none

def routeAll (devices : Devices) : Except PyException (List (DeviceContext × Routed)) :=
  devices.all.values.mapM fun device =>
    (route attributes parsed nautobot nodeId device).map fun routed => (device, routed)

/-- `outcome_by_device`. -/
def outcomeByDevice (devices : Devices) : Except PyException (Dict Placed) := do
  let routed ← routeAll attributes parsed nautobot nodeId devices
  let served ← (groupsOf routed).values.mapM (serveGroup attributes parsed nodeId nautobot)
  return Dict.ofPairs (failedAtOnce routed ++ served.flatten)

def bucket (placed : Dict Placed) (devices : Devices) (success : Bool) : Dict DeviceContext :=
  Dict.ofPairs (devices.all.keys.filterMap fun id =>
    match placed.get? id with
    | some (.given _ device) => if success then some (id, device) else none
    | some (.failed device) => if success then none else some (id, device)
    | none => none)

/-- `execute`: the two exits, with the number of devices in each. -/
def execute (context : WorkflowContext) (devices : Devices) :
    Except PyException (List StepOutcome) :=
  (outcomeByDevice attributes parsed nautobot nodeId devices).map fun placed =>
    let success := bucket placed devices true
    let failure := bucket placed devices false
    let metadata := context.metadata.insert (nodeId ++ ".free_ip_counts")
      (.obj [("success", .int success.keys.length), ("failure", .int failure.keys.length)])
    [⟨"success", { context with devices := success, metadata := metadata }⟩,
      ⟨"failure", { context with devices := failure, metadata := metadata }⟩]

end Execution

end Manus.FreeIp
