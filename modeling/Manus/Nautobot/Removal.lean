import Manus.Nautobot.UpdateFields

/-! # Removing devices from Nautobot

A step removes the devices of a workflow from Nautobot, with the addresses that only the
device holds. Nautobot keeps which interface belongs to which device and where each address
is assigned; whether an address is shared is looked up when its device is removed.
-/

namespace Manus.RemoveFromNautobot

open Expression (PyException)

section Nautobot

/-- What an address is assigned to. -/
inductive Holder where
  | interface (id : String)
  | vmInterface (id : String)
  deriving DecidableEq

/-- One row of `ipam/ip-address-to-interface`. -/
structure Assignment where
  ipAddress : String
  holder : Holder
  deriving DecidableEq

structure Nautobot where
  devices : List String
  /-- The interfaces, each with its device. -/
  interfaces : List (String × String)
  addresses : List String
  assignments : List Assignment

/-- An interface belongs to one device, and what is assigned exists. -/
structure Nautobot.Consistent (s : Nautobot) : Prop where
  owner : ∀ i d d', (i, d) ∈ s.interfaces → (i, d') ∈ s.interfaces → d = d'
  device : ∀ i d, (i, d) ∈ s.interfaces → d ∈ s.devices
  interface : ∀ a ∈ s.assignments, ∀ i, a.holder = .interface i → ∃ d, (i, d) ∈ s.interfaces
  address : ∀ a ∈ s.assignments, a.ipAddress ∈ s.addresses

variable (s : Nautobot)

def Nautobot.interfacesOf (d : String) : List String :=
  (s.interfaces.filter fun i => i.2 = d).map Prod.fst

/-- The assignment is to an interface of the device. -/
def Nautobot.On (d : String) (a : Assignment) : Prop :=
  ∃ i ∈ s.interfacesOf d, a.holder = .interface i

instance (d : String) : DecidablePred (s.On d) :=
  fun a => inferInstanceAs (Decidable (∃ i ∈ s.interfacesOf d, a.holder = .interface i))

/-- An address is deleted with its assignments. -/
def Nautobot.withoutAddress (ip : String) : Nautobot :=
  { s with
    addresses := s.addresses.filter fun ip' => ip' ≠ ip
    assignments := s.assignments.filter fun a => a.ipAddress ≠ ip }

/-- A device is deleted with its interfaces and what is assigned to them. -/
def Nautobot.withoutDevice (d : String) : Nautobot :=
  { s with
    devices := s.devices.filter fun d' => d' ≠ d
    interfaces := s.interfaces.filter fun i => i.2 ≠ d
    assignments := s.assignments.filter fun a => ¬ s.On d a }

end Nautobot

section Calls

/-- What a delete call comes to when the object exists. A call that fails may have been carried out
nevertheless. -/
inductive Answer where
  | done
  | failed (applied : Bool) (code message : String)

/-- An address that was deleted, and what Nautobot held at that moment. -/
structure Deletion where
  before : Nautobot
  device : String
  ip : String

/-- Nautobot and the delete calls made so far. -/
structure World where
  nautobot : Nautobot
  calls : ℕ := 0
  deletions : List Deletion := []

/-- `NautobotNotFoundError`, or any other exception with its class name in lower case and the text
that is kept of it. -/
inductive Refusal where
  | notFound
  | other (code message : String)

/-- `^[0-9a-f]{8}-[0-9a-f]{4}-[0-9a-f]{4}-[0-9a-f]{4}-[0-9a-f]{12}$`, where `$` also matches
before a line break at the end. -/
def isValidUuid (text : String) : Bool :=
  let chars := text.toList.map Char.toLower
  let parts := (if chars.getLast? = some '\n' then chars.dropLast else chars).splitOn '-'
  parts.map List.length = [8, 4, 4, 4, 12] &&
    parts.all fun part => part.all fun c => c.isDigit || ('a' ≤ c && c ≤ 'f')

/-- `delete_ip_address` for a device that is being removed. -/
def deleteIpAddress (answers : ℕ → Answer) (d ip : String) (w : World) :
    Except Refusal Unit × World :=
  if isValidUuid ip = false then
    (.error (.other "valueerror" "ip_id is not a Nautobot UUID"), w)
  else if ip ∉ w.nautobot.addresses then (.error .notFound, { w with calls := w.calls + 1 })
  else
    let gone : World := {
      nautobot := w.nautobot.withoutAddress ip
      calls := w.calls + 1
      deletions := w.deletions ++ [⟨w.nautobot, d, ip⟩] }
    match answers w.calls with
    | .done => (.ok (), gone)
    | .failed applied code message =>
      (.error (.other code message), if applied then gone else { w with calls := w.calls + 1 })

def deleteDevice (answers : ℕ → Answer) (d : String) (w : World) : Except Refusal Unit × World :=
  if isValidUuid d = false then
    (.error (.other "valueerror" "device_id is not a Nautobot UUID"), w)
  else if d ∉ w.nautobot.devices then (.error .notFound, { w with calls := w.calls + 1 })
  else
    let gone : World :=
      { w with nautobot := w.nautobot.withoutDevice d, calls := w.calls + 1 }
    match answers w.calls with
    | .done => (.ok (), gone)
    | .failed applied code message =>
      (.error (.other code message), if applied then gone else { w with calls := w.calls + 1 })

end Calls

section Step

/-- `if ip_id not in ip_ids: ip_ids.append(ip_id)` -/
def addNew (ipIds : List String) (ip : String) : List String :=
  if ip ∈ ipIds then ipIds else ipIds ++ [ip]

/-- The set of the interfaces of a device, in the order in which it is gone through. -/
structure SetOrder where
  order : List String → List String
  mem_order : ∀ ids id, id ∈ order ids ↔ id ∈ ids

/-- `str(_reference_id(assignment.get("interface")))` -/
def Assignment.interfaceText (a : Assignment) : String :=
  match a.holder with
  | .interface id => id
  | .vmInterface _ => "None"

def Assignment.isVm (a : Assignment) : Bool :=
  match a.holder with
  | .interface _ => false
  | .vmInterface _ => true

variable (sets : SetOrder) (s : Nautobot)

/-- The addresses that are only assigned to the device, and those that others hold as well. -/
def listDeviceIpIds (d : String) : List String × List String :=
  let interfaceIds := sets.order (s.interfacesOf d)
  let found := interfaceIds.flatMap fun id =>
    (s.assignments.filter fun a => a.holder = .interface id).map Assignment.ipAddress
  let ipIds := found.foldl addNew []
  ipIds.partition fun ip =>
    let assignments := s.assignments.filter fun a => a.ipAddress = ip
    let heldHere := assignments.any fun a => decide (a.interfaceText ∈ interfaceIds)
    let elsewhere := assignments.any fun a => a.isVm || decide (a.interfaceText ∉ interfaceIds)
    heldHere && !elsewhere

variable (answers : ℕ → Answer)

/-- The loop of `_remove_ips`: the addresses removed and the one that could not be. -/
def removeIps (d : String) : List String → World → (List String × Option String) × World
  | [], w => (([], none), w)
  | ip :: owned, w =>
    match deleteIpAddress answers d ip w with
    | (.ok (), w) =>
      let (result, w) := removeIps d owned w
      ((ip :: result.1, result.2), w)
    | (.error .notFound, w) => removeIps d owned w
    | (.error (.other _ _), w) => (([], some ip), w)

def alreadyRemovedNote : List String → String
  | [] => ""
  | removed =>
    let ids := ", ".intercalate removed
    s!" {removed.length} IP address(es) were already deleted: {ids}."

/-- What is left of one device: the outcome it leaves by and the device itself. -/
structure Removal where
  success : Bool
  device : DeviceContext
  ipsRemoved : ℕ := 0
  ipsSharedSkipped : ℕ := 0

def failedDevice (device : DeviceContext) (nodeId code message : String) : DeviceContext :=
  markDeviceFailed device nodeId "remove-from-nautobot" code message

structure ParsedConfig where
  deviceIdExpression : String
  removeIpAddresses : Bool

variable (env : LookupEnv) (parsed : ParsedConfig) (nodeId : String)

/-- The id of the device in Nautobot, or the code and the message of why there is none. -/
def resolveDeviceUuid (device : DeviceContext) :
    Except PyException (Except (String × String) String) := do
  match ← resolveUpdateFieldExpression env device "device_id" parsed.deviceIdExpression none with
  | none => return .error ("device_id_unresolved", "device_id expression resolved to nothing")
  | some value =>
    if value = redactedPlaceholder then return .error ("device_id_is_secret",
      "device_id expression points to a secret, which this step does not copy")
    else match pyStrip value.toList with
      | [] => return .error ("device_id_unresolved", "device_id expression resolved to nothing")
      | stripped =>
        if isValidUuid (String.ofList stripped) = false then
          return .error ("device_id_invalid", "device_id is not a Nautobot UUID")
        else return .ok (String.ofList stripped)

/-- The end of `_remove`, with the addresses that were removed before. -/
def finishRemoval (device : DeviceContext) (d : String) (removed : List String) (skipped : ℕ)
    (w : World) : Removal × World :=
  match deleteDevice answers d w with
  | (.ok (), w) => (⟨true, device, removed.length, skipped⟩, w)
  | (.error .notFound, w) => (⟨false, failedDevice device nodeId "device_not_found"
      ("The device was already gone when it was deleted." ++ alreadyRemovedNote removed),
      removed.length, skipped⟩, w)
  | (.error (.other code message), w) =>
    let device := if removed = [] then failedDevice device nodeId code message
      else failedDevice device nodeId "device_delete_failed"
        ("The device could not be removed." ++ alreadyRemovedNote removed)
    (⟨false, device, removed.length, skipped⟩, w)

/-- What `_remove` does once it has the id of the device. -/
def removeResolved (device : DeviceContext) (d : String) (w : World) : Removal × World :=
  if d ∉ w.nautobot.devices then
    (⟨false, failedDevice device nodeId "device_not_found"
      "The device was not found in Nautobot; nothing was removed", 0, 0⟩, w)
  else if parsed.removeIpAddresses then
    let (owned, shared) := listDeviceIpIds sets w.nautobot d
    match removeIps answers d owned w with
    | ((removed, some ip), w) => (⟨false, failedDevice device nodeId "ip_delete_failed"
        (s!"IP address {ip} could not be removed; the device was not removed." ++
          alreadyRemovedNote removed), removed.length, shared.length⟩, w)
    | ((removed, none), w) => finishRemoval answers nodeId device d removed shared.length w
  else finishRemoval answers nodeId device d [] 0 w

/-- `_remove`; what resolving the id raises is not caught. -/
def remove (device : DeviceContext) (w : World) : Except PyException Removal × World :=
  match resolveDeviceUuid env parsed device with
  | .error e => (.error e, w)
  | .ok (.error (code, message)) => (.ok ⟨false, failedDevice device nodeId code message, 0, 0⟩, w)
  | .ok (.ok d) =>
    let (removal, w) := removeResolved sets answers parsed nodeId device d w
    (.ok removal, w)

/-- The devices one after another, as with address removal. A task that raises does not stop the
others. -/
def removeAll : List DeviceContext → World → List (Except PyException Removal) × World
  | [], w => ([], w)
  | device :: devices, w =>
    let (result, w) := remove sets answers env parsed nodeId device w
    let (results, w) := removeAll devices w
    (result :: results, w)

/-- `buckets[name]`, with the devices under their ids. -/
def bucket (success : Bool) (devices : List DeviceContext) (removals : List Removal) :
    Dict DeviceContext :=
  Dict.ofPairs (((devices.zip removals).filter fun r => r.2.success = success).map
    fun r => (r.1.id, r.2.device))

/-- What `execute` leaves by its two outcomes, and Nautobot once all tasks are done. The first
exception of a task ends the step. -/
def execute (context : WorkflowContext) (s : Nautobot) :
    Except PyException (List StepOutcome) × World :=
  let devices := context.devices.values
  let (results, w) := removeAll sets answers env parsed nodeId devices { nautobot := s }
  let outcomes := (results.mapM id).map fun removals =>
    let success := bucket true devices removals
    let failure := bucket false devices removals
    let counts := Json.obj [("devices_removed", .int success.keys.length),
      ("ips_removed", .int (removals.map Removal.ipsRemoved).sum),
      ("ips_shared_skipped", .int (removals.map Removal.ipsSharedSkipped).sum),
      ("failed", .int failure.keys.length)]
    let metadata := context.metadata.insert s!"{nodeId}.remove_counts" counts
    [⟨"success", { context with devices := success, metadata }⟩,
      ⟨"failure", { context with devices := failure, metadata }⟩]
  (outcomes, w)

end Step

end Manus.RemoveFromNautobot
