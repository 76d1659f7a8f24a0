import Manus.Context.AttributePath

/-! # Updating the interfaces of a device

The interfaces that are not wanted any more are deleted, the addresses are made sure of, and then
each interface is created or patched, freed from its addresses and given the wanted ones. What
Nautobot answers to each request is an input; a request that fails may have been carried out.
-/

namespace Manus.InterfaceUpdate

/-- The id of an interface: an old one, or the one created for a specification. -/
inductive InterfaceId where
  | existing (id : String)
  | created (spec : ℕ)
  deriving DecidableEq, Repr

/-- The id of an assignment: an old one, or the one made for an address of a specification. -/
inductive AssignmentId where
  | existing (id : String)
  | created (spec address : ℕ)
  deriving DecidableEq, Repr

structure Interface where
  id : InterfaceId
  name : String
  deriving DecidableEq, Repr

structure Assignment where
  id : AssignmentId
  interface : InterfaceId
  ip : String
  deriving DecidableEq, Repr

@[ext]
structure Device where
  interfaces : List Interface
  assignments : List Assignment

/-- A device as Nautobot stores it: names and ids are unique, and all ids are old. -/
structure StoredDevice extends Device where
  names_nodup : (interfaces.map Interface.name).Nodup
  interfaceIds_nodup : (interfaces.map Interface.id).Nodup
  assignmentIds_nodup : (assignments.map Assignment.id).Nodup
  interfaceIds_old : ∀ i ∈ interfaces, ∃ id, i.id = .existing id
  assignmentIds_old : ∀ a ∈ assignments, ∃ id, a.id = .existing id

structure IpData where
  address : Option String
  isPrimary : Bool

/-- A specification of an interface. `references` are the VLANs and the VRF to be looked up. -/
structure InterfaceSpec where
  name : Option String
  ipAddresses : List IpData
  ipAddress : Option String
  isPrimaryIpv4 : Bool
  type : Option String
  typeIfNew : Option String
  status : Option String
  references : List String

structure Failure where
  message : String
  /-- The request was carried out all the same. -/
  applied : Bool

inductive CreateAnswer where
  | created
  /-- The interface was created, but the answer has no id. -/
  | noId
  | failed (failure : Failure)

/-- What Nautobot answers, by the object that a request is about or by the specification (and its
address) that it is made for. No request is made twice. -/
structure Answers where
  listInterfaces : Option String
  listAssignments : InterfaceId → Option String
  deleteAssignment : AssignmentId → Option Failure
  deleteInterface : InterfaceId → Option Failure
  ensureIp : ℕ → ℕ → Except String String
  resolves : ℕ → Bool
  resolvesAgain : ℕ → Bool
  lookup : ℕ → String → Option String
  patch : ℕ → Option String
  create : ℕ → CreateAnswer
  checkAssignment : ℕ → ℕ → Option String
  assign : ℕ → ℕ → Option Failure
  setLag : ℕ → Option String
  setPrimary : Option String
  pageSize : ℕ

/-- `InterfaceUpdateState`, with the device that is updated. -/
structure Progress where
  device : Device
  createdInterfaces : List String := []
  updatedInterfaces : List String := []
  failedInterfaces : List String := []
  ipAddressMap : List (String × String) := []
  primaryIpv4Id : Option String := none
  warnings : List String := []
  cleanedInterfaces : List InterfaceId := []
  interfacesDeleted : ℕ := 0
  interfaceIdMap : List (String × InterfaceId) := []

inductive Raised where
  | keyError
  | noParentPrefix (message : String)
  deriving DecidableEq, Repr

section Texts

def strip (text : String) : String := String.ofList (pyStrip text.toList)

def containsText (part text : String) : Bool :=
  text.toList.tails.any fun rest => part.toList.isPrefixOf rest

end Texts

namespace Progress

def warn (p : Progress) (warning : String) : Progress :=
  { p with warnings := p.warnings ++ [warning] }

def warnIf (p : Progress) (lead : String) : Option String → Progress
  | some message => p.warn (lead ++ message)
  | none => p

def setAssignments (p : Progress) (assignments : List Assignment) : Progress :=
  { p with device := { p.device with assignments } }

def removeAssignment (p : Progress) (id : AssignmentId) : Progress :=
  p.setAssignments (p.device.assignments.filter fun a => a.id ≠ id)

def removeInterface (p : Progress) (id : InterfaceId) : Progress :=
  { p with device := {
      interfaces := p.device.interfaces.filter fun i => i.id ≠ id
      assignments := p.device.assignments.filter fun a => a.interface ≠ id } }

def addInterface (p : Progress) (i : Interface) : Progress :=
  { p with device := { p.device with interfaces := p.device.interfaces ++ [i] } }

def addAssignment (p : Progress) (a : Assignment) : Progress :=
  p.setAssignments (p.device.assignments ++ [a])

end Progress

variable (answers : Answers)

section Clean

/-- The assignments of an interface on the first page. -/
def page (assignments : List Assignment) (id : InterfaceId) : List Assignment :=
  (assignments.filter fun a => a.interface = id).take answers.pageSize

/-- A request without a failure was carried out. -/
def applied : Option Failure → Bool
  | some failure => failure.applied
  | none => true

def unassign (interfaceName : String) (p : Progress) (a : Assignment) : Progress :=
  let p := if applied (answers.deleteAssignment a.id) then p.removeAssignment a.id else p
  p.warnIf s!"Interface {interfaceName}: Failed to unassign existing IP: "
    ((answers.deleteAssignment a.id).map Failure.message)

/-- `_clean_interface_ips` -/
def cleanInterfaceIps (id : InterfaceId) (interfaceName : String) (p : Progress) : Progress :=
  match answers.listAssignments id with
  | some message =>
    p.warn s!"Interface {interfaceName}: Failed to check existing IP assignments: {message}"
  | none => (page answers p.device.assignments id).foldl (unassign answers interfaceName) p

end Clean

section Orphans

def desiredNames (specs : List InterfaceSpec) : List String :=
  (specs.filterMap fun spec => spec.name.map strip).filter (· ≠ "")

/-- An interface to be deleted. -/
def isOrphan (desired : List String) (i : Interface) : Bool :=
  strip i.name ≠ "" && strip i.name ∉ desired

def deleteOrphan (desired : List String) (p : Progress) (i : Interface) : Progress :=
  if isOrphan desired i then
    let name := strip i.name
    let p := cleanInterfaceIps answers i.id name p
    let p := if applied (answers.deleteInterface i.id) then p.removeInterface i.id else p
    match answers.deleteInterface i.id with
    | none => { p with interfacesDeleted := p.interfacesDeleted + 1 }
    | some failure => p.warn s!"Failed to delete interface {name}: {failure.message}"
  else p

/-- `_delete_orphan_device_interfaces` -/
def deleteOrphanDeviceInterfaces (desired : List String) (p : Progress) : Progress :=
  match answers.listInterfaces with
  | some message => p.warn s!"Failed to list device interfaces for sync: {message}"
  | none => p.device.interfaces.foldl (deleteOrphan answers desired) p

end Orphans

section Addresses

/-- `normalize_interface_ip_list` -/
def normalizeInterfaceIpList (spec : InterfaceSpec) : List IpData :=
  if spec.ipAddresses = [] then
    match given spec.ipAddress with
    | some address => [{ address := some address, isPrimary := spec.isPrimaryIpv4 }]
    | none => []
  else spec.ipAddresses

def ipMapKey (interfaceName ipAddress : String) : String := s!"{interfaceName}:{ipAddress}"

/-- The message of an error that is raised again. -/
def noSuitableParent (message : String) : Bool := containsText "No suitable parent prefix" message

/-- `_ensure_one_interface_ip` -/
def ensureOneInterfaceIp (addPrefixesAutomatically : Bool) (k : ℕ) (name : String) (p : Progress)
    (entry : IpData × ℕ) : Except Raised Progress :=
  match given entry.1.address with
  | none => .ok p
  | some address =>
    match answers.ensureIp k entry.2 with
    | .ok ip => .ok { p with ipAddressMap := (ipMapKey name address, ip) :: p.ipAddressMap }
    | .error message =>
      if noSuitableParent message && !addPrefixesAutomatically then .error (.noParentPrefix message)
      else .ok (p.warn s!"Interface {name}: Failed to ensure IP address {address}: {message}")

def ensureInterfaceIps (addPrefixesAutomatically : Bool) (p : Progress)
    (entry : InterfaceSpec × ℕ) : Except Raised Progress :=
  match entry.1.name with
  | none => .error .keyError
  | some name => (normalizeInterfaceIpList entry.1).zipIdx.foldlM
      (ensureOneInterfaceIp answers addPrefixesAutomatically entry.2 name) p

/-- `_create_ip_addresses` -/
def createIpAddresses (addPrefixesAutomatically : Bool) (specs : List InterfaceSpec)
    (p : Progress) : Except Raised Progress :=
  specs.zipIdx.foldlM (ensureInterfaceIps answers addPrefixesAutomatically) p

end Addresses

section Records

/-- `resolve_interface_by_name`, when it succeeds. -/
def findByName (device : Device) (name : String) : Option InterfaceId :=
  (device.interfaces.find? fun i => i.name = name).map Interface.id

/-- What has to be looked up for an interface: a new one has a status in any case. -/
def lookups (spec : InterfaceSpec) (isNew : Bool) : List String :=
  (match given spec.status with
    | some status => [status]
    | none => if isNew then ["active"] else []) ++ spec.references

def lookupError (k : ℕ) (names : List String) : Option String :=
  names.findSome? (answers.lookup k)

def typeOf (spec : InterfaceSpec) : Option String :=
  let stripped := fun text : Option String => given (text.map strip)
  (stripped spec.type).or (stripped spec.typeIfNew)

def uniqueMessage : String := "The fields device, name must make a unique set."

def mustBeUnique (message : String) : Bool :=
  containsText "must make a unique set" (String.ofList (message.toList.flatMap lowerChar))

abbrev Upserted := Progress × Except String (Option InterfaceId × Bool)

/-- The branch of `_create_interface_with_race_fallback` behind the error. -/
def raceFallback (k : ℕ) (name message : String) (p : Progress) : Upserted :=
  if mustBeUnique message then
    match if answers.resolvesAgain k then findByName p.device name else none with
    | some id =>
      (p.warnIf s!"Interface {name}: Failed to patch: " (answers.patch k), .ok (some id, true))
    | none =>
      (p.warn s!"Interface {name}: Interface exists but could not be found", .ok (none, false))
  else (p.warn s!"Interface {name}: Failed to create interface: {message}", .ok (none, false))

/-- `_create_interface_with_race_fallback`; Nautobot refuses a second interface of one name. -/
def createInterface (k : ℕ) (name : String) (p : Progress) : Upserted :=
  let free := (findByName p.device name).isNone
  let added := if free then p.addInterface ⟨.created k, name⟩ else p
  match answers.create k with
  | .failed failure =>
    raceFallback answers k name failure.message (if failure.applied then added else p)
  | .created =>
    if free then (added, .ok (some (.created k), false))
    else raceFallback answers k name uniqueMessage p
  | .noId =>
    if free then (added, .ok (none, false)) else raceFallback answers k name uniqueMessage p

/-- `_create_or_update_interface` -/
def createOrUpdateInterface (k : ℕ) (spec : InterfaceSpec) (name : String) (p : Progress) :
    Upserted :=
  match if answers.resolves k then findByName p.device name else none with
  | some id =>
    match lookupError answers k (lookups spec false) with
    | some message => (p, .error message)
    | none =>
      (p.warnIf s!"Interface {name}: Failed to update: " (answers.patch k), .ok (some id, true))
  | none =>
    match typeOf spec with
    | none =>
      (p.warn s!"Interface {name}: 'type' is required but was not provided — skipping",
        .ok (none, false))
    | some _ =>
      match lookupError answers k (lookups spec true) with
      | some message => (p, .error message)
      | none => createInterface answers k name p

end Records

section Assign

/-- `_assign_ip_to_interface` -/
def assignIpToInterface (k j : ℕ) (name address : String) (id : InterfaceId) (p : Progress) :
    Progress × Option String :=
  match p.ipAddressMap.lookup (ipMapKey name address) with
  | none => (p, none)
  | some ip =>
    let failed := s!"Interface {name}: Failed to assign IP address: "
    match answers.checkAssignment k j with
    | some message => (p.warn (failed ++ message), none)
    | none =>
      if p.device.assignments.any fun a => a.ip = ip && a.interface = id then (p, some ip)
      else
        let assigned := p.addAssignment ⟨.created k j, id, ip⟩
        match answers.assign k j with
        | none => (assigned, some ip)
        | some failure =>
          ((if failure.applied then assigned else p).warn (failed ++ failure.message), none)

/-- One address of `_assign_ips_for_interface`. -/
def assignOne (k : ℕ) (name : String) (id : InterfaceId) (p : Progress) (entry : IpData × ℕ) :
    Progress :=
  match given entry.1.address with
  | none => p
  | some address =>
    match assignIpToInterface answers k entry.2 name address id p with
    | (p, some ip) =>
      if ':' ∉ address.toList && (entry.1.isPrimary || p.primaryIpv4Id = none) then
        { p with primaryIpv4Id := some ip }
      else p
    | (p, none) => p

end Assign

section Service

def remember (name : String) (id : InterfaceId) (wasUpdated : Bool) (p : Progress) : Progress :=
  let p := { p with interfaceIdMap := (name, id) :: p.interfaceIdMap }
  if wasUpdated then
    if name ∈ p.updatedInterfaces then p
    else { p with updatedInterfaces := p.updatedInterfaces ++ [name] }
  else if name ∈ p.createdInterfaces then p
  else { p with createdInterfaces := p.createdInterfaces ++ [name] }

/-- The interface is freed from its addresses once. -/
def cleanOnce (id : InterfaceId) (name : String) (p : Progress) : Progress :=
  if id ∈ p.cleanedInterfaces then p
  else
    let p := cleanInterfaceIps answers id name p
    { p with cleanedInterfaces := id :: p.cleanedInterfaces }

/-- `_process_one_interface`. A specification without a name does not get here. -/
def processOneInterface (p : Progress) (entry : InterfaceSpec × ℕ) : Progress :=
  match entry.1.name with
  | none => p
  | some name =>
    match createOrUpdateInterface answers entry.2 entry.1 name p with
    | (p, .error message) =>
      { p with failedInterfaces := p.failedInterfaces ++ [name] }.warn
        s!"Interface {name}: Failed to process interface: {message}"
    | (p, .ok (none, _)) => p
    | (p, .ok (some id, wasUpdated)) =>
      let p := remember name id wasUpdated p
      if normalizeInterfaceIpList entry.1 = [] then p
      else (normalizeInterfaceIpList entry.1).zipIdx.foldl
        (assignOne answers entry.2 name id) (cleanOnce answers id name p)

/-- `_assign_lag_memberships` patches interfaces; what fails is a warning. -/
def assignLagMemberships (specs : List InterfaceSpec) (p : Progress) : Progress :=
  { p with warnings := p.warnings ++ specs.zipIdx.filterMap fun entry => answers.setLag entry.2 }

/-- `_set_primary_ipv4` -/
def setPrimaryIpv4 (p : Progress) : Progress :=
  match p.primaryIpv4Id with
  | some _ => p.warnIf "Failed to set primary IPv4: " answers.setPrimary
  | none => p

/-- The device afterwards, and what is returned or raised. -/
def updateDeviceInterfaces (device : Device) (specs : List InterfaceSpec)
    (addPrefixesAutomatically syncInterfaces : Bool) : Device × Except Raised Progress :=
  let start : Progress := { device }
  let p := if syncInterfaces then
      deleteOrphanDeviceInterfaces answers (desiredNames specs) start
    else start
  match createIpAddresses answers addPrefixesAutomatically specs p with
  | .error e => (p.device, .error e)
  | .ok p =>
    let p := specs.zipIdx.foldl (processOneInterface answers) p
    let p := setPrimaryIpv4 answers (assignLagMemberships answers specs p)
    (p.device, .ok p)

end Service

end Manus.InterfaceUpdate
