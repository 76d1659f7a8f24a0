import Manus.Context.AttributePath
import Manus.Lib.Digits
import Mathlib.Data.Prod.Lex
import Mathlib.Data.String.Basic
import Mathlib.Data.Int.Order.Basic

/-! # Virtual chassis

A stack of switches is one device for the network and several in the inventory. It
comes into a workflow as one device, whose attribute bag has a record for every
member, or already split; the one device can be split by a later step.
-/

namespace Manus.VirtualChassis

section Settings

/-- A match, with the text of each group; group 0 is the whole match. -/
structure Match where
  group : ℕ → Option String

structure Pattern where
  groups : ℕ
  search : String → Option Match

structure StackSettings where
  nameFilter : String
  nameMatch : String
  nameFilterRegex : Option Pattern
  splitMembers : Bool
  indexRegex : Pattern
  indexOffset : ℤ
  indexDefault : ℤ
  attributeBag : String
  indexKey : String

/-- `value or default` -/
def orElse (value : Option Json) (default : Json) : Json :=
  if (value.getD .null).truthy then value.getD .null else default

/-- `str(config.get(key) or default).strip()` -/
def configText (config : Dict Json) (key default : String) : String :=
  String.ofList (pyStrip (pyStr (orElse (config.get? key) (.str default))).toList)

/-- `parse_bool_flag(config, key)` -/
def parseBoolFlag (config : Dict Json) (key : String) : Except String Bool :=
  let refused (value : Json) := s!"{key} must be true or false, got {pyReprJson value}"
  match (config.get? key).getD (.bool false) with
  | .null => .ok false
  | .bool b => .ok b
  | .int n => .ok (n ≠ 0)
  | .str text =>
    let word := String.ofList ((pyStrip text.toList).map Char.toLower)
    if word ∈ ["1", "true", "yes", "on"] then .ok true
    else if word ∈ ["0", "false", "no", "off", ""] then .ok false
    else .error (refused (.str text))
  | value => .error (refused value)

def stepId : String := "get-virtual-chassis"

/-- `_as_int` -/
def asInt (config : Dict Json) (key : String) (default : ℤ) : Except String ℤ :=
  let refused (raw : Json) := s!"{stepId}: {key} must be an integer (got {pyReprJson raw})"
  match (config.get? key).getD .null with
  | .null => .ok default
  | .bool _ => .error s!"{stepId}: {key} must be an integer"
  | .int n => .ok n
  | .str text =>
    if pyStrip text.toList = [] then .ok default
    else (intOfText text.toList).elim (.error (refused (.str text))) .ok
  | raw => .error (refused raw)

def maxRegexLength : ℕ := 200

variable (compile : String → Except String Pattern)

/-- `_compile`, by the regular expressions of the language. -/
def compilePattern (pattern key : String) : Except String Pattern :=
  if pyStrip pattern.toList = [] then .error s!"{stepId}: {key} must not be empty"
  else if maxRegexLength < pattern.length then
    .error s!"{stepId}: {key} is longer than {maxRegexLength} characters"
  else (compile pattern).mapError fun message =>
    s!"{stepId}: {key} is not a valid regular expression: {message}"

/-- A name that can be one segment of a path. -/
def plainName (config : Dict Json) (key default : String) : Except String String :=
  let value := configText config key default
  if value = "" ∨ '.' ∈ value.toList then
    .error s!"{stepId}: {key} must be a non-empty name without dots"
  else .ok value

def reservedBagNames : List String := ["parsed", "run_input"]

def bagName (config : Dict Json) : Except String String := do
  let name ← plainName config "attribute_bag" "virtual_chassis"
  if name ∈ reservedBagNames ∨ name ∈ deviceScalarFields then
    .error s!"{stepId}: attribute_bag {reprText name} is a reserved name"
  else .ok name

def nameMatchModes : List String := ["exact", "contains", "regex"]

def parseSettings (config : Dict Json) : Except String StackSettings := do
  let nameMatch := configText config "name_match" "exact"
  if nameMatch ∉ nameMatchModes then
    .error (s!"{stepId}: name_match must be one of " ++ ", ".intercalate nameMatchModes)
  else
    let nameFilter := configText config "name_filter" ""
    let nameFilterRegex ←
      if nameMatch = "regex" ∧ nameFilter ≠ "" then
        (compilePattern compile nameFilter "name_filter").map some
      else .ok none
    let splitMembers ← parseBoolFlag config "split_members"
    let indexRegex ← compilePattern compile
      (pyStr (orElse (config.get? "index_regex") (.str ":(\\d+)"))) "index_regex"
    let indexOffset ← asInt config "index_offset" (-1)
    let indexDefault ← asInt config "index_default" 0
    let attributeBag ← bagName config
    let indexKey ← plainName config "index_key" "stack_index"
    .ok { nameFilter, nameMatch, nameFilterRegex, splitMembers, indexRegex, indexOffset,
          indexDefault, attributeBag, indexKey }

def memberIndex (name : String) (settings : StackSettings) : ℤ :=
  match settings.indexRegex.search name with
  | none => settings.indexDefault
  | some found =>
    let raw := if settings.indexRegex.groups ≠ 0 then found.group 1 else found.group 0
    match raw.bind fun text => intOfText text.toList with
    | some n => n + settings.indexOffset
    | none => settings.indexDefault

end Settings

section Members

/-- A member of a stack and its place. The objects of a response are distinct, so places tell
whether two members are one object. -/
abbrev Member := Json × ℕ

/-- `value.get(key)`, `None` when absent. -/
def field (value : Json) (key : String) : Json := (value.get? key).getD .null

/-- Members with a position come first, then names decide. -/
def positionKey (member : Json) : Bool ×ₗ ℤ ×ₗ String :=
  let position := (field member "vc_position").asInt?
  toLex (position.isNone, toLex (position.getD 0, pyStr (orElse (member.get? "name") (.str ""))))

def comesBefore (a b : Json) : Bool := decide (positionKey a ≤ positionKey b)

def orderedMembers (vc : Json) : List Member :=
  match field vc "members" with
  | .arr raw => ((raw.filter isObject).mergeSort comesBefore).zipIdx
  | _ => []

/-- The member flagged as the master, or else the first by position. -/
def pickMaster (members : List Member) : Option Member :=
  match members.find? fun member => (field member.1 "vc_master_for").truthy with
  | some member => some member
  | none => (members.mergeSort fun a b => comesBefore a.1 b.1).head?

def nestedText (outer inner : String) (member : Json) : Option String :=
  let value := field (field member outer) inner
  if value.truthy then some (pyStr value) else none

def addressOf : Json → Option String := nestedText "primary_ip4" "address"

def deviceTypeModel : Json → Option String := nestedText "device_type" "model"

def nameOf (member : Json) : String := pyStr (orElse (member.get? "name") (.str ""))

def memberRecord (member master : Member) : Dict Json where
  entries := [
    ("id", field member.1 "id"),
    ("name", .str (nameOf member.1)),
    ("position", field member.1 "vc_position"),
    ("priority", field member.1 "vc_priority"),
    ("serial", orElse (member.1.get? "serial") .null),
    ("device_type", optionalText (deviceTypeModel member.1)),
    ("primary_ip4", optionalText (addressOf member.1)),
    ("is_master", .bool (member.2 = master.2))]
  nodup := by simp

/-- `_member_record`: the record with the index of the step under the key of the settings. -/
def indexedRecord (settings : StackSettings) (master member : Member) : Dict Json :=
  (memberRecord member master).insert settings.indexKey
    (.int (memberIndex (nameOf member.1) settings))

/-- Fields of a record that become fields of the device. -/
def deviceLevelRecordFields : List String := ["id", "name", "primary_ip4"]

def stackFields (vcId vcName : String) (memberCount : ℕ) : Dict Json where
  entries := [("vc_id", .str vcId), ("vc_name", .str vcName), ("member_count", .int memberCount)]
  nodup := by simp

def memberBag (vcId vcName : String) (memberCount : ℕ) (record : List (String × Json))
    (masterName : String) : Dict Json :=
  ((record.filter fun entry => entry.1 ∉ deviceLevelRecordFields).foldl
    (fun bag entry => bag.insert entry.1 entry.2) (stackFields vcId vcName memberCount)).insert
    "master_name" (.str masterName)

end Members

section Build

inductive Raised where
  /-- A device has a field that is not text. -/
  | validationError (field : String)
  /-- `next` of nothing. -/
  | stopIteration
  deriving DecidableEq

def textField (name : String) : Json → Except Raised String
  | .str text => .ok text
  | _ => .error (.validationError name)

/-- Validation of a field that is text or absent. -/
def optionalTextField (name : String) : Json → Except Raised (Option String)
  | .null => .ok none
  | .str text => .ok (some text)
  | _ => .error (.validationError name)

/-- The address without its prefix length, or the fallback. -/
def bareHostname (primaryIp4 : String) (fallback : Json) : Json :=
  if primaryIp4 ≠ "" then .str (String.ofList (primaryIp4.toList.takeWhile (· ≠ '/'))) else fallback

/-- `_platform`: name and driver. -/
def platformOf (member : Json) : Json × Json :=
  (orElse ((field member "platform").get? "name") .null,
    orElse ((field member "platform").get? "network_driver") .null)

variable (settings : StackSettings) (sourceId nodeId : String)

/-- A device of a stack that can be reached, as validated. -/
def reachableDevice (id masterIp : String) (name : Json) (platform : Json × Json)
    (bag : Dict Json) : Except Raised DeviceContext := do
  let name' ← textField "name" name
  let hostname ← textField "hostname" (bareHostname masterIp name)
  let platformName ← optionalTextField "platform" platform.1
  let networkDriver ← optionalTextField "network_driver" platform.2
  .ok {
    id := id, name := name', hostname := hostname, platform := platformName
    networkDriver := networkDriver, primaryIp4 := some masterIp, source := "nautobot"
    sourceId := sourceId, attributeBags := (∅ : Dict (Dict Json)).insert settings.attributeBag bag
    capabilities := {.identity}, status := .ok }

def failedDevice (message : String) (identity : String × String) : DeviceContext where
  id := identity.1
  name := identity.2
  hostname := identity.2
  source := "nautobot"
  sourceId := sourceId
  capabilities := {.identity}
  status := .failed
  errors := [⟨nodeId, stepId, "no_primary_ip", message⟩]

def vcIdOf (vc : Json) : String := pyStr (orElse (vc.get? "id") (.str ""))

def vcNameOf (vc : Json) : String := pyStr (orElse (vc.get? "name") (.str (vcIdOf vc)))

def stackBag (vc : Json) (records : List (Dict Json)) (masterRecord : Dict Json) : Dict Json where
  entries := [
    ("vc_id", .str (vcIdOf vc)),
    ("vc_name", .str (vcNameOf vc)),
    ("member_count", .int records.length),
    ("master", .obj masterRecord.entries),
    ("members", .arr (records.map fun record => .obj record.entries))]
  nodup := by simp

/-- The record that is put down for the master. -/
def masterRecordOf (records : List (Dict Json)) : Option (Dict Json) :=
  records.find? fun record => ((record.get? "is_master").getD .null).truthy

def buildWhole (vc : Json) (master : Member) (masterIp : String) (records : List (Dict Json)) :
    Except Raised (List DeviceContext) :=
  match masterRecordOf records with
  | none => .error .stopIteration
  | some masterRecord => do
    let device ← reachableDevice settings sourceId (pyStr (field master.1 "id")) masterIp
      (.str (vcNameOf vc)) (platformOf master.1) (stackBag vc records masterRecord)
    .ok [device]

/-- What the platform of a member is, or else of the master. -/
def platformOr (member master : Json) : Json × Json :=
  (orElse (some (platformOf member).1) (platformOf master).1,
    orElse (some (platformOf member).2) (platformOf master).2)

def buildMember (vc : Json) (memberCount : ℕ) (master : Member) (masterIp : String)
    (member : Member) : Except Raised DeviceContext :=
  let record := indexedRecord settings master member
  reachableDevice settings sourceId (pyStr (field member.1 "id")) masterIp
    ((record.get? "name").getD .null) (platformOr member.1 master.1)
    (memberBag (vcIdOf vc) (vcNameOf vc) memberCount record.entries (nameOf master.1))

def buildStackDevices (vc : Json) : Except Raised (List DeviceContext) :=
  let members := orderedMembers vc
  let failed (reason : String) (identities : List (String × String)) :=
    identities.map (failedDevice sourceId nodeId
      s!"Virtual chassis {reprText (vcNameOf vc)} {reason}")
  match pickMaster members with
  | none => .ok (failed "has no members" [(vcIdOf vc, vcNameOf vc)])
  | some master =>
    match addressOf master.1 with
    | none => .ok (failed "master member has no primary IPv4"
        (if settings.splitMembers then
          members.map fun member => (pyStr (field member.1 "id"), pyStr (field member.1 "name"))
        else [(pyStr (field master.1 "id"), vcNameOf vc)]))
    | some masterIp =>
      if settings.splitMembers then
        members.mapM (buildMember settings sourceId vc members.length master masterIp)
      else buildWhole settings sourceId vc master masterIp
        (members.map (indexedRecord settings master))

end Build

section Split

/-- `_member_records` -/
def memberRecords (bag : Dict Json) : Option (List Json) :=
  match (bag.get? "members").getD .null with
  | .arr members =>
    let records := members.filter fun member => isObject member && (field member "id").truthy
    if members ≠ [] ∧ records.length = members.length then some records else none
  | _ => none

/-- The device of one member, from its record in the bag of the stack. -/
def splitMember (device : DeviceContext) (attributeBag vcId vcName masterName : String)
    (memberCount : ℕ) (record : Json) : DeviceContext :=
  { device with
    id := pyStr (field record "id")
    name := pyStr (orElse (record.get? "name") (field record "id"))
    source := "nautobot"
    attributeBags := (device.attributeBags.restrict (· ≠ attributeBag)).insert attributeBag
      (memberBag vcId vcName memberCount (fieldsOf record) masterName)
    status := .ok
    errors := [] }

def splitStackDevice (device : DeviceContext) (attributeBag : String) :
    Option (List DeviceContext) := do
  let bag ← device.attributeBags.get? attributeBag
  let records ← memberRecords bag
  let masterName := nameOf ((bag.get? "master").getD .null)
  let vcId := pyStr (orElse (bag.get? "vc_id") (.str ""))
  let vcName := pyStr (orElse (bag.get? "vc_name") (.str device.name))
  return records.map (splitMember device attributeBag vcId vcName masterName records.length)

end Split

end Manus.VirtualChassis
