import Manus.Context.AttributePath
import Manus.Lib.Regex

/-! # Lines that hand devices to another workflow

A workflow takes its devices from a text, one line with a name, an address and a driver
for each. A device without a usable name or address has no line.
-/

namespace Manus.Children

/-- What drivers are called, and how text is put in small letters. -/
structure DriverNames where
  isNetmikoType : String → Bool
  lower : String → String

section Drivers

def platformMap : List (String × String) :=
  [("ios", "cisco_ios"), ("cisco_ios", "cisco_ios"), ("cisco", "cisco_ios"),
    ("nxos", "cisco_nxos"), ("nx_os", "cisco_nxos"), ("cisco_nxos", "cisco_nxos"),
    ("cisco_nx_os", "cisco_nxos"), ("asa", "cisco_asa"), ("cisco_asa", "cisco_asa"),
    ("xe", "cisco_xe"), ("iosxe", "cisco_xe"), ("ios_xe", "cisco_xe"), ("cisco_xe", "cisco_xe"),
    ("cisco_ios_xe", "cisco_xe"), ("cisco_iosxe", "cisco_xe"), ("xr", "cisco_xr"),
    ("iosxr", "cisco_xr"), ("ios_xr", "cisco_xr"), ("cisco_xr", "cisco_xr"),
    ("cisco_ios_xr", "cisco_xr"), ("cisco_iosxr", "cisco_xr"), ("junos", "juniper_junos"),
    ("juniper", "juniper_junos"), ("juniper_junos", "juniper_junos"), ("arista", "arista_eos"),
    ("eos", "arista_eos"), ("arista_eos", "arista_eos"), ("hp", "hp_comware"),
    ("comware", "hp_comware"), ("hp_comware", "hp_comware")]

/-- `re.sub(r"[\s\-]+", "_", text)`; inside a run of them nothing more is written. -/
def joinWords (inside : Bool) : List Char → List Char
  | [] => []
  | c :: text =>
    if isPySpace c ∨ c = '-' then
      if inside then joinWords true text else '_' :: joinWords true text
    else c :: joinWords false text

variable (names : DriverNames)

/-- `_normalize`. -/
def normalize (value : String) : String :=
  String.ofList (joinWords false (names.lower (String.ofList (pyStrip value.toList))).toList)

/-- `resolve_netmiko_device_type`, if some candidate names a known platform. -/
def resolveNetmikoDeviceType (networkDriver platform : Option String) : Option String :=
  [networkDriver, platform].findSome? fun candidate =>
    (candidate.filter (· ≠ "")).bind fun candidate =>
      let key := normalize names candidate
      match platformMap.lookup key with
      | some type => some type
      | none => if names.isNetmikoType key then some key else none

/-- `(text or "").strip()`. -/
def cleanText (text : Option String) : String := String.ofList (pyStrip (text.getD "").toList)

/-- `forwardable_driver`. -/
def forwardableDriver (networkDriver platform : Option String) : String :=
  let orNone := fun text => if cleanText text = "" then none else some (cleanText text)
  (resolveNetmikoDeviceType names (orNone networkDriver) (orNone platform)).getD ""

end Drivers

section Addresses

open Regex

/-- `$`: the end, or a line break before the end. -/
def textEnd : Regex :=
  let atEnd := notAhead (char fun _ => true)
  oneOf [atEnd, ahead (seq (char (· == '\n')) atEnd)]

def digits (atMost : ℕ) : Regex :=
  rep (char fun c => (decimalDigit? c).isSome) 1 (some atMost) false

def prefixLength (atMost : ℕ) : Regex := optional (seq (char (· == '/')) (digits atMost))

/-- `^(\d{1,3}\.){3}\d{1,3}(\/\d{1,2})?$` -/
def ipv4Pattern : Regex :=
  concat [rep (seq (digits 3) (char (· == '.'))) 3 (some 3) false, digits 3, prefixLength 2,
    textEnd]

def isHexDigit (c : Char) : Bool := c.isDigit || c.toLower ∈ ['a', 'b', 'c', 'd', 'e', 'f']

/-- `^([0-9a-fA-F]{0,4}:){2,7}[0-9a-fA-F]{0,4}(\/\d{1,3})?$` -/
def ipv6Pattern : Regex :=
  let quad := rep (char isHexDigit) 0 (some 4) false
  concat [rep (seq quad (char (· == ':'))) 2 (some 7) false, quad, prefixLength 3, textEnd]

/-- `validate_ip_address`. -/
def validateIpAddress (ip : String) : Bool :=
  [ipv4Pattern, ipv6Pattern].any fun pattern =>
    !(pattern.run { last := none, rest := ip.toList }).isEmpty

end Addresses

section Lines

def isLineBreak (c : Char) : Bool :=
  c.toNat ∈ [0x0a, 0x0b, 0x0c, 0x0d, 0x1c, 0x1d, 0x1e, 0x85, 0x2028, 0x2029]

/-- `text.splitlines()`, with the line so far. -/
def splitLines (line : List Char) : List Char → List (List Char)
  | [] => if line = [] then [] else [line]
  | '\r' :: '\n' :: text => line :: splitLines [] text
  | c :: text => if isLineBreak c then line :: splitLines [] text else splitLines (line ++ [c]) text

/-- `device_line`. -/
def deviceLine (names : DriverNames) (name ip networkDriver platform : Option String) :
    Option String :=
  let cleanName :=
    let name := cleanText name
    if name = "" ∨ ',' ∈ name.toList ∨ (splitLines [] name.toList).length ≠ 1 then "" else name
  let cleanIp :=
    let ip := cleanText ip
    if ip ≠ "" ∧ ¬ validateIpAddress ip then "" else ip
  if cleanName = "" ∧ cleanIp = "" then none
  else
    let driver := forwardableDriver names networkDriver platform
    if driver ≠ "" then some (cleanName ++ "," ++ cleanIp ++ "," ++ driver)
    else if cleanName ≠ "" ∧ cleanIp ≠ "" then some (cleanName ++ "," ++ cleanIp)
    else some (if cleanName ≠ "" then cleanName else cleanIp)

/-- `bare_hostname`. -/
def bareHostname (primaryIp4 : Option String) (fallback : String) : String :=
  match primaryIp4 with
  | none | some "" => fallback
  | some address => String.ofList (address.toList.takeWhile (· ≠ '/'))

end Lines

end Manus.Children
