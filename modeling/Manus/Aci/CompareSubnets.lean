import Manus.Context.AttributePath
import Manus.Lib.IpAddress
import Manus.Lib.JsonText
import Mathlib.Data.List.Lex
import Mathlib.Data.String.Basic

/-! # Comparing ACI subnets with Nautobot prefixes

A subnet and a prefix are the same when the network and the namespace agree. A subnet that
Nautobot lacks is reported with the smallest prefix that contains it, which is looked up by
prefix length, from the longest one down.
-/

namespace Manus.AciSubnets

local instance placesLawful : LawfulBEq (Option String × String) := inferInstance

section Reader

variable {ν : Type}

structure NautobotPrefix where
  network : String
  space : Option String
  status : Option String
  type : Option String

/-- `_name` -/
def nameOf : Option (JsonValue ν) → Option String
  | some (.obj fields) =>
    match fields.lookup "name" with
    | some (.str name) => if name = "" then none else some name
    | _ => none
  | _ => none

/-- `_prefix`: a row of the answer, with the network in its canonical text. -/
def prefixOf : JsonValue ν → Option NautobotPrefix
  | .obj fields =>
    match fields.lookup "prefix" with
    | some (.str text) => (ipNetwork text.toList).map fun network =>
      { network := network.text
        space := nameOf (fields.lookup "namespace")
        status := nameOf (fields.lookup "status")
        type := match fields.lookup "type" with
          | some (.str kind) => some kind
          | _ => none }
    | _ => none
  | _ => none

end Reader

section Covering

/-- One address of `_by_length`, under its namespace, version and prefix length. -/
structure CoverEntry where
  space : Option String
  version : IpVersion
  prefixLength : ℕ
  address : ℕ
  deriving DecidableEq

def coverEntry (candidate : NautobotPrefix) : Option CoverEntry :=
  (ipNetwork candidate.network.toList).map fun network =>
    ⟨candidate.space, network.version, network.prefixLength, network.address⟩

/-- `_CoverIndex`: a prefix that does not parse is left out. -/
def coverIndex (nautobot : List NautobotPrefix) : List CoverEntry :=
  nautobot.filterMap coverEntry

variable (index : List CoverEntry) (space : Option String)

/-- The walk over the prefix lengths below one; `none` where the text cannot be made. -/
def coveringBelow (target : IpNetwork) : ℕ → Option (Option String)
  | 0 => some none
  | length + 1 =>
    let bits := target.version.bits
    let masked := (target.address >>> (bits - length)) <<< (bits - length)
    if ⟨space, target.version, length, masked⟩ ∈ index then
      (ipNetworkPair masked length).map fun network => some network.text
    else coveringBelow target length

/-- `covering`; a target that is no network raises. -/
def covering (target : String) : Option (Option String) :=
  (ipNetwork target.toList).bind fun network =>
    coveringBelow index space network network.prefixLength

end Covering

section Compare

inductive SubnetOwner where
  | bd
  | epg
  deriving DecidableEq

structure AciSubnet where
  network : String
  gateway : String
  tenant : String
  bridgeDomain : Option String
  vrf : Option String
  owner : SubnetOwner
  epg : Option String
  scope : List String

/-- `_owner` -/
structure Owner where
  tenant : String
  vrf : Option String
  bridgeDomain : Option String
  owner : SubnetOwner
  epg : Option String

def ownerOf (subnet : AciSubnet) : Owner :=
  ⟨subnet.tenant, subnet.vrf, subnet.bridgeDomain, subnet.owner, subnet.epg⟩

/-- `_item` -/
structure Item where
  network : String
  gateway : String
  space : String
  owner : Owner
  scope : List String

def item (subnet : AciSubnet) (space : String) : Item :=
  ⟨subnet.network, subnet.gateway, space, ownerOf subnet, subnet.scope⟩

/-- A namespace and a network. -/
abbrev Key := String × String

/-- What tells the owners of one network apart. -/
abbrev OwnerKey := String × Option String × SubnetOwner × Option String

def ownerKey (subnet : AciSubnet) : OwnerKey :=
  (subnet.tenant, subnet.bridgeDomain, subnet.owner, subnet.epg)

/-- Write the value of a key in place, or at the end for a new key. -/
def writeEntry {κ α : Type} [DecidableEq κ] (key : κ) (value : Option α → α) :
    List (κ × α) → List (κ × α)
  | [] => [(key, value none)]
  | (k, v) :: rest =>
    if k = key then (k, value (some v)) :: rest else (k, v) :: writeEntry key value rest

structure Skipped where
  network : String
  reason : String
  owner : Owner

/-- What the loop of `compare_subnets` collects. -/
structure Comparison where
  matched : List (Key × Item) := []
  missing : List (Key × Item × Option String) := []
  owners : List (Key × List (OwnerKey × AciSubnet)) := []
  skipped : List Skipped := []

def Comparison.has (c : Comparison) (key : Key) : Bool :=
  key ∈ c.matched.map Prod.fst || key ∈ c.missing.map Prod.fst

variable (nautobot : List NautobotPrefix) (space : String) (fromVrf : Bool)

def targetSpace (subnet : AciSubnet) : Option String :=
  if fromVrf then subnet.vrf else some space

/-- `present` -/
def present (key : Key) : Bool :=
  (some key.1, key.2) ∈ nautobot.map fun p => (p.space, p.network)

/-- One round of the loop of `compare_subnets`; `none` where the covering raises. -/
def compareOne (c : Comparison) (subnet : AciSubnet) : Option Comparison :=
  match targetSpace space fromVrf subnet with
  | none => some { c with skipped := c.skipped ++ [⟨subnet.network, "no_vrf", ownerOf subnet⟩] }
  | some target =>
    let key := (target, subnet.network)
    let owners := writeEntry key
      (fun group => writeEntry (ownerKey subnet) (fun _ => subnet) (group.getD [])) c.owners
    if c.has key then some { c with owners }
    else if present nautobot key then
      some { c with owners, matched := c.matched ++ [(key, item subnet target)] }
    else
      (covering (coverIndex nautobot) (some target) subnet.network).map fun cover =>
        { c with owners, missing := c.missing ++ [(key, item subnet target, cover)] }

def sortKey (subnet : AciSubnet) : List String :=
  [subnet.tenant, subnet.network, subnet.bridgeDomain.getD "", subnet.epg.getD ""]

def sortSubnets (aci : List AciSubnet) : List AciSubnet :=
  aci.mergeSort fun a b => decide (sortKey a ≤ sortKey b)

def compareAll (aci : List AciSubnet) : Option Comparison :=
  (sortSubnets aci).foldlM (compareOne nautobot space fromVrf) {}

end Compare

section Scopes

/-- `parse_scope_prefixes` -/
def parseScopePrefixes (raw : List String) : Option (List IpNetwork) :=
  raw.mapM fun text => ipNetwork text.toList

/-- `network.subnet_of(scope)`: two IPv6 addresses of one value are in order only with one scope. -/
def subnetOf (network scope : IpNetwork) : Bool :=
  let broadcast (n : IpNetwork) := n.address + 2 ^ (n.version.bits - n.prefixLength) - 1
  (decide (scope.address < network.address) ||
    (scope.address == network.address && scope.scope == network.scope)) &&
      decide (broadcast network ≤ broadcast scope)

structure MissingInAci where
  network : String
  space : Option String
  status : Option String

variable (nautobot : List NautobotPrefix) (aciKeys : List Key) (scopes : List IpNetwork)
  (space : String) (fromVrf : Bool)

def sortPrefixes : List NautobotPrefix :=
  nautobot.mergeSort fun a b =>
    decide ([a.space.getD "", a.network] ≤ [b.space.getD "", b.network])

/-- Whether a prefix is reported; `none` where it is no network. -/
def isMissingInAci (candidate : NautobotPrefix) : Option Bool :=
  if candidate.type ≠ none ∧ candidate.type ≠ some "network" then some false
  else if fromVrf = false ∧ candidate.space ≠ some space then some false
  else (ipNetwork candidate.network.toList).map fun network =>
    (scopes.any fun scope => network.version == scope.version && network != scope &&
      subnetOf network scope) &&
        (candidate.space, candidate.network) ∉ aciKeys.map fun key => (some key.1, key.2)

/-- The loop of `_missing_in_aci`. -/
def collectMissing : List NautobotPrefix → Option (List MissingInAci)
  | [] => some []
  | candidate :: rest =>
    (isMissingInAci aciKeys scopes space fromVrf candidate).bind fun reported =>
      (collectMissing rest).map fun found =>
        if reported then ⟨candidate.network, candidate.space, candidate.status⟩ :: found else found

/-- `_missing_in_aci`; the report has no such list without a scope. -/
def missingInAci : Option (Option (List MissingInAci)) :=
  if scopes = [] then some none
  else (collectMissing aciKeys scopes space fromVrf (sortPrefixes nautobot)).map some

end Scopes

section Report

structure Overlap where
  network : String
  space : String
  owners : List Owner

structure Summary where
  aciSubnets : ℕ
  matched : ℕ
  missingInNautobot : ℕ
  missingInAci : Option ℕ
  overlaps : ℕ
  skipped : ℕ
  differences : Bool

structure Report where
  namespaceMode : String
  space : Option String
  scopePrefixes : List String
  summary : Summary
  matched : List Item
  missingInNautobot : List (Item × Option String)
  missingInAci : Option (List MissingInAci)
  overlaps : List Overlap
  skipped : List Skipped

variable (aci : List AciSubnet) (nautobot : List NautobotPrefix) (space : String)
  (fromVrf : Bool) (scopePrefixes : List String)

/-- `compare_subnets`; `none` where it raises. -/
def compareSubnets : Option Report := do
  let scopes ← parseScopePrefixes scopePrefixes
  let c ← compareAll nautobot space fromVrf aci
  let overlaps := (c.owners.filter fun group => 1 < group.2.length).map fun group =>
    { network := group.1.2, space := group.1.1,
      owners := group.2.map fun o => ownerOf o.2 : Overlap }
  let missing ← missingInAci nautobot (c.owners.map Prod.fst) scopes space fromVrf
  return {
    namespaceMode := if fromVrf then "vrf" else "fixed"
    space := if fromVrf then none else some space
    scopePrefixes := scopes.map IpNetwork.text
    summary := {
      aciSubnets := aci.length
      matched := c.matched.length
      missingInNautobot := c.missing.length
      missingInAci := missing.map List.length
      overlaps := overlaps.length
      skipped := c.skipped.length
      differences := c.missing ≠ [] ∨ overlaps ≠ [] ∨ missing.getD [] ≠ [] }
    matched := c.matched.map Prod.snd
    missingInNautobot := c.missing.map Prod.snd
    missingInAci := missing
    overlaps := overlaps
    skipped := c.skipped }

end Report

end Manus.AciSubnets
