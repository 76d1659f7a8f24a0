import Manus.Context.ObjectPath
import Mathlib.Data.String.Basic

/-! # Zoning rules

What the rules programmed on a leaf do with a flow. A rule that cannot be ranked or matched
makes the answer unsure, unless another rule decides before it.
-/

namespace Manus.Zoning

open Expression (PyException)

structure AciContractRule where
  scope : Option String
  sourcePcTag : Option String
  destinationPcTag : Option String
  filterId : Option String
  action : Option String
  direction : Option String
  priority : Option String
  state : Option String
  deriving DecidableEq

structure AciFilterEntry where
  filterId : Option String
  etherType : Option String
  protocol : Option String
  sourcePortFrom : Option String
  sourcePortTo : Option String
  destinationPortFrom : Option String
  destinationPortTo : Option String
  stateful : Option String
  deriving DecidableEq

section Constants

def wildcard : String := "any"

def implicitFilter : String := "implicit"

def reverseLeg : String := "uni-dir-ignore"

def disabled : String := "disabled"

def ipEtherTypes : List (Option String) := [none, some "ip", some "ipv4", some "ipv6"]

def allPorts : ℕ × ℕ := (0, 65535)

def priorityRank : List (String × ℕ) :=
  [("fully_qual", 7), ("src_dst_any", 9), ("shsrc_any_any_deny", 12), ("src_any_filter", 13),
    ("any_dest_filter", 14), ("any_dest_any", 16), ("any_any_filter", 17),
    ("grp_src_any_any_deny", 18), ("grp_any_dest_any_deny", 19), ("grp_any_any_any_permit", 20),
    ("any_any_any", 21), ("any_vrf_any_deny", 22)]

def portNames : List (String × ℕ) :=
  [("ftpData", 20), ("smtp", 25), ("dns", 53), ("http", 80), ("pop3", 110), ("https", 443),
    ("rtsp", 554)]

end Constants

section Entries

def portNumber : Option String → Except PyException (Option ℕ)
  | none => .ok none
  | some value =>
    if isDigitText value.toList then (ObjectPath.intOfDigits value.toList).map some
    else .ok (portNames.lookup value)

/-- `_range` -/
def portRange (low high : Option String) : Except PyException (Option (ℕ × ℕ)) := do
  let first ← portNumber low
  let last ← portNumber (high.or low)
  return first.bind fun first => last.map fun last => (first, last)

variable (entry : AciFilterEntry) (protocol : String) (port : Option ℕ)

/-- Whether the destination port of a flow is covered, as far as this can be told. -/
def coverDestination : Except PyException (Option Bool) :=
  match port with
  | none => .ok (some true)
  | some port =>
    if entry.destinationPortFrom = none ∧ entry.destinationPortTo = none then .ok (some true)
    else (portRange entry.destinationPortFrom entry.destinationPortTo).map
      (Option.map fun range => decide (range.1 ≤ port ∧ port ≤ range.2))

/-- The port of the client is not known. -/
def coverSource : Except PyException (Option Bool) :=
  if entry.sourcePortFrom = none ∧ entry.sourcePortTo = none then .ok (some true)
  else (portRange entry.sourcePortFrom entry.sourcePortTo).map fun range =>
    if range = some allPorts then some true else none

/-- `_cover` -/
def cover : Except PyException (Option Bool) :=
  if !ipEtherTypes.contains entry.etherType then .ok (some false)
  else if !([none, some protocol].contains entry.protocol) then .ok (some false)
  else if entry.protocol = none then .ok (some true)
  else do
    let destination ← coverDestination entry port
    if destination = some true then coverSource entry else return destination

/-- `_combine` -/
def combine (values : List (Option Bool)) : Option Bool :=
  if values.contains (some true) then some true
  else if values.contains none then none
  else some false

end Entries

section Decision

inductive Outcome where
  | permit | deny | redirect
  deriving DecidableEq

inductive Decided where
  | decided (outcome : Outcome)
  | unsure

structure LeafDecision where
  outcome : Option Decided := none
  rule : Option AciContractRule := none
  entries : List AciFilterEntry := []
  note : Option String := none
  onlyDisabled : Bool := false

/-- `_action_outcome` -/
def actionOutcome (action : Option String) : Option Outcome :=
  let text := (action.getD "").toList.map Char.toLower
  if "deny".toList <:+: text ∨ "drop".toList <:+: text then some .deny
  else if "redir".toList <:+: text then some .redirect
  else if "permit".toList <:+: text then some .permit
  else none

structure Flow where
  scope : String
  srcTag : String
  dstTag : String
  protocol : String
  port : Option ℕ

variable (flow : Flow) (filters : List AciFilterEntry) (rules : List AciContractRule)

def tagsMatch (rule : AciContractRule) : Bool :=
  [some flow.srcTag, some wildcard].contains rule.sourcePcTag &&
    [some flow.dstTag, some wildcard].contains rule.destinationPcTag

/-- The rule is one for the flow, whatever it filters. -/
def concerns (rule : AciContractRule) : Bool :=
  rule.scope = some flow.scope && rule.direction ≠ some reverseLeg && tagsMatch flow rule

def entriesOf (rule : AciContractRule) : List AciFilterEntry :=
  filters.filter fun entry => entry.filterId = rule.filterId

def ruleCovers (rule : AciContractRule) : Except PyException (Option Bool) :=
  if rule.filterId = some implicitFilter then .ok (some true)
  else ((entriesOf filters rule).mapM fun entry => cover entry flow.protocol flow.port).map combine

/-- The rules that cover the flow or may do so, those among them that are disabled as well. -/
def matching : Except PyException (List (AciContractRule × Option Bool)) := do
  let judged ← (rules.filter (concerns flow)).mapM fun rule =>
    (ruleCovers flow filters rule).map fun covers => (rule, covers)
  return judged.filter fun candidate => candidate.2 ≠ some false

def rank (rule : AciContractRule) : Option ℕ := priorityRank.lookup (rule.priority.getD "")

def unknownNote (candidates : List (AciContractRule × Option Bool)) : String :=
  let names := (candidates.filter fun c => rank c.1 = none).map fun c =>
    if c.1.priority.getD "" = "" then "(none)" else c.1.priority.getD ""
  "A rule applies with a priority class this check does not know: " ++
    ", ".intercalate (names.eraseDups.mergeSort (· ≤ ·)) ++ "."

/-- The rules that surely cover the flow, of the class that is checked first. -/
def winnersOf (best : ℕ) (candidates : List (AciContractRule × Option Bool)) :
    List AciContractRule :=
  (candidates.filter fun c => c.2 = some true ∧ rank c.1 = some best).map Prod.fst

def decideAmong (winners : List AciContractRule) : LeafDecision :=
  let outcomes := (winners.map fun rule => actionOutcome rule.action).eraseDups
  match outcomes with
  | [some outcome] =>
    let winner := (winners.mergeSort fun a b => a.filterId.getD "" ≤ b.filterId.getD "").head?
    { outcome := some (.decided outcome), rule := winner,
      entries := (winner.map (entriesOf filters)).getD [] }
  | _ =>
    { outcome := some .unsure
      note := some (if outcomes.contains none then "A rule has an action this check does not know."
        else "A permit and a deny of one priority class apply; their order is not modelled.") }

def evaluateLeaf : Except PyException LeafDecision := do
  let found ← matching flow filters rules
  let candidates := found.filter fun c => c.1.state ≠ some disabled
  if candidates.isEmpty then
    return { onlyDisabled := found.any fun c => c.1.state = some disabled }
  if candidates.any (fun c => rank c.1 = none) then
    return { outcome := some .unsure, note := some (unknownNote candidates) }
  let best := ((candidates.filter fun c => c.2 = some true).filterMap fun c => rank c.1).min?
  if candidates.any (fun c => c.2 = none && best.all fun best => (rank c.1).any (· ≤ best)) then
    return { outcome := some .unsure, note := some ("A rule that depends on the client's source " ++
      "port or on a port name this check cannot read could apply before the decisive rule.") }
  return decideAmong filters (winnersOf (best.getD 0) candidates)

end Decision

end Manus.Zoning
