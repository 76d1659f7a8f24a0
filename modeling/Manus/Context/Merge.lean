import Manus.Context.Basic
import Manus.Lib.Except

/-! # Merging envelopes

Where branches of a workflow converge their envelopes are merged device by
device, and a disagreement is an error. The results of fan-out children hold
disjoint devices and are merged by union, with counters added up.
-/

namespace Manus

section BranchMerge

/-- Union of two dictionaries whose common keys must agree; the right value is kept. -/
def mergeAgreeing {α : Type} (same : α → α → Bool) (message : String → String)
    (left right : Dict α) : Except String (Dict α) :=
  Dict.mergeWith (fun key l r => if same l r then .ok r else .error (message key)) left right

def mergeShallowDicts (label : String) (left right : Dict Json) : Except String (Dict Json) :=
  mergeAgreeing Json.pyEq (fun key => "Conflict merging " ++ label ++ " key " ++ pyRepr key)
    left right

def mergeAttributeBags (left right : Dict (Dict Json)) : Except String (Dict (Dict Json)) :=
  Dict.mergeWith (fun bagName => mergeShallowDicts ("attribute_bags[" ++ pyRepr bagName ++ "]"))
    left right

def mergeCommandResults (left right : Dict (List CommandResult)) :
    Except String (Dict (List CommandResult)) :=
  mergeAgreeing (fun l r => decide (l = r))
    (fun nodeId => "Conflict merging command_results for node_id " ++ pyRepr nodeId) left right

/-- Python equality of two lists of records. -/
def sameRecords : List RequestRecord → List RequestRecord → Bool
  | [], [] => true
  | l :: ls, r :: rs => l.pyEq r && sameRecords ls rs
  | _, _ => false

def mergeRequests (left right : Dict (List RequestRecord)) :
    Except String (Dict (List RequestRecord)) :=
  mergeAgreeing sameRecords
    (fun nodeId => "Conflict merging requests for node_id " ++ pyRepr nodeId) left right

def mergePendingCommandsForDevice (left right : Dict (List String)) :
    Except String (Dict (List String)) :=
  mergeAgreeing (fun l r => decide (l = r))
    (fun nodeId => "Conflict merging pending_commands for node_id " ++ pyRepr nodeId) left right

def mergePendingCommands (left right : Dict (Dict (List String))) :
    Except String (Dict (Dict (List String))) :=
  Dict.mergeWith (fun _ => mergePendingCommandsForDevice) left right

def mergeMetadata (left right : Dict Json) : Except String (Dict Json) :=
  mergeAgreeing Json.pyEq (fun key => "Conflict merging metadata key " ++ pyRepr key) left right

def mergeArtifactRef : Option ArtifactRef → Option ArtifactRef → Except String (Option ArtifactRef)
  | none, right => .ok right
  | some left, none => .ok (some left)
  | some left, some right =>
    if left = right then .ok (some left)
    else .error "Conflict merging artifact refs with different values"

/-- One identity field of the merged device, and the error a conflict leaves on it. -/
def mergeScalarIdentity (left right : Option String) : Option String × List DeviceError :=
  match left, right with
  | left, none => (left, [])
  | none, right => (right, [])
  | some l, some r =>
    if l = r then (some l, [])
    else (some l, [{
      nodeId := "", stepId := "merge", code := "identity_conflict",
      message := "Conflicting identity values during merge: " ++ pyRepr l ++ " vs " ++ pyRepr r }])

/-- Append the errors whose node and step are not there yet. -/
def mergeErrors (left right : List DeviceError) : List DeviceError :=
  right.foldl (fun merged e =>
    if merged.any fun m => m.nodeId == e.nodeId && m.stepId == e.stepId then merged
    else merged ++ [e]) left

def DeviceStatus.rank : DeviceStatus → ℕ
  | .failed => 3
  | .skipped => 2
  | .pending => 1
  | .ok => 0

def worstDeviceStatus (left right : DeviceStatus) : DeviceStatus :=
  if right.rank ≤ left.rank then left else right

/-- The identity fields in the order they are compared. -/
def DeviceContext.identityFields (d : DeviceContext) : List (Option String) :=
  [some d.id, some d.name, some d.hostname, d.platform, d.networkDriver, d.primaryIp4,
    some d.source, some d.sourceId]

def mergeTwoDevices (left right : DeviceContext) : Except String DeviceContext := do
  let extraErrors := (List.zipWith (fun l r => (mergeScalarIdentity l r).2)
    left.identityFields right.identityFields).flatten
  let attributeBags ← mergeAttributeBags left.attributeBags right.attributeBags
  let parsed ← mergeShallowDicts "parsed" left.parsed right.parsed
  let runningConfigRef ← mergeArtifactRef left.runningConfigRef right.runningConfigRef
  let startupConfigRef ← mergeArtifactRef left.startupConfigRef right.startupConfigRef
  let commandResults ← mergeCommandResults left.commandResults right.commandResults
  let requests ← mergeRequests left.requests right.requests
  -- a required text field is never missing, so the left one always stays
  return { left with
    platform := (mergeScalarIdentity left.platform right.platform).1
    networkDriver := (mergeScalarIdentity left.networkDriver right.networkDriver).1
    primaryIp4 := (mergeScalarIdentity left.primaryIp4 right.primaryIp4).1
    attributeBags, parsed, runningConfigRef, startupConfigRef, commandResults, requests
    capabilities := left.capabilities ∪ right.capabilities
    status := worstDeviceStatus left.status right.status
    errors := mergeErrors left.errors (right.errors ++ extraErrors) }

def assertSameInvariants (left right : WorkflowContext) : Except String Unit :=
  if left.runId ≠ right.runId then .error "Cannot merge contexts with different run_id"
  else if left.workflowId ≠ right.workflowId then
    .error "Cannot merge contexts with different workflow_id"
  else if left.schemaVersion ≠ right.schemaVersion then
    .error "Cannot merge contexts with different schema_version"
  else .ok ()

def mergeTwoContexts (left right : WorkflowContext) : Except String WorkflowContext := do
  let devices ← Dict.mergeWith (fun _ => mergeTwoDevices) left.devices right.devices
  let pendingCommands ← mergePendingCommands left.pendingCommands right.pendingCommands
  let metadata ← mergeMetadata left.metadata right.metadata
  return { left with devices, pendingCommands, metadata }

/-- Merge parent envelopes where branches converge. -/
def mergeWorkflowContexts : List WorkflowContext → Except String WorkflowContext
  | [] => .error "merge_workflow_contexts requires at least one context"
  | base :: others => others.foldlM (fun base other => do
      assertSameInvariants base other
      mergeTwoContexts base other) base

end BranchMerge

section FanOutMerge

def isCount : Json → Bool
  | .int _ => true
  | _ => false

def isCountDict : Json → Bool
  | .obj fields => fields.all fun f => isCount f.2
  | _ => false

def endsWith (s suffix : String) : Bool := suffix.toList.isSuffixOf s.toList

def startsWith (s start : String) : Bool := start.toList.isPrefixOf s.toList

/-- The value of a counter, zero when it is missing. -/
def countOf (fields : List (String × Json)) (name : String) : ℤ :=
  ((fields.lookup name).bind Json.asInt?).getD 0

/-- Two counter dictionaries added name by name. -/
def addCounts (current value : List (String × Json)) : List (String × Json) :=
  let names := current.map Prod.fst ++ (value.map Prod.fst).filter (· ∉ current.map Prod.fst)
  names.map fun n => (n, .int (countOf current n + countOf value n))

/-- The merged value of a metadata key both children carry: counters are added, equal values
kept, lists concatenated, and of other conflicting values the first one stays. -/
def fanInValue (ownNodeId : Option String) (key : String) (current value : Json) : Json :=
  let own := ownNodeId.any fun n => startsWith key (n ++ ".")
  let differs := !Json.pyEq current value
  let summed := ["_count", ".total", "_total"].any (endsWith key)
  match current, value with
  | .int c, .int v => if summed && (own || differs) then .int (c + v) else .int c
  | .obj c, .obj v =>
    if endsWith key "_counts" && isCountDict (.obj c) && isCountDict (.obj v) &&
      (own || differs) then .obj (addCounts c v) else .obj c
  | .arr c, .arr v => if differs then .arr (c ++ v) else .arr c
  | current, _ => current

def mergeMetadataFanOut (ownNodeId : Option String) (left right : Dict Json) : Dict Json :=
  right.entries.foldl (fun merged p =>
    match merged.get? p.1 with
    | none => merged.insert p.1 p.2
    | some current => merged.insert p.1 (fanInValue ownNodeId p.1 current p.2)) left

def fanInTwoContexts (ownNodeId : Option String) (left right : WorkflowContext) :
    Except String WorkflowContext := do
  let pendingCommands ← mergePendingCommands left.pendingCommands right.pendingCommands
  return { left with
    devices := left.devices.update right.devices
    pendingCommands
    metadata := mergeMetadataFanOut ownNodeId left.metadata right.metadata }

/-- Merge the results of fan-out children. -/
def mergeFanOutContexts (ownNodeId : Option String) :
    List WorkflowContext → Except String WorkflowContext
  | [] => .error "merge_fan_out_contexts requires at least one context"
  | base :: others => others.foldlM (fun base other => do
      assertSameInvariants base other
      fanInTwoContexts ownNodeId base other) base

end FanOutMerge

section Facts

/-- What a branch merge does to one device, given what the envelopes carry of it in turn. -/
def mergeLookups (found : List (Option DeviceContext)) : Except String (Option DeviceContext) :=
  found.foldlM (Dict.combine mergeTwoDevices) none

theorem mergeTwoContexts_devices {left right merged : WorkflowContext}
    (h : mergeTwoContexts left right = .ok merged) (id : String) :
    Dict.combine mergeTwoDevices (left.devices.get? id) (right.devices.get? id) =
      .ok (merged.devices.get? id) := by
  simp only [mergeTwoContexts, bind_eq_ok] at h
  obtain ⟨devices, hd, _, _, _, _, hm⟩ := h
  cases hm
  exact Dict.get?_mergeWith hd id

theorem mergeWorkflowContexts_devices {contexts : List WorkflowContext} {merged : WorkflowContext}
    (h : mergeWorkflowContexts contexts = .ok merged) (id : String) :
    mergeLookups (contexts.map fun c => c.devices.get? id) = .ok (merged.devices.get? id) := by
  cases contexts with
  | nil => cases h
  | cons base others =>
    rw [List.map_cons, mergeLookups, List.foldlM_cons]
    refine foldlM_observe (fun c => c.devices.get? id) _ (fun a b a' hab => ?_) h
    obtain ⟨_, _, hm⟩ := bind_eq_ok.mp hab
    exact mergeTwoContexts_devices hm id

theorem combine_none_right (found : Option DeviceContext) :
    Dict.combine mergeTwoDevices found none = .ok found := by
  cases found <;> rfl

theorem mergeLookups_filter (found : List (Option DeviceContext)) :
    mergeLookups (found.filter Option.isSome) = mergeLookups found := by
  unfold mergeLookups
  generalize (none : Option DeviceContext) = start
  induction found generalizing start with
  | nil => rfl
  | cons o found ih =>
    cases o with
    | none =>
      rw [List.filter_cons_of_neg (by simp), ih, List.foldlM_cons, combine_none_right]
      rfl
    | some d =>
      rw [List.filter_cons_of_pos (by simp), List.foldlM_cons, List.foldlM_cons]
      exact bind_congr fun o => ih o

theorem mergeAgreeing_keys {α : Type} {same : α → α → Bool} {message : String → String}
    {left right merged : Dict α} (h : mergeAgreeing same message left right = .ok merged)
    (key : String) : key ∈ merged.keys ↔ key ∈ left.keys ∨ key ∈ right.keys := by
  have hc := Dict.get?_mergeWith h key
  rw [Dict.mem_keys_iff, Dict.mem_keys_iff, Dict.mem_keys_iff]
  cases hl : left.get? key with
  | none =>
    rw [hl] at hc
    rw [← Except.ok.inj hc]
    simp
  | some l =>
    cases hr : right.get? key with
    | none =>
      rw [hl, hr] at hc
      rw [← Except.ok.inj hc]
      simp
    | some r =>
      rw [hl, hr] at hc
      obtain ⟨v, -, hv⟩ := map_eq_ok.mp hc
      rw [← hv]
      simp

theorem mergeTwoDevices_provides {left right merged : DeviceContext}
    (h : mergeTwoDevices left right = .ok merged) :
    merged.capabilities = left.capabilities ∪ right.capabilities ∧
      ∀ key, key ∈ merged.parsed.keys ↔ key ∈ left.parsed.keys ∨ key ∈ right.parsed.keys := by
  simp only [mergeTwoDevices, bind_eq_ok] at h
  obtain ⟨_, _, parsed, hp, _, _, _, _, _, _, _, _, hm⟩ := h
  cases hm
  exact ⟨rfl, mergeAgreeing_keys hp⟩

theorem mergeFanOutContexts_devices {own : Option String} {contexts : List WorkflowContext}
    {merged : WorkflowContext} (h : mergeFanOutContexts own contexts = .ok merged) (id : String) :
    merged.devices.get? id =
      (contexts.map fun c => c.devices.get? id).foldl (fun found o => o.or found) none := by
  cases contexts with
  | nil => cases h
  | cons base others =>
    have hobs : (others.map fun c => c.devices.get? id).foldlM
        (fun found o => (.ok (o.or found) : Except String _)) (base.devices.get? id) =
        .ok (merged.devices.get? id) := by
      refine foldlM_observe (fun c => c.devices.get? id) _ (fun a b a' hab => ?_) h
      obtain ⟨_, _, hm⟩ := bind_eq_ok.mp hab
      simp only [fanInTwoContexts, bind_eq_ok] at hm
      obtain ⟨_, _, hm⟩ := hm
      cases hm
      simp
    rw [foldlM_ok, Except.ok.injEq] at hobs
    rw [← hobs, List.map_cons, List.foldl_cons, Option.or_none]

end Facts

end Manus
