import Manus.Lib.Table
import Manus.Runner.Transparency
import Manus.Runs.Worker

/-! # The status of a step, in a plain walk and below a fan-out

A plain walk derives the status of a step from its success and failure outcomes
alone. Below a fan-out the parent derives it from what its children stored, where
every outcome but failure counts as good and a failed repository operation does
not count at all.
-/

namespace Manus

section Stored

variable {outcomes : List StepOutcome}

theorem storedOutcomes_get? (hn : (outcomes.map StepOutcome.name).Nodup) (name : String) :
    (storedOutcomes outcomes).get? name =
      (outcomes.find? fun o => o.name == name).map StepOutcome.context := by
  have hn' : ((outcomes.map fun o => (o.name, o.context)).map Prod.fst).Nodup := by
    simpa [Function.comp_def] using hn
  rw [storedOutcomes, Dict.get?_ofPairs, Dict.lookup_reverse hn']
  clear hn hn'
  induction outcomes with
  | nil => rfl
  | cons o outcomes ih =>
    rw [List.map_cons, Dict.lookup_pair_cons, List.find?_cons, ih]
    by_cases h : name = o.name
    · simp [h]
    · have hb : (o.name == name) = false := by simpa using Ne.symm h
      simp [h, hb]

theorem find?_name (hn : (outcomes.map StepOutcome.name).Nodup) {o : StepOutcome}
    (ho : o ∈ outcomes) : (outcomes.find? fun o' => o'.name == o.name) = some o :=
  find?_key_eq_some ho rfl fun _ ho' hname => List.inj_on_of_nodup_map hn ho' ho hname

end Stored

section Devices

def anyDevices (contexts : List WorkflowContext) : Bool :=
  contexts.any fun c => !c.devices.isEmpty

def devicesOn (outcomes : List StepOutcome) (name : String) : Bool :=
  (outcomes.find? fun o => o.name == name).any fun o => !o.context.devices.isEmpty

theorem anyDevices_lookup (d : Dict (List WorkflowContext)) (name : String) :
    ((d.get? name).map anyDevices).getD false = anyDevices ((d.get? name).getD []) := by
  cases d.get? name <;> rfl

theorem any_entries_iff (d : Dict (List WorkflowContext)) :
    (d.entries.any fun p => p.1 != "failure" && anyDevices p.2) = true ↔
      ∃ name, name ≠ "failure" ∧ anyDevices ((d.get? name).getD []) = true := by
  rw [List.any_eq_true]
  constructor
  · rintro ⟨⟨name, contexts⟩, hmem, h⟩
    rw [Bool.and_eq_true, bne_iff_ne] at h
    refine ⟨name, h.1, ?_⟩
    rw [Dict.get?_eq_some_iff.mpr hmem]
    exact h.2
  · rintro ⟨name, hname, h⟩
    cases hd : d.get? name with
    | none =>
      rw [hd] at h
      cases h
    | some contexts =>
      rw [hd] at h
      refine ⟨(name, contexts), Dict.get?_eq_some_iff.mp hd, ?_⟩
      rw [Bool.and_eq_true, bne_iff_ne]
      exact ⟨hname, h⟩

variable {outcomes : List StepOutcome} {so : StepOutcomes} {nodeId : String}

theorem anyDevices_onlyChild (hn : (outcomes.map StepOutcome.name).Nodup)
    (hso : so.get? nodeId = some (storedOutcomes outcomes)) (name : String) :
    anyDevices (((childContexts [so] nodeId).get? name).getD []) = devicesOn outcomes name := by
  have hat : so.at? nodeId name =
      (outcomes.find? fun o => o.name == name).map StepOutcome.context := by
    rw [StepOutcomes.at?, hso]
    exact storedOutcomes_get? hn name
  rw [childContexts_getD]
  cases hf : outcomes.find? fun o => o.name == name with
  | none =>
    rw [hf] at hat
    simp [hat, hf, devicesOn, anyDevices]
  | some o =>
    rw [hf] at hat
    simp [hat, hf, devicesOn, anyDevices]

def devicesElsewhere (outcomes : List StepOutcome) : Bool :=
  outcomes.any fun o => o.name != "failure" && !o.context.devices.isEmpty

theorem devicesElsewhere_iff (hn : (outcomes.map StepOutcome.name).Nodup) :
    devicesElsewhere outcomes = true ↔
      ∃ name, name ≠ "failure" ∧ devicesOn outcomes name = true := by
  rw [devicesElsewhere, List.any_eq_true]
  constructor
  · rintro ⟨o, ho, h⟩
    rw [Bool.and_eq_true, bne_iff_ne] at h
    refine ⟨o.name, h.1, ?_⟩
    rw [devicesOn, find?_name hn ho]
    exact h.2
  · rintro ⟨name, hname, h⟩
    obtain ⟨o, ho, hd⟩ := (Option.any_eq_true _ _).mp h
    have hkey : o.name = name := by simpa using List.find?_some ho
    refine ⟨o, List.mem_of_find?_eq_some ho, ?_⟩
    rw [Bool.and_eq_true, bne_iff_ne]
    exact ⟨hkey ▸ hname, hd⟩

end Devices

section Agreement

variable {outcomes : List StepOutcome} {so : StepOutcomes} {nodeId : String}

def failureOutcome (outcomes : List StepOutcome) : Option WorkflowContext :=
  (outcomes.find? fun o => o.name == "failure").map StepOutcome.context

/-- The success outcome has devices; or there are none on any outcome but failure and, when there
are none at all, no repository operation has failed. -/
def StatusesAgree (outcomes : List StepOutcome) : Prop :=
  devicesOn outcomes "success" = true ∨
    devicesElsewhere outcomes = false ∧ devicesOn outcomes "failure" = true ∨
    devicesOn outcomes "failure" = false ∧ workflowLevelFailure (failureOutcome outcomes) = false

theorem deriveStepResultStatus_eq (outcomes : List StepOutcome) :
    deriveStepResultStatus outcomes =
      if devicesOn outcomes "failure" && devicesOn outcomes "success" then .partialResult
      else if devicesOn outcomes "failure" then .failed
      else if workflowLevelFailure (failureOutcome outcomes) && !devicesOn outcomes "success" then
        .failed
      else .success := by
  have hdevices : ∀ name, (((outcomes.find? fun o => o.name == name).map StepOutcome.context).any
      fun c => !c.devices.isEmpty) = devicesOn outcomes name := by
    intro name
    rw [Option.any_map]
    rfl
  simp only [deriveStepResultStatus, successOutcome, hdevices]
  rfl

theorem deriveChildNodeStatus_onlyChild (hn : (outcomes.map StepOutcome.name).Nodup)
    (hso : so.get? nodeId = some (storedOutcomes outcomes)) :
    deriveChildNodeStatus (childContexts [so] nodeId) false =
      if devicesOn outcomes "failure" then
        if devicesElsewhere outcomes then .partialResult else .failed
      else .success := by
  have hfailure := anyDevices_lookup (childContexts [so] nodeId) "failure"
  rw [anyDevices_onlyChild hn hso] at hfailure
  have hok := any_entries_iff (childContexts [so] nodeId)
  simp only [anyDevices_onlyChild hn hso] at hok
  have hothers := Bool.eq_iff_iff.mpr (hok.trans (devicesElsewhere_iff hn).symm)
  have hunfold : deriveChildNodeStatus (childContexts [so] nodeId) false =
      if (((childContexts [so] nodeId).get? "failure").map anyDevices).getD false then
        if (childContexts [so] nodeId).entries.any fun p => p.1 != "failure" && anyDevices p.2 then
          .partialResult
        else .failed
      else .success := rfl
  rw [hunfold, hfailure, hothers]

/-- For the outcomes of a step that a single child returns, the two derivations give one status
exactly under this condition. -/
theorem stepStatuses_agree_iff (hn : (outcomes.map StepOutcome.name).Nodup)
    (hso : so.get? nodeId = some (storedOutcomes outcomes)) :
    deriveStepResultStatus outcomes = deriveChildNodeStatus (childContexts [so] nodeId) false ↔
      StatusesAgree outcomes := by
  have hsuccess : devicesOn outcomes "success" = true → devicesElsewhere outcomes = true :=
    fun h => (devicesElsewhere_iff hn).mpr ⟨"success", by decide, h⟩
  rw [deriveStepResultStatus_eq, deriveChildNodeStatus_onlyChild hn hso, StatusesAgree]
  cases hf : devicesOn outcomes "failure" with
  | true =>
    cases hs : devicesOn outcomes "success" with
    | true => simp [hsuccess hs]
    | false => cases devicesElsewhere outcomes <;> simp
  | false =>
    cases hs : devicesOn outcomes "success" with
    | true => simp
    | false => cases workflowLevelFailure (failureOutcome outcomes) <;> simp

def splitOutcomes (passed : String) : List StepOutcome :=
  [{ name := passed
     context := { runId := "r", workflowId := "1"
                  devices :=
                    Dict.ofPairs [("d1", { id := "d1", name := "d1", hostname := "d1" })] } },
    { name := "failure"
      context := { runId := "r", workflowId := "1"
                   devices := Dict.ofPairs
                     [("d2", { id := "d2", name := "d2", hostname := "d2" })] } }]

def onlyChild (outcomes : List StepOutcome) : StepOutcomes :=
  Dict.ofPairs [("compare", storedOutcomes outcomes)]

theorem successSplit_agrees :
    deriveStepResultStatus (splitOutcomes "success") =
      deriveChildNodeStatus (childContexts [onlyChild (splitOutcomes "success")] "compare") false :=
  (@stepStatuses_agree_iff (splitOutcomes "success") (onlyChild (splitOutcomes "success"))
    "compare" (by decide) rfl).mpr (.inl (by decide))

/-- A device that matches counts as good below a fan-out only. -/
theorem matchSplit_disagrees :
    ((splitOutcomes "match").map StepOutcome.name).Nodup ∧
      deriveStepResultStatus (splitOutcomes "match") = .failed ∧
      deriveChildNodeStatus (childContexts [onlyChild (splitOutcomes "match")] "compare") false =
        .partialResult := by
  refine ⟨?_, ?_, ?_⟩
  · decide
  · decide
  · decide

end Agreement

end Manus
