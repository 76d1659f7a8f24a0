import Manus.Lib.Returns
import Manus.Runner.Transparency

/-! # What a raising step of a child leaves behind

A fan-out child stops for good after the wave in which a node raised. Such a
node gets one outcome, its failure outcome, and what is stored there is the
envelope the child started from: the devices of the whole group as they were
then, whichever of them had reached the node and whatever earlier steps had
written on them.
-/

namespace Manus

universe u

section Recorded

variable {initialContext : WorkflowContext} {st : WalkState}

def raisedOutcomes (initialContext : WorkflowContext) : Dict WorkflowContext :=
  Dict.ofPairs [("failure", initialContext)]

/-- Every node that raised so far passes on the child's devices as failed, and a child in which
a node raised is marked as failed. -/
structure RaisedRecorded (initialContext : WorkflowContext) (st : WalkState) : Prop where
  stored : ∀ p ∈ st.stepErrors, st.stepOutcomes.get? p.1 = some (raisedOutcomes initialContext)
  failed : st.stepErrors ≠ [] → st.failed = true

theorem RaisedRecorded.start (inventoryNodeId : String) (initialContext : WorkflowContext) :
    RaisedRecorded initialContext (childStart inventoryNodeId initialContext) := by
  constructor
  · intro p hp
    cases hp
  · intro h
    exact absurd rfl h

/-- One node keeps the record, provided that it has not raised before. -/
theorem RaisedRecorded.absorbChild (h : RaisedRecorded initialContext st) {nodeId : String}
    (hnew : ∀ p ∈ st.stepErrors, p.1 ≠ nodeId) (r : NodeRun) :
    RaisedRecorded initialContext (st.absorbChild initialContext nodeId r) := by
  cases r with
  | blocked => exact ⟨h.stored, h.failed⟩
  | ran outcomes failedRow =>
    constructor
    · intro p hp
      have hne : p.1 ≠ nodeId := hnew p hp
      simp only [WalkState.absorbChild, WalkState.absorb, Dict.get?_insert, if_neg hne]
      exact h.stored p hp
    · exact h.failed
  | raised e =>
    constructor
    · intro p hp
      simp only [WalkState.absorbChild, WalkState.absorb, Dict.get?_insert]
      rcases List.mem_append.mp hp with hp | hp
      · rw [if_neg (hnew p hp)]
        exact h.stored p hp
      · rw [List.mem_singleton] at hp
        subst hp
        rw [if_pos rfl]
        rfl
    · intro _
      rfl

theorem absorbChild_stepErrors {nodeId : String} {r : NodeRun} {p : String × StepError}
    (hp : p ∈ (st.absorbChild initialContext nodeId r).stepErrors) :
    p ∈ st.stepErrors ∨ p.1 = nodeId := by
  cases r with
  | blocked => exact .inl hp
  | ran outcomes failedRow => exact .inl hp
  | raised e =>
    rcases List.mem_append.mp hp with hp | hp
    · exact .inl hp
    · rw [List.mem_singleton] at hp
      exact .inr (congrArg Prod.fst hp)

theorem RaisedRecorded.absorbWave {results : List (CanvasNode × NodeRun)}
    (h : RaisedRecorded initialContext st)
    (hdistinct : (results.map fun r => r.1.id).Nodup)
    (hnew : ∀ p ∈ st.stepErrors, ∀ r ∈ results, p.1 ≠ r.1.id) :
    RaisedRecorded initialContext
      (results.foldl (fun st r => st.absorbChild initialContext r.1.id r.2) st) := by
  induction results generalizing st with
  | nil => exact h
  | cons r results ih =>
    rw [List.map_cons, List.nodup_cons] at hdistinct
    rw [List.foldl_cons]
    apply ih
    · exact h.absorbChild (fun p hp => hnew p hp r List.mem_cons_self) r.2
    · exact hdistinct.2
    · rintro p hp r' hr'
      rcases absorbChild_stepErrors hp with hp | hp
      · exact hnew p hp r' (List.mem_cons_of_mem r hr')
      · intro heq
        apply hdistinct.1
        rw [← hp, heq]
        exact List.mem_map_of_mem hr'

end Recorded

theorem map_zip_sublist {α β γ : Type} (f : α → γ) (l : List α) (results : List β) :
    ((l.zip results).map fun p => f p.1).Sublist (l.map f) := by
  induction l generalizing results with
  | nil => exact .slnil
  | cons a l ih =>
    cases results with
    | nil => exact List.nil_sublist _
    | cons r results => exact (ih results).cons_cons (f a)

section Walk

variable {m : Type → Type u} [Monad m] [LawfulMonad m] {runner : StepRunner m} {run : RunInfo}
  {edges : List CanvasEdge} {initialContext : WorkflowContext}

/-- The walk of a child keeps the record. Only its first failing wave adds to it: from then on
the walk stops at every wave. -/
theorem walkChild_raisedRecorded {waves : List (List CanvasNode)} {st : WalkState}
    (hwaves : ∀ wave ∈ waves, (wave.map CanvasNode.id).Nodup)
    (h : RaisedRecorded initialContext st) :
    Returns (RaisedRecorded initialContext)
      (walkChild runner run edges initialContext waves st) := by
  induction waves generalizing st with
  | nil => exact .pure h
  | cons wave waves ih =>
    have hrest : ∀ wave ∈ waves, (wave.map CanvasNode.id).Nodup :=
      fun w hw => hwaves w (List.mem_cons_of_mem wave hw)
    unfold walkChild stopRequested
    by_cases hfailed : st.failed = true
    · simp only [hfailed, if_true, pure_bind]
      exact ih hrest ⟨h.stored, fun _ => rfl⟩
    · have herrors : st.stepErrors = [] := by
        by_contra hne
        exact hfailed (h.failed hne)
      simp only [hfailed]
      apply Returns.bind_any
      intro cancelled
      cases cancelled with
      | true =>
        apply ih hrest
        exact ⟨h.stored, fun _ => rfl⟩
      | false =>
        apply Returns.bind_any
        intro results
        apply ih hrest
        apply h.absorbWave
        · exact (hwaves wave List.mem_cons_self).sublist
            (map_zip_sublist CanvasNode.id wave results)
        · rw [herrors]
          rintro p hp
          cases hp

/-- Whatever had reached a step of a fan-out child when it raised, the failure outcome stored for
the step is the envelope the child started from, and the step has no other outcome. -/
theorem runSubgraph_raised (runner : StepRunner m) (run : RunInfo) (canvas : Canvas)
    (initialContext : WorkflowContext) (inventoryNodeId : String) (allowedNodeIds : List String) :
    Returns
      (fun ended => ∀ st, ended = .ok st → ∀ nodeId error, (nodeId, error) ∈ st.stepErrors →
        st.stepOutcomes.get? nodeId = some (raisedOutcomes initialContext))
      (runSubgraph runner run canvas initialContext inventoryNodeId allowedNodeIds) := by
  unfold runSubgraph
  cases loadExecutionGraph canvas with
  | error e => exact .pure fun st hst => by cases hst
  | ok graph =>
    dsimp only
    cases hsort : topologicalSort runner.registry graph with
    | error e => exact .pure fun st hst => by cases hst
    | ok ordered =>
      obtain ⟨hsorted, -, -⟩ := topologicalSort_spec hsort
      have hchild := hsorted.filter fun id => id ∈ allowedNodeIds
      obtain ⟨waves, depth, hgen, hspec⟩ := topologicalGenerations_spec hchild
      dsimp only
      simp only [generations, hgen, Option.getD_some]
      apply Returns.bind
      · exact walkChild_raisedRecorded hspec.nodup (.start inventoryNodeId initialContext)
      · rintro st hst
        apply Returns.pure
        rintro st' heq nodeId error hmem
        cases heq
        exact hst.stored _ hmem

end Walk

section Examples

def splitFirst : Executor Id := fun config ctx _ _ =>
  let passed := ctx.devices.restrict (· == "d1")
  .ok [⟨"success", { ctx with devices := passed.mapValues (writeOnFirst config) }⟩,
    ⟨"failure", { ctx with devices := ctx.devices.restrict (· == "d2") }⟩]

/-- The step `A` splits the group, every other one raises. -/
def splitThenRaise : Executors := fun stepType =>
  if stepType = "run-command" then
    some fun config ctx run nodeId =>
      if nodeId = "A" then splitFirst config ctx run nodeId else .error "boom"
  else demoExecutors stepType

def twoSteps : Canvas where
  nodes := [⟨"I", { kind := some "get-from-list", pluginConfig := fanOutConfig }⟩,
    ⟨"A", { kind := some "run-command", pluginConfig := Dict.ofPairs [("value", .int 1)] }⟩,
    ⟨"B", { kind := some "run-command" }⟩]
  edges := [{ source := "I", target := "A" }, { source := "A", target := "B" }]

def groupOfTwo : WorkflowContext := { runId := "run", workflowId := "1", devices := listedDevices }

/-- Only `d1` reaches the raising step, with a key parsed on its way; the failure outcome has both
devices, and `d1` without that key. -/
theorem raised_not_arrived :
    ∃ st input failure,
      runSubgraph (pureRunner smallRegistry splitThenRaise) demoRun twoSteps groupOfTwo "I"
        ["A", "B"] = .ok st ∧
      ("B", .executor "boom") ∈ st.stepErrors ∧
      assembleInputContext twoSteps.edges st.stepOutcomes demoRun "B" = .ok input ∧
      st.stepOutcomes.at? "B" "failure" = some failure ∧
      input.devices.keys = ["d1"] ∧ failure.devices.keys = ["d1", "d2"] ∧
      (input.devices.get? "d1").map (fun d => d.parsed.keys) = some ["k"] ∧
      (failure.devices.get? "d1").map (fun d => d.parsed.keys) = some [] := by
  refine ⟨_, _, _, rfl, by decide, rfl, rfl, ?_⟩
  decide

/-- The same child: the outcome stored for the raising step. -/
theorem runSubgraph_raised_twoSteps :
    ∃ st, runSubgraph (pureRunner smallRegistry splitThenRaise) demoRun twoSteps groupOfTwo "I"
        ["A", "B"] = .ok st ∧
      st.stepOutcomes.get? "B" = some (raisedOutcomes groupOfTwo) := by
  have hreturns := Returns.id_iff.mp (runSubgraph_raised
    (pureRunner smallRegistry splitThenRaise) demoRun twoSteps groupOfTwo "I" ["A", "B"])
  refine ⟨_, rfl, hreturns _ rfl "B" (.executor "boom") ?_⟩
  decide

end Examples

end Manus
