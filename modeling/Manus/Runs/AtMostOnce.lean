import Manus.Runs.RunRights
import Manus.Runs.StatusMachine

/-! # Steps act at most once per device

Steps have side effects on devices and no idempotency token, while the engine
may deliver every task more than once. The rights of a run account for every
executor it starts, in every interleaving of deliveries.
-/

namespace Manus

variable {ω : Type}

section Runs

variable {d : Deployment ω} {runId workflowId : ℕ} {canvas : Canvas}

/-- The workflow is not changed; no child of the run is delivered twice, and the steps of its branch
return only devices they were given; and where the run fans out, no step that was walked before
lies below the fan-out step. -/
structure DeliveredOnce (d : Deployment ω) (runId workflowId : ℕ) (canvas : Canvas)
    (e : Event Launch (Answer ω)) (w w' : World) : Prop where
  unchanged : w'.canvases workflowId = w.canvases workflowId
  children : ∀ i index task, e = .launch i (.deviceGroup index) →
    w.groupTasks[index]? = some task → task.input.parentRunId = runId →
    task.deliveries = 0 ∧ KeepsDevices d canvas task.input
  apart : ∀ i inventory stored,
    w'.log = w.log ++ [(i, .loaded runId (.capture inventory) stored)] →
    PhasesApart d.registry canvas inventory

theorem start_idles {what : Launch} {w w' : World} {task : Task (Answer ω) World}
    (h : (runSystem d).start what w = some (task, w')) :
    (ledger d.registry runId canvas).Idles w w' := by
  cases what with
  | deviceGroup index =>
    obtain ⟨queued, -, he⟩ := Option.map_eq_some_iff.mp h
    cases he
    refine ledger_idles rfl (fun _ hmem => hmem) fun k task' hk _ hd => ?_
    rw [List.getElem?_modify] at hk
    obtain ⟨task, htask, rfl⟩ := Option.map_eq_some_iff.mp hk
    split at hd
    · cases hd
    · rename_i hne
      rw [if_neg hne]
      exact ⟨task, htask, hd, rfl⟩
  | prepare runId | executeSteps runId | failRun runId =>
    simp only [runSystem] at h
    split at h <;> cases h
    exact ledger_idles_refl w
  | _ =>
    cases h
    exact ledger_idles_refl w

theorem start_takes {index : ℕ} {w w' : World} {task : Task (Answer ω) World} {queued : GroupTask}
    {g : Set (String × String)} (h : (runSystem d).start (.deviceGroup index) w = some (task, w'))
    (hq : w.groupTasks[index]? = some queued) (hp : queued.input.parentRunId = runId)
    (hd : queued.deliveries = 0) :
    (ledger d.registry runId canvas).Takes (some index) g w
      (childRights canvas queued.input) w' := by
  have hidle : (ledger d.registry runId canvas).Idles w w' := start_idles h
  refine ⟨hidle.1, fun x hx => .inr ⟨queued, hq, hd, hp, hx⟩, ?_, fun q _ => hidle.2 q⟩
  obtain ⟨queued', -, he⟩ := Option.map_eq_some_iff.mp h
  cases he
  refine Set.eq_empty_iff_forall_notMem.mpr ?_
  rintro x ⟨task', hk, hd', -⟩
  rw [List.getElem?_modify, hq] at hk
  cases hk
  simp at hd'

/-- Rights are accounted for in every run that meets the condition. -/
theorem rights_sound :
    (runSystem d).Sound (RunOf runId workflowId canvas) (usageMoves d runId canvas)
      (fun gs w => RunOf runId workflowId canvas w ∧
        (ledger d.registry runId canvas).Accounted gs w)
      fun e w w' => DeliveredOnce d runId workflowId canvas e w w' ∧
        ∀ row, w'.runs runId = some row → row.workflowId = workflowId where
  inv _ _ h := h.1
  move gs w t g' w' h ha hm := by
    refine ⟨⟨ha.2, fun stored hs => h.1.stored stored (ha.1.unchanged ▸ hs)⟩, ?_⟩
    rcases hm with hm | hm | ⟨inventory, stored, hlog, hnot⟩
    · exact h.2.spends hm
    · exact h.2.takes hm
    · exact absurd (ha.1.apart _ _ _ hlog) hnot
  launch gs w i what task w' h ha hs := by
    have hof : RunOf runId workflowId canvas w' :=
      ⟨ha.2, fun stored hs => h.1.stored stored (ha.1.unchanged ▸ hs)⟩
    have hidle : ∀ {p : Run ω Unit} {g}, MovesNone d.registry runId canvas
        (RunOf runId workflowId canvas) _ p → p.Spec (RunOf runId workflowId canvas)
          (usageMoves d runId canvas) g fun _ _ => True :=
      fun hp => ((hp.spends _).mono (fun _ h => h) fun _ _ _ _ _ _ hm => .inl hm).imp
        fun _ _ _ => trivial
    have hhandlers : ∀ g₀, ∀ p ∈ task.handlers, ∀ g, Leads (usageMoves d runId canvas) g₀ g →
        p.Spec (RunOf runId workflowId canvas) (usageMoves d runId canvas) g fun _ _ => True :=
      fun _ p hp g _ => hidle ((taskOps_movesNone d).handlers hs p hp)
    have hsame : (ledger d.registry runId canvas).Accounted (Function.update gs i (gs i)) w' :=
      h.2.spends ((start_idles hs).spends _)
    by_cases hcovered : what.Covered (fun id => id ≠ runId) w
    · exact ⟨gs i, ⟨hidle ((taskOps_movesNone d).start hs hcovered), hhandlers _⟩, hof, hsame⟩
    · cases what with
      | executeSteps id =>
        obtain rfl : id = runId := by simpa [Launch.Covered] using hcovered
        refine ⟨gs i, ⟨?_, hhandlers _⟩, hof, hsame⟩
        simp only [runSystem] at hs
        split at hs <;> cases hs
        exact executeSteps_uses
      | deviceGroup index =>
        simp only [Launch.Covered, ne_eq, not_forall, not_not] at hcovered
        obtain ⟨queued, hq, hp⟩ := hcovered
        obtain ⟨hd, hkeep⟩ := ha.1.children i index queued rfl hq hp
        refine ⟨childRights canvas queued.input, ⟨?_, hhandlers _⟩, hof,
          h.2.takes (start_takes hs hq hp hd)⟩
        obtain ⟨queued', hq', he⟩ := Option.map_eq_some_iff.mp hs
        rw [hq] at hq'
        cases hq'
        cases he
        refine (((runDeviceGroup_uses hp hkeep).mono (fun _ h => h) fun _ _ _ _ _ _ hm =>
          .inl hm).bind fun result g' _ => ?_)
        exact hidle (stepOps_movesNone.reportChild index result)
      | _ => exact absurd trivial hcovered

/-- In every run of the system, whatever is delivered how often and in which order: as long as the
condition is met, no executor of a node is started twice on a device. -/
theorem executor_atMostOnce (d : Deployment ω) {canvases : ℕ → Option Canvas}
    {es : List (Event Launch (Answer ω))} {c : Config (Answer ω) World}
    (h : (runSystem d).exec (.idle { canvases }) es = some c) {runId : ℕ} {row : RunRow}
    (hrow : c.state.runs runId = some row) {canvas : Canvas}
    (hcanvas : canvases row.workflowId = some canvas)
    (ha : (runSystem d).AllowedRun (DeliveredOnce d runId row.workflowId canvas)
      (.idle { canvases }) es) (nodeId deviceId : String) :
    (invocations runId c.state.log).count (nodeId, deviceId) ≤ 1 := by
  have hidle : Config.Ok (ω := Answer ω) FreshIds storeMoves (fun _ => RunsOk)
      (.idle { canvases }) fun _ => () := .idle (runsOk_start canvases)
  have hworkflow := allowedRun_workflow d hidle h hrow
  have hstart : Config.Ok (ω := Answer ω) (RunOf runId row.workflowId canvas)
      (usageMoves d runId canvas) (fun gs w => RunOf runId row.workflowId canvas w ∧
        (ledger d.registry runId canvas).Accounted gs w) (.idle { canvases }) fun _ => ∅ := by
    refine .idle ⟨⟨fun row hrow => (nomatch hrow), fun stored hs => ?_⟩, ?_⟩
    · exact Option.some.inj (hs.symm.trans hcanvas)
    · -- all rights wait for whoever creates the first row
      have hfirst : ∀ x o, x ∈ (ledger d.registry runId canvas).holds (fun _ => ∅) { canvases } o →
          o = .inr none := by
        rintro x (i | _ | k) hx
        · cases hx
        · rfl
        · obtain ⟨task, hk, -⟩ := hx
          cases hk
      exact ⟨List.nodup_nil, fun x hx => (nomatch hx), fun x o o' ho ho' =>
        (hfirst x o ho).trans (hfirst x o' ho').symm⟩
  obtain ⟨gs, hc⟩ := rights_sound.exec hstart h (ha.and hworkflow)
  exact List.nodup_iff_count_le_one.mp hc.state.2.nodup (nodeId, deviceId)

end Runs

section Examples

def firstChild : List (Event Launch (Answer Unit)) :=
  firstWave ++ steps 2 2 ++ .launch 3 (.deviceGroup 0) :: steps 3 4

def childAgain : List (Event Launch (Answer Unit)) :=
  firstChild ++ .launch 4 (.deviceGroup 0) :: steps 4 4

/-- A child that is delivered twice acts twice on its device. -/
theorem childAgain_actsTwice :
    ∃ c row, (runSystem demoDeployment).exec (.idle (storing directBranch)) childAgain = some c ∧
      c.state.runs 0 = some row ∧ c.state.canvases row.workflowId = some directBranch ∧
      ¬ (invocations 0 c.state.log).count ("X", "d1") ≤ 1 := by
  have hrun : (((runSystem demoDeployment).exec (.idle (storing directBranch)) childAgain).bind
      fun c => (c.state.runs 0).map fun row => (c.state.canvases row.workflowId,
        (invocations 0 c.state.log).count ("X", "d1"))) = some (some directBranch, 2) := by
    decide +kernel
  obtain ⟨c, hc, hrun⟩ := Option.bind_eq_some_iff.mp hrun
  obtain ⟨row, hrow, he⟩ := Option.map_eq_some_iff.mp hrun
  obtain ⟨hcanvas, hcount⟩ := Prod.mk.inj he
  refine ⟨c, row, hc, hrow, hcanvas, ?_⟩
  rw [hcount]
  decide

theorem directBranch_apart : PhasesApart smallRegistry directBranch "I" := by
  intro graph ordered waves hgraph hsort hwaves
  cases hgraph
  cases hsort
  cases hwaves
  decide

theorem directBranch_keepsDevices {input : DeviceGroupInput} (hs : input.startNodeId = "I")
    (hj : input.joinNodeId = none) : KeepsDevices demoDeployment directBranch input := by
  intro graph hgraph n hn hb behave hx ctx run seed outcomes hout o ho id hid
  cases hgraph
  have hnotList : ∀ n ∈ directBranch.nodes,
      n.id ∈ childNodeIds "I" none directBranch.nodes directBranch.edges →
      n.stepType ≠ "get-from-list" := by decide
  rw [childBranch, hs, hj] at hb
  simp only [demoDeployment, if_neg (hnotList n hn hb)] at hx
  split at hx
  · cases hx
    cases hout
    cases List.mem_singleton.mp ho
    exact hid
  · cases hx

/-- The saves, the deliveries and the fan-outs of a run of the first canvas, as a test. -/
def onceTest (e : Event Launch (Answer Unit)) (w w' : World) : Bool :=
  decide (w'.canvases 1 = w.canvases 1) &&
  (match e with
    | .launch _ (.deviceGroup index) => w.groupTasks[index]?.all fun task =>
        task.deliveries == 0 && task.input.startNodeId == "I" && task.input.joinNodeId == none
    | _ => true) &&
  match w'.log.getLast? with
  | some (_, .loaded _ (.capture inventory) _) => inventory == "I"
  | _ => true

theorem onceTest_ok {e : Event Launch (Answer Unit)} {w w' : World} (h : onceTest e w w' = true) :
    DeliveredOnce demoDeployment 0 1 directBranch e w w' := by
  simp only [onceTest, Bool.and_eq_true, decide_eq_true_eq] at h
  obtain ⟨⟨hsame, htask⟩, hlog⟩ := h
  constructor
  · exact hsame
  · rintro i index task rfl hk -
    simp only [hk, Option.all_some, Bool.and_eq_true, beq_iff_eq] at htask
    exact ⟨htask.1.1, directBranch_keepsDevices htask.1.2 htask.2⟩
  · intro i inventory stored he
    rw [he, List.getLast?_append, List.getLast?_singleton, Option.some_or] at hlog
    simp only [beq_iff_eq] at hlog
    rw [hlog]
    exact directBranch_apart

/-- With one delivery the step of the child acts once on the device. -/
theorem firstChild_actsOnce :
    ∃ c, (runSystem demoDeployment).exec (.idle (storing directBranch)) firstChild = some c ∧
      ("X", "d1") ∈ invocations 0 c.state.log ∧
      ∀ nodeId deviceId, (invocations 0 c.state.log).count (nodeId, deviceId) ≤ 1 := by
  have hrun : (((runSystem demoDeployment).exec (.idle (storing directBranch)) firstChild).bind
      fun c => (c.state.runs 0).map fun row => (row.workflowId,
        decide (("X", "d1") ∈ invocations 0 c.state.log))) = some (1, true) := by decide +kernel
  have hcheck : (runSystem demoDeployment).checkRun onceTest (.idle (storing directBranch))
      firstChild = true := by decide +kernel
  obtain ⟨c, hc, hrun⟩ := Option.bind_eq_some_iff.mp hrun
  obtain ⟨row, hrow, he⟩ := Option.map_eq_some_iff.mp hrun
  obtain ⟨hworkflow, hmem⟩ := Prod.mk.inj he
  refine ⟨c, hc, of_decide_eq_true hmem, executor_atMostOnce demoDeployment hc hrow rfl ?_⟩
  rw [hworkflow]
  exact System.allowedRun_of_check (fun _ _ _ => onceTest_ok) hcheck

end Examples

end Manus
