import Manus.Lib.Permission
import Manus.Runner.Transparency
import Manus.Runs.Keeps

/-! # The rights of a run

Whoever creates the first step row of a run owns every step on every device of
it. Starting an executor uses the right of its node on its devices. Every other
operation moves no rights, and a walk needs those of its own nodes only.
-/

namespace Manus

variable {ω : Type}

def invocations (runId : ℕ) (log : List (ℕ × Note)) : List (String × String) :=
  log.flatMap fun entry => match entry.2 with
    | .invoked id nodeId deviceIds =>
      if id = runId then deviceIds.map fun deviceId => (nodeId, deviceId) else []
    | _ => []

theorem invocations_append (runId : ℕ) (log log' : List (ℕ × Note)) :
    invocations runId (log ++ log') = invocations runId log ++ invocations runId log' :=
  List.flatMap_append

section Ledger

def firstNode (registry : PluginRegistry) (canvas : Canvas) : Option String :=
  match loadExecutionGraph canvas with
  | .error _ => none
  | .ok graph =>
    match topologicalSort registry graph with
    | .error _ => none
    | .ok ordered => ordered.head?.map CanvasNode.id

def childBranch (canvas : Canvas) (input : DeviceGroupInput) : List String :=
  match loadExecutionGraph canvas with
  | .error _ => []
  | .ok graph => childNodeIds input.startNodeId input.joinNodeId graph.nodes graph.edges

/-- What a child may do: the nodes of its branch on the devices of its group. -/
def childRights (canvas : Canvas) (input : DeviceGroupInput) : Set (String × String) :=
  {x | x.1 ∈ childBranch canvas input ∧ x.2 ∈ input.context.devices.keys}

variable (registry : PluginRegistry) (runId : ℕ) (canvas : Canvas)

/-- The rights of a run on its canvas. Before the first row exists, all of them wait for whoever
creates it; those of a child wait for its first delivery. -/
def ledger : Ledger World (Option ℕ) (String × String) where
  lies w
    | none => {_x | ∀ id, firstNode registry canvas = some id →
        id ∉ (w.steps runId).map StepRow.nodeId}
    | some k => {x | ∃ task, w.groupTasks[k]? = some task ∧ task.deliveries = 0 ∧
        task.input.parentRunId = runId ∧ x ∈ childRights canvas task.input}
  used w := invocations runId w.log

variable {registry runId canvas}

theorem ledger_idles {w w' : World} (hlog : invocations runId w'.log = invocations runId w.log)
    (hsteps : ∀ id ∈ (w.steps runId).map StepRow.nodeId,
      id ∈ (w'.steps runId).map StepRow.nodeId)
    (htasks : ∀ (k : ℕ) (task' : GroupTask), w'.groupTasks[k]? = some task' →
      task'.input.parentRunId = runId → task'.deliveries = 0 →
      ∃ task : GroupTask, w.groupTasks[k]? = some task ∧ task.deliveries = 0 ∧
        task.input = task'.input) :
    (ledger registry runId canvas).Idles w w' := by
  refine ⟨hlog, ?_⟩
  rintro (_ | k) x hx
  · exact fun id hid hmem => hx id hid (hsteps id hmem)
  · obtain ⟨task', hk, hd, hp, hx⟩ := hx
    obtain ⟨task, hk, hd, he⟩ := htasks k task' hk hp hd
    exact ⟨task, hk, hd, he ▸ hp, he ▸ hx⟩

theorem ledger_idles_same {w w' : World} (hlog : invocations runId w'.log = invocations runId w.log)
    (hsteps : w'.steps = w.steps) (htasks : w'.groupTasks = w.groupTasks) :
    (ledger registry runId canvas).Idles w w' := by
  refine ledger_idles hlog (fun id hid => hsteps ▸ hid) fun k task' hk _ hd => ?_
  rw [htasks] at hk
  exact ⟨task', hk, hd, rfl⟩

theorem ledger_idles_refl (w : World) : (ledger registry runId canvas).Idles w w :=
  ledger_idles_same rfl rfl rfl

theorem ledger_idles_note (w : World) (i : ℕ) {n : Note}
    (hn : ∀ nodeId deviceIds, n ≠ .invoked runId nodeId deviceIds) :
    (ledger registry runId canvas).Idles w (w.note i n) := by
  refine ledger_idles_same ?_ rfl rfl
  rw [World.note, invocations_append]
  cases n with
  | invoked id nodeId deviceIds =>
    have hne : id ≠ runId := fun he => hn nodeId deviceIds (he ▸ rfl)
    simp [invocations, hne]
  | _ => simp [invocations]

theorem ledger_idles_steps (w : World) (id : ℕ) {rows : List StepRow}
    (h : ∀ nodeId ∈ (w.steps id).map StepRow.nodeId, nodeId ∈ rows.map StepRow.nodeId) :
    (ledger registry runId canvas).Idles w (w.setSteps id rows) := by
  refine ledger_idles rfl (fun nodeId hmem => ?_) fun k task hk _ hd => ⟨task, hk, hd, rfl⟩
  by_cases he : runId = id
  · subst he
    simp only [World.setSteps, Function.update_self]
    exact h nodeId hmem
  · simpa only [World.setSteps, Function.update_of_ne he] using hmem

theorem ledger_idles_transition (w : World) (id : ℕ) (toStatus : RunStatus)
    (fromStatuses : Option (List RunStatus)) (fields : RunFields) :
    (ledger registry runId canvas).Idles w (w.transition id toStatus fromStatuses fields).2 := by
  rcases w.transition_cases id toStatus fromStatuses fields with h | ⟨row, -, -, h⟩ <;> rw [h]
  · exact ledger_idles_refl w
  · exact ledger_idles_same rfl rfl rfl

theorem ledger_idles_claim (w : World) (i id : ℕ) :
    (ledger registry runId canvas).Idles w (w.claim i id).2 := by
  rcases w.transition_cases id .running (some [.pending]) {} with h | ⟨row, -, -, h⟩
  · simp only [World.claim, h]
    exact ledger_idles_refl w
  · simp only [World.claim, h]
    exact ledger_idles_note (w.setRun id (row.move .running {})) i fun _ _ => Note.noConfusion

end Ledger

section Operations

variable {registry : PluginRegistry} {runId : ℕ} {canvas : Canvas} {I : World → Prop}

abbrev MovesNone (registry : PluginRegistry) (runId : ℕ) (canvas : Canvas) (I : World → Prop)
    (α : Type) (p : Run ω α) : Prop :=
  p.Always I fun _ => (ledger registry runId canvas).Idles

/-- Every operation but starting an executor of the run and asking for a child of it. -/
theorem stepOps_movesNone : StepOps (ω := ω) (fun id => id ≠ runId)
    (MovesNone registry runId canvas I) where
  closed := ⟨.pure, .bind⟩
  gather _ := .gather
  get _ _ := .get fun _ => ledger_idles_refl
  answer _ := .lift fun t w x w' _ h => by
    cases h
    exact ledger_idles_refl w
  cancel _ := .update fun _ w _ => ledger_idles_transition w _ _ _ _
  transitionRun _ _ _ _ := .update fun _ w _ => ledger_idles_transition w _ _ _ _
  annotateCancelled _ _ := .update fun _ w _ => ledger_idles_transition w _ _ _ _
  finaliseOpenStepResults id := .update fun _ w _ => ledger_idles_steps w id fun nodeId hmem => by
    have hclose : ((w.steps id).map StepRow.close).map StepRow.nodeId =
        (w.steps id).map StepRow.nodeId := by
      rw [List.map_map]
      refine List.map_congr_left fun row _ => ?_
      simp only [Function.comp_apply, StepRow.close]
      split <;> rfl
    rwa [hclose]
  createRun _ _ _ _ _ := .update fun _ w _ => by
    split <;> exact ledger_idles_same rfl rfl rfl
  endStart _ := .update fun _ w _ => ledger_idles_same rfl rfl rfl
  recheckParent parentRunId id := .update fun _ w _ => by
    rcases w.recheck_cases parentRunId id with h | h <;> rw [h] <;>
      exact ledger_idles_same rfl rfl rfl
  submit _ := .lift fun t w x w' _ h => by
    cases h
    split <;> exact ledger_idles_same rfl rfl rfl
  recordHatchetRunId _ _ := .update fun _ w _ => by
    dsimp only
    split <;> exact ledger_idles_same rfl rfl rfl
  pushBatchEvent _ _ := .lift fun t w x w' _ h => by
    cases h
    split <;> exact ledger_idles_same rfl rfl rfl
  createStepResult id node := .update fun _ w _ => by
    split
    · exact ledger_idles_refl w
    · refine ledger_idles_steps w id fun nodeId hmem => ?_
      rw [List.map_append]
      exact List.mem_append_left _ hmem
  updateStepResult id nodeId status := .update fun _ w _ => ledger_idles_steps w id
    fun nodeId' hmem => by
      rw [List.map_map]
      obtain ⟨row, hrow, rfl⟩ := List.mem_map.mp hmem
      refine List.mem_map.mpr ⟨row, hrow, ?_⟩
      simp only [Function.comp_apply]
      split <;> rfl
  loadWorkflow _ _ _ _ := .lift fun t w x w' _ h => by
    split at h
    · cases h
      exact ledger_idles_refl w
    · cases h
      exact ledger_idles_note w _ fun _ _ => Note.noConfusion
  cancelRequested _ := .lift fun t w x w' _ h => by
    cases h
    exact ledger_idles_note w _ fun _ _ => Note.noConfusion
  invoke id nodeId ctx hid := .lift fun t w x w' _ h => by
    cases h
    refine ledger_idles_note w _ fun nodeId' deviceIds he => ?_
    cases he
    exact hid rfl
  waitForEvent _ _ := .lift fun t w x w' _ h => by
    split at h
    · cases h
      exact ledger_idles_refl w
    · cases h
  requestChild input hid := .update fun _ w _ => by
    refine ledger_idles rfl (fun _ hmem => hmem) fun k task' hk hp hd => ?_
    rw [List.getElem?_append] at hk
    split at hk
    · exact ⟨task', hk, hd, rfl⟩
    · cases List.mem_singleton.mp (List.mem_of_getElem? hk)
      exact absurd hp hid
  awaitChild _ := .lift fun t w x w' _ h => by
    split at h
    · obtain ⟨r, -, he⟩ := Option.map_eq_some_iff.mp h
      cases he
      exact ledger_idles_refl w
    · cases h
      exact ledger_idles_refl w
  reportChild index result := .update fun _ w _ => by
    refine ledger_idles rfl (fun _ hmem => hmem) fun k task' hk _ hd => ?_
    rw [List.getElem?_modify] at hk
    obtain ⟨task, htask, rfl⟩ := Option.map_eq_some_iff.mp hk
    refine ⟨task, htask, ?_⟩
    split at hd
    · rename_i he
      rw [if_pos he]
      exact ⟨hd, rfl⟩
    · rename_i he
      rw [if_neg he]
      exact ⟨hd, rfl⟩
  prepare id := .lift fun t w x w' _ h => by
    have hclaim : (ledger registry runId canvas).Idles w (w.claim t.thread id).2 :=
      ledger_idles_claim w t.thread id
    rwa [Option.some.inj h] at hclaim
  writeCanvas _ _ := .update fun _ w _ => ledger_idles_same rfl rfl rfl

end Operations

theorem checkOutcomes_ok {spec : StepCapabilitySpec} {node : CanvasNode} {ctx : WorkflowContext}
    {result : Except String (List StepOutcome)} {outcomes : List StepOutcome}
    (h : checkOutcomes spec node ctx result = .ok outcomes) : result = .ok outcomes := by
  unfold checkOutcomes at h
  split at h
  · cases h
  · cases h
  · split at h
    · cases h
    · cases h
      rfl

section Waves

variable {d : Deployment ω} {runId : ℕ} {canvas : Canvas} {I : World → Prop} {run : RunInfo}
  {edges : List CanvasEdge} {so : StepOutcomes} {g : Set (String × String)}

abbrev spending (d : Deployment ω) (runId : ℕ) (canvas : Canvas) :
    Prog.Move World (Set (String × String)) :=
  fun _ => (ledger d.registry runId canvas).Spends

theorem MovesNone.spends {α : Type} {p : Run ω α} (h : MovesNone d.registry runId canvas I α p)
    (g : Set (String × String)) : p.Spec I (spending d runId canvas) g fun _ g' => g' = g :=
  h.spec fun _ _ _ _ hi => hi.spends g

theorem invoke_uses {nodeId : String} {ctx : WorkflowContext}
    (hg : ∀ id ∈ ctx.devices.keys, (nodeId, id) ∈ g) :
    (invoke (ω := ω) runId nodeId ctx).Spec I (spending d runId canvas) g fun _ _ => True := by
  intro t w x w' _ h
  cases h
  refine ⟨{x ∈ g | x ∉ ctx.devices.keys.map fun id => (nodeId, id)}, ⟨ctx.devices.keys.map fun id =>
    (nodeId, id), ∅, none, ?_⟩, trivial⟩
  constructor
  · change invocations runId (w.log ++ _) = _
    rw [invocations_append]
    simp [invocations, ledger]
  · exact ctx.devices.keys_nodup.map fun a b he => (Prod.mk.inj he).2
  · intro x hx
    obtain ⟨id, hid, rfl⟩ := List.mem_map.mp hx
    exact ⟨hg id hid, fun hx' => hx'.2 hx, fun hx' => hx'⟩
  · exact fun x hx => hx.1
  · exact Set.empty_subset g
  · rintro x ⟨⟩
  · exact Set.subset_union_left
  · exact fun q _ => subset_rfl

def ReturnedBy (d : Deployment ω) (run : RunInfo) (edges : List CanvasEdge) (so : StepOutcomes)
    (node : CanvasNode) (outcomes : List StepOutcome) : Prop :=
  ∃ ctx behave seed raw, assembleInputContext edges so run node.id = .ok ctx ∧
    d.executors node.stepType = some behave ∧
    behave node.data.pluginConfig ctx run node.id seed = .ok raw ∧
    outcomes = seedRunInputs run raw

theorem produceOutcomes_uses {node : CanvasNode}
    (hg : ∀ ctx, assembleInputContext edges so run node.id = .ok ctx →
      ∀ id ∈ ctx.devices.keys, (node.id, id) ∈ g) :
    (produceOutcomes (workerRunner d runId) run edges so node).Spec I (spending d runId canvas) g
      fun result _ => ∀ outcomes, result = .ok outcomes →
        ReturnedBy d run edges so node outcomes := by
  unfold produceOutcomes
  split
  · rintro outcomes ⟨⟩
  · rename_i ctx hctx
    have hexec : (executeStep (workerRunner d runId) run node ctx).Spec I
      (spending d runId canvas) g
        fun result _ => ∀ outcomes, result = .ok outcomes → ∃ behave seed,
          d.executors node.stepType = some behave ∧
          behave node.data.pluginConfig ctx run node.id seed = .ok outcomes := by
      unfold executeStep
      split
      · rintro outcomes ⟨⟩
      · rename_i executor hx
        split
        · rintro outcomes ⟨⟩
        · dsimp only
          split
          · rintro outcomes ⟨⟩
          · obtain ⟨behave, hb, rfl⟩ := Option.map_eq_some_iff.mp hx
            refine (invoke_uses (hg ctx hctx)).bind fun _ g' _ => ?_
            intro t w x w' hw h
            cases h
            refine ⟨g', (ledger_idles_refl w).spends g', fun outcomes he => ?_⟩
            exact ⟨behave, t.oracle.seed, hb, checkOutcomes_ok he⟩
    refine hexec.bind fun result g' hr => ?_
    intro outcomes he
    cases result with
    | error e => cases he
    | ok raw =>
      cases he
      obtain ⟨behave, seed, hb, hraw⟩ := hr raw rfl
      exact ⟨ctx, behave, seed, raw, hctx, hb, hraw, rfl⟩

theorem gather_uses {α : Type} {f : CanvasNode → Run ω α} {wave : List CanvasNode}
    {Q : CanvasNode → α → Prop} (hn : (wave.map CanvasNode.id).Nodup)
    (hf : ∀ n ∈ wave,
      (f n).Spec I (spending d runId canvas) {x ∈ g | x.1 = n.id} fun a _ => Q n a) :
    (Prog.gather (wave.map f)).Spec I (spending d runId canvas) g fun results g' =>
      List.Forall₂ Q wave results ∧ ∀ x ∈ g, x.1 ∉ wave.map CanvasNode.id → x ∈ g' := by
  have hsplit : Prog.SplitAll Ledger.Divides {x ∈ g | x.1 ∈ wave.map CanvasNode.id}
      (wave.map fun n => {x ∈ g | x.1 = n.id}) := by
    refine Ledger.splitAll_parts (fun x => ?_) ?_
    · constructor
      · rintro ⟨hx, hid⟩
        obtain ⟨n, hn, he⟩ := List.mem_map.mp hid
        exact ⟨n, hn, hx, he.symm⟩
      · rintro ⟨n, hn, hx, he⟩
        exact ⟨hx, he ▸ List.mem_map_of_mem hn⟩
    · refine (List.pairwise_map.mp hn).imp fun hne x hx hx' => ?_
      exact hne (hx.2.symm.trans hx'.2)
  have hwave := Prog.Spec.gather Ledger.spends_splits hsplit hf
  refine (Prog.Spec.left Ledger.spends_splits (Ledger.divides_sep g _) hwave).imp ?_
  rintro results g' ⟨g₁', hg', hq⟩
  refine ⟨hq, fun x hx hid => ?_⟩
  rw [hg'.1]
  exact .inr ⟨hx, hid⟩

theorem runNodeInSequence_uses {st : WalkState} {node : CanvasNode}
    (hg : ∀ id, (node.id, id) ∈ g) :
    (runNodeInSequence (workerRunner d runId) run edges st node).Spec I (spending d runId canvas) g
      fun _ _ => True := by
  have hpersist : ∀ status g', ((workerRunner d runId).persistStepResult node.id status).Spec I
      (spending d runId canvas) g' fun _ g'' => g'' = g' := fun status g' =>
    (stepOps_movesNone.updateStepResult runId node.id status).spends g'
  unfold runNodeInSequence
  split
  · exact (hpersist _ _).bind fun _ _ _ => trivial
  · refine (hpersist _ _).bind fun _ g' hg' => ?_
    subst hg'
    refine (produceOutcomes_uses fun ctx _ id _ => hg id).bind fun result g' _ => ?_
    cases result with
    | ok outcomes => exact (hpersist _ _).bind fun _ _ _ => trivial
    | error e => exact (hpersist _ _).bind fun _ _ _ => trivial

theorem stopRequested_uses (st : WalkState) :
    (stopRequested (workerRunner d runId) st).Spec I (spending d runId canvas) g
      fun _ g' => g' = g := by
  unfold stopRequested
  split
  · rfl
  · exact (stepOps_movesNone.cancelRequested runId).spends g

/-- A walk with the rights on all its nodes has, when it is handed over, those on the nodes behind
the wave that was run last. -/
theorem walkWaves_uses {β : Type} {handOver : WalkState → List CanvasNode → Option β}
    {waves : List (List CanvasNode)} (hl : Layered edges waves) {st : WalkState}
    (hg : ∀ n ∈ waves.flatten, ∀ id, (n.id, id) ∈ g) :
    (walkWaves (workerRunner d runId) run edges handOver waves st).Spec I
      (spending d runId canvas) g
      fun r g' => ∀ signal, r.2 = some signal → ∃ k st' wave, waves[k]? = some wave ∧
        handOver st' wave = some signal ∧
        ∀ x ∈ g, x.1 ∉ (waves.take (k + 1)).flatten.map CanvasNode.id → x ∈ g' := by
  induction waves generalizing st g with
  | nil => rintro signal ⟨⟩
  | cons wave waves ih =>
    obtain ⟨hnd, hdis, -, hl⟩ := hl
    -- what the rest of the walk hands over, counted from this wave on
    have hlater : ∀ {g' : Set (String × String)} {st' : WalkState},
        (∀ x ∈ g, x.1 ∉ wave.map CanvasNode.id → x ∈ g') →
        (walkWaves (workerRunner d runId) run edges handOver waves st').Spec I
          (spending d runId canvas) g' fun r g'' => ∀ signal, r.2 = some signal →
            ∃ k st' wave', (wave :: waves)[k]? = some wave' ∧ handOver st' wave' = some signal ∧
              ∀ x ∈ g,
                x.1 ∉ ((wave :: waves).take (k + 1)).flatten.map CanvasNode.id → x ∈ g'' := by
      intro g' st' hg'
      refine (ih hl fun n hn id => ?_).imp fun r g'' h signal hs => ?_
      · refine hg' _ (hg n (List.mem_append_right _ hn) id) fun hmem => ?_
        obtain ⟨m, hm, he⟩ := List.mem_map.mp hmem
        exact hdis m hm n hn he
      · obtain ⟨k, st₁, wave₁, hk, hover, hrest⟩ := h signal hs
        refine ⟨k + 1, st₁, wave₁, hk, hover, fun x hx hid => ?_⟩
        rw [List.take_succ_cons, List.flatten_cons, List.map_append, List.mem_append, not_or] at hid
        exact hrest x (hg' x hx hid.1) hid.2
    refine (stopRequested_uses st).bind fun stop g' hg' => ?_
    subst hg'
    split
    · have hskip : MovesNone d.registry runId canvas I _ (skipWave (workerRunner d runId) wave) :=
        stepOps_movesNone.closed.skipWave (stepOps_movesNone.updateStepResult runId) wave
      refine (hskip.spends g').bind fun _ g'' hg'' => ?_
      subst hg''
      exact hlater fun x hx _ => hx
    · have hwave : (runWave (workerRunner d runId) run edges st wave).Spec I
          (spending d runId canvas) g' fun _ g'' =>
            ∀ x ∈ g', x.1 ∉ wave.map CanvasNode.id → x ∈ g'' := by
        refine (gather_uses (Q := fun _ _ => True) hnd fun n hn =>
          runNodeInSequence_uses fun id => ⟨?_, rfl⟩).bind fun _ g'' h => h.2
        exact hg n (List.mem_append_left _ hn) id
      refine hwave.bind fun st' g'' hg'' => ?_
      split
      · exact hlater hg''
      · split
        · rename_i signal hover
          rintro signal' ⟨⟩
          refine ⟨0, st', wave, rfl, hover, fun x hx hid => ?_⟩
          rw [List.take_succ_cons, List.take_zero, List.flatten_cons, List.flatten_nil,
            List.append_nil] at hid
          exact hg'' x hx hid
        · exact hlater hg''

end Waves

end Manus
