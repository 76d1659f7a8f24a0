import Manus.Children.StartWorkflow

/-! # Every started run is accounted for

An execution that returns puts every device into one outcome, with the id of the run that it
was handed to. Only an execution that is left by an exception loses runs: when a start is
refused after another one, or when a run is gone while the step waits for it.
-/

namespace Manus.Children

variable {F : Type} {floats : Floats F} {names : DriverNames} {parsed : ParsedConfig F}

section Statements

def recordedRun (bagName : String) (device : DeviceContext) : Option Json :=
  (device.attributeBags.get? bagName).bind fun bag => bag.get? "run_id"

def exitsOf (key : String) (outcomes : List Outcome) : List String :=
  (outcomes.filter fun outcome => decide (key ∈ outcome.context.devices.keys)).map
    fun outcome => outcome.name

/-- Every run that was started is in the bag of every device that was handed to it, and every
device leaves by one outcome. -/
structure Accounted (bagName : String) (devices : Dict DeviceContext) (execution : Execution F) :
    Prop where
  recorded : ∀ run ∈ execution.started, ∃ outcomes, execution.result = .ok outcomes ∧
    ∀ key ∈ run.deviceKeys, ∃ outcome ∈ outcomes, ∃ device,
      outcome.context.devices.get? key = some device ∧
        recordedRun bagName device = some (.int run.runId)
  routed : ∀ outcomes, execution.result = .ok outcomes → ∀ key ∈ devices.keys,
    exitsOf key outcomes = ["success"] ∨ exitsOf key outcomes = ["failure"]

def StartAnswer.isRun : StartAnswer → Prop
  | .run _ => True
  | _ => False

def StartAnswer.refuses : StartAnswer → Prop
  | .domainError _ | .callerGone => True
  | _ => False

def RefusedLate (starts : ℕ → StartAnswer) (calls : ℕ) : Prop :=
  ∃ call < calls, 0 < call ∧ (starts call).refuses ∧ ∀ earlier < call, (starts earlier).isRun

/-- The step still polls a run in a round: in every round before it the run was found unfinished,
the calling run was not cancelled and there was time left. -/
def StillPolled (parsed : ParsedConfig F) (answers : Answers) (id : ℤ) (round : ℕ) : Prop :=
  ∀ before < round, (∃ snapshot, answers.polls before id = some snapshot ∧
    snapshot.isTerminal = false) ∧ answers.cancelled before = false ∧
      before * parsed.pollIntervalSeconds.1 < parsed.waitSeconds.1

def GoneWhileWaiting (parsed : ParsedConfig F) (answers : Answers) (calls : ℕ) : Prop :=
  ∃ call < calls, ∃ id round, (∀ earlier < call, (answers.starts earlier).isRun) ∧
    answers.starts call = .run id ∧ StillPolled parsed answers id round ∧
      answers.polls round id = none

def LosesRuns (parsed : ParsedConfig F) (answers : Answers) (calls : ℕ) : Prop :=
  (∃ readers, answers.target = .ok readers) ∧ (RefusedLate answers.starts calls ∨
    (parsed.wait = true ∧ GoneWhileWaiting parsed answers calls))

/-- The configuration and the devices let the step set out for so many starts. -/
def SetsOut (floats : Floats F) (names : DriverNames)
    (config : List (String × JsonValue (Number F))) (context : WorkflowContext) (nodeId : String)
    (parsed : ParsedConfig F) (calls : ℕ) : Prop :=
  parseConfig floats config = .ok parsed ∧ context.devices.isEmpty = false ∧
    (splitByIdentity names parsed context nodeId).1.isEmpty = false ∧
    calls = (buildGroups parsed (splitByIdentity names parsed context nodeId).1
      (splitByIdentity names parsed context nodeId).2.1).length ∧
    calls ≤ parsed.maxRuns.1

end Statements

section Starting

def Group.Fresh (group : Group) : Prop := group.runId = none ∧ group.finished = false

def Group.identity (group : Group) : List String × Option ℤ := (group.deviceKeys, group.runId)

theorem buildGroups_fresh {eligible : Dict DeviceContext} {lines : Dict String} :
    ∀ group ∈ buildGroups parsed eligible lines, group.Fresh := by
  intro group hgroup
  unfold buildGroups at hgroup
  split at hgroup
  · rw [List.mem_singleton.mp hgroup]
    exact ⟨rfl, rfl⟩
  · split at hgroup
    · obtain ⟨key, -, rfl⟩ := List.mem_map.mp hgroup
      exact ⟨rfl, rfl⟩
    · rw [List.mem_singleton.mp hgroup]
      exact ⟨rfl, rfl⟩

theorem buildGroups_keys {eligible : Dict DeviceContext} {lines : Dict String} :
    (buildGroups parsed eligible lines).flatMap Group.deviceKeys = eligible.keys := by
  unfold buildGroups
  split
  · simp
  · split
    · rw [List.flatMap_map]
      exact List.flatMap_singleton' _
    · simp

variable {starts : ℕ → StartAnswer}

theorem startGroups_down (call : ℕ) (groups : List Group) :
    startGroups parsed starts call true groups = ([], .ok (groups.map engineUnavailable)) := by
  induction groups with
  | nil => rfl
  | cons group groups ih =>
    rw [startGroups, if_pos rfl, ih]
    rfl

inductive Started (starts : ℕ → StartAnswer) : ℕ → List Group → List Group → Prop
  | nil (call : ℕ) : Started starts call [] []
  | run {call : ℕ} {id : ℤ} {group : Group} {groups groups' : List Group}
      (hanswer : starts call = .run id) (hrest : Started starts (call + 1) groups groups') :
      Started starts call (group :: groups)
        ({ group with runId := some id, status := "dispatched" } :: groups')
  | down {call : ℕ} {group : Group} {groups : List Group} (hanswer : starts call = .engineError) :
      Started starts call (group :: groups) ((group :: groups).map engineUnavailable)

/-- The starts go through, or one is refused after starts that all started a run. -/
theorem startGroups_cases (call : ℕ) (groups : List Group) :
    (∃ groups', (startGroups parsed starts call false groups).2 = .ok groups' ∧
      Started starts call groups groups') ∨
    (∃ error j, (startGroups parsed starts call false groups).2 = .error error ∧
      j < groups.length ∧ (starts (call + j)).refuses ∧ (∀ i < j, (starts (call + i)).isRun) ∧
      ((startGroups parsed starts call false groups).1 = [] ↔ j = 0)) := by
  induction groups generalizing call with
  | nil => exact .inl ⟨[], rfl, .nil call⟩
  | cons group groups ih =>
    rw [startGroups]
    cases hanswer : starts call with
    | run id =>
      rcases ih (call + 1) with
        ⟨groups', hok, hstarted⟩ | ⟨error, j, herror, hj, hrefuses, hruns, -⟩
      · left
        exact ⟨_, by simp [hok]; rfl, .run hanswer hstarted⟩
      · right
        refine ⟨error, j + 1, by simp [herror]; rfl, by simpa using hj, ?_, ?_, by simp⟩
        · rwa [← Nat.add_right_comm, Nat.add_assoc] at hrefuses
        · intro i hi
          cases i with
          | zero => rw [Nat.add_zero, hanswer]; trivial
          | succ i =>
            have hrun := hruns i (by omega)
            rwa [Nat.add_assoc, Nat.add_comm 1 i] at hrun
    | engineError =>
      left
      simp only [startGroups_down]
      exact ⟨_, rfl, .down hanswer⟩
    | domainError message =>
      right
      exact ⟨_, 0, by simp; rfl, by simp, by rw [Nat.add_zero, hanswer]; trivial, by simp, by simp⟩
    | callerGone =>
      right
      exact ⟨_, 0, by simp; rfl, by simp, by rw [Nat.add_zero, hanswer]; trivial, by simp, by simp⟩

theorem Started.keys {call : ℕ} {groups groups' : List Group}
    (h : Started starts call groups groups') :
    groups'.map Group.deviceKeys = groups.map Group.deviceKeys := by
  induction h with
  | nil => rfl
  | run _ _ ih => simpa using ih
  | down => simp [engineUnavailable, Group.reject, Function.comp_def]

theorem startGroups_runs {call : ℕ} {groups groups' : List Group}
    (hok : (startGroups parsed starts call false groups).2 = .ok groups') :
    ∀ run ∈ (startGroups parsed starts call false groups).1,
      (run.deviceKeys, some run.runId) ∈ groups'.map Group.identity := by
  induction groups generalizing call groups' with
  | nil => intro run hrun; cases hrun
  | cons group groups ih =>
    rw [startGroups] at hok ⊢
    cases hanswer : starts call with
    | run id =>
      simp only [hanswer, Bool.false_eq_true, if_false] at hok ⊢
      obtain ⟨rest, hrest, rfl⟩ := map_eq_ok.mp hok
      intro run hrun
      rcases List.mem_cons.mp hrun with rfl | hrun
      · simp [Group.identity]
      · exact List.mem_cons_of_mem _ (ih hrest run hrun)
    | engineError =>
      intro run hrun
      simp [startGroups_down] at hrun
    | domainError message => simp [hanswer] at hok
    | callerGone => simp [hanswer] at hok

/-- A run is waited for when its start and all starts before it started a run. -/
theorem Started.pending_iff {call : ℕ} {groups groups' : List Group}
    (h : Started starts call groups groups') (hfresh : ∀ group ∈ groups, group.Fresh) (id : ℤ) :
    (∃ group ∈ groups', group.isPending = true ∧ group.runId = some id) ↔
      ∃ j < groups.length, (∀ i < j, (starts (call + i)).isRun) ∧ starts (call + j) = .run id := by
  induction h with
  | nil => simp
  | @run call id' group groups groups' hanswer hrest ih =>
    obtain ⟨hnone, hunfinished⟩ := hfresh group List.mem_cons_self
    have hrest := ih fun group hgroup => hfresh group (List.mem_cons_of_mem _ hgroup)
    rw [List.exists_mem_cons_iff, hrest]
    constructor
    · rintro (⟨-, hid⟩ | ⟨j, hj, hruns, hrun⟩)
      · refine ⟨0, by simp, fun _ h => absurd h (Nat.not_lt_zero _), ?_⟩
        simpa [hanswer] using hid
      · refine ⟨j + 1, by simpa using hj, ?_, by rw [← hrun]; congr 1; omega⟩
        intro i hi
        cases i with
        | zero => rw [Nat.add_zero, hanswer]; trivial
        | succ i =>
          have hrun := hruns i (by omega)
          rwa [Nat.add_assoc, Nat.add_comm 1 i] at hrun
    · rintro ⟨j, hj, hruns, hrun⟩
      cases j with
      | zero =>
        left
        rw [Nat.add_zero, hanswer] at hrun
        cases hrun
        exact ⟨by simp [Group.isPending, hunfinished], rfl⟩
      | succ j =>
        right
        refine ⟨j, by simpa using hj, ?_, by rw [← hrun]; congr 1; omega⟩
        intro i hi
        have hrun := hruns (i + 1) (by omega)
        rwa [Nat.add_assoc, Nat.add_comm 1 i]
  | @down call group groups hanswer =>
    constructor
    · rintro ⟨group', hgroup', hpending, -⟩
      obtain ⟨group₀, hgroup₀, rfl⟩ := List.mem_map.mp hgroup'
      simp [Group.isPending, engineUnavailable, Group.reject] at hpending
    · rintro ⟨j, hj, hruns, hrun⟩
      cases j with
      | zero => rw [Nat.add_zero, hanswer] at hrun; cases hrun
      | succ j =>
        have hfirst := hruns 0 (by omega)
        rw [Nat.add_zero, hanswer] at hfirst
        exact hfirst.elim

theorem StartAnswer.not_refuses {answer : StartAnswer} (h : answer.isRun) : ¬ answer.refuses := by
  cases answer with
  | run id => exact fun hrefuses => hrefuses
  | _ => exact h.elim

theorem Started.not_refused {call : ℕ} {groups groups' : List Group}
    (h : Started starts call groups groups') {j : ℕ} (hj : j < groups.length)
    (hruns : ∀ i < j, (starts (call + i)).isRun) : ¬ (starts (call + j)).refuses := by
  induction h generalizing j with
  | nil => cases hj
  | @run call id group groups groups' hanswer hrest ih =>
    cases j with
    | zero =>
      rw [Nat.add_zero, hanswer]
      exact fun h => h
    | succ j =>
      have hlater := ih (j := j) (by simpa using hj) fun i hi => by
        have hrun := hruns (i + 1) (by omega)
        rwa [Nat.add_assoc, Nat.add_comm 1 i]
      rwa [Nat.add_assoc, Nat.add_comm 1 j] at hlater
  | down hanswer =>
    cases j with
    | zero =>
      rw [Nat.add_zero, hanswer]
      exact fun h => h
    | succ j =>
      have hfirst := hruns 0 (by omega)
      rw [Nat.add_zero, hanswer] at hfirst
      exact hfirst.elim

theorem startGroups_ne_nil {call : ℕ} {groups : List Group} (hgroups : groups ≠ [])
    (hrun : (starts call).isRun) : (startGroups parsed starts call false groups).1 ≠ [] := by
  cases groups with
  | nil => exact (hgroups rfl).elim
  | cons group groups =>
    rw [startGroups]
    cases hanswer : starts call with
    | run id => simp
    | _ =>
      rw [hanswer] at hrun
      exact hrun.elim

end Starting

section Waiting

variable {polls : ℕ → ℤ → Option ChildRunSnapshot} {cancelled : ℕ → Bool} {readers : List String}

def WaitsFor (groups : List Group) (id : ℤ) : Prop :=
  ∃ group ∈ groups, group.isPending = true ∧ group.runId = some id

theorem any_of_waitsFor {groups : List Group} {id : ℤ} (h : WaitsFor groups id) :
    groups.any Group.isPending = true := by
  obtain ⟨group, hgroup, hpending, -⟩ := h
  exact List.any_eq_true.mpr ⟨group, hgroup, hpending⟩

theorem pollGroup_some {waited : ℕ} {group : Group} {snapshot : ChildRunSnapshot} :
    ∃ group', pollGroup parsed readers waited group (some snapshot) = .ok group' ∧
      group'.identity = group.identity ∧
      group'.isPending = (group.isPending && !snapshot.isTerminal) := by
  rw [pollGroup]
  cases hterminal : snapshot.isTerminal with
  | true =>
    simp only [if_true]
    exact ⟨_, rfl, rfl, by simp [Group.isPending]⟩
  | false => exact ⟨group, rfl, rfl, by simp⟩

variable {answers : ℤ → Option ChildRunSnapshot}

theorem waitsFor_cons {group : Group} {groups : List Group} {id : ℤ} :
    WaitsFor (group :: groups) id ↔
      (group.isPending = true ∧ group.runId = some id) ∨ WaitsFor groups id :=
  List.exists_mem_cons_iff _ _ _

/-- What a round of polls does to one group: a pending group raises when its run is gone, and
stays pending when its run was found unfinished. -/
theorem pollOne_cases (waited : ℕ) (group : Group) :
    (∃ error id, (if group.isPending then
        pollGroup parsed readers waited group (answers (group.runId.getD 0)) else .ok group) =
      Except.error error ∧ group.isPending = true ∧ group.runId = some id ∧ answers id = none) ∨
    (∃ group', (if group.isPending then
        pollGroup parsed readers waited group (answers (group.runId.getD 0)) else .ok group) =
      Except.ok group' ∧ group'.identity = group.identity ∧
        (∀ id, group.isPending = true → group.runId = some id → answers id ≠ none) ∧
        ∀ id, (group'.isPending = true ∧ group'.runId = some id) ↔
          (group.isPending = true ∧ group.runId = some id) ∧
            ∃ snapshot, answers id = some snapshot ∧ snapshot.isTerminal = false) := by
  cases hpending : group.isPending with
  | false => exact .inr ⟨group, rfl, rfl, by simp, by simp [hpending]⟩
  | true =>
    have hsome : group.runId.isSome = true := (Bool.and_eq_true_iff.mp hpending).1
    obtain ⟨id, hid⟩ := Option.isSome_iff_exists.mp hsome
    rw [if_pos rfl, hid, Option.getD_some]
    cases hanswer : answers id with
    | none => exact .inl ⟨_, id, rfl, rfl, rfl, hanswer⟩
    | some snapshot =>
      obtain ⟨group', hok, hidentity, hafter⟩ := @pollGroup_some F parsed readers waited group
        snapshot
      have hid' : group'.runId = group.runId := congrArg Prod.snd hidentity
      refine .inr ⟨group', hok, hidentity, ?_, ?_⟩
      · rintro id' - hid'
        cases hid'
        simp [hanswer]
      · intro id'
        rw [hafter, hpending, hid', hid]
        constructor
        · rintro ⟨hopen, hsame⟩
          cases hsame
          exact ⟨⟨rfl, rfl⟩, snapshot, hanswer, by simpa using hopen⟩
        · rintro ⟨⟨-, hsame⟩, snapshot', hanswer', hopen⟩
          cases hsame
          rw [hanswer] at hanswer'
          cases hanswer'
          exact ⟨by simp [hopen], rfl⟩

/-- A round of polls is left when a run is gone; otherwise the groups wait for the runs that were
found unfinished. -/
theorem pollGroups_cases (waited : ℕ) (groups : List Group) :
    (∃ error, pollGroups parsed answers readers waited groups = .error error ∧
      ∃ id, WaitsFor groups id ∧ answers id = none) ∨
    (∃ groups', pollGroups parsed answers readers waited groups = .ok groups' ∧
      groups'.map Group.identity = groups.map Group.identity ∧
      (∀ id, WaitsFor groups id → answers id ≠ none) ∧
      ∀ id, WaitsFor groups' id ↔ WaitsFor groups id ∧
        ∃ snapshot, answers id = some snapshot ∧ snapshot.isTerminal = false) := by
  induction groups with
  | nil => exact .inr ⟨[], rfl, rfl, by simp [WaitsFor], by simp [WaitsFor]⟩
  | cons group groups ih =>
    rw [pollGroups, List.mapM_cons]
    rcases @pollOne_cases F parsed readers answers waited group with
      ⟨error, id, herror, hpending, hid, hgone⟩ |
      ⟨group', hok, hidentity, hfound, hafter⟩
    · left
      rw [herror]
      exact ⟨error, rfl, id, waitsFor_cons.mpr (.inl ⟨hpending, hid⟩), hgone⟩
    · rw [hok]
      rcases ih with ⟨error, herror, id, hwaits, hgone⟩ | ⟨groups', hrest, hsame, hothers, hiff⟩
      · left
        rw [pollGroups] at herror
        simp only [herror]
        exact ⟨error, rfl, id, waitsFor_cons.mpr (.inr hwaits), hgone⟩
      · right
        rw [pollGroups] at hrest
        simp only [hrest]
        refine ⟨group' :: groups', rfl, by simp [hidentity, hsame], ?_, ?_⟩
        · intro id hwaits
          rcases waitsFor_cons.mp hwaits with ⟨hpending, hid⟩ | hwaits
          · exact hfound id hpending hid
          · exact hothers id hwaits
        · intro id
          rw [waitsFor_cons, waitsFor_cons, hafter, hiff, or_and_right]

/-- In every round up to a later one the run was found unfinished, the calling run was not
cancelled, and there was time left. -/
def PolledFrom (parsed : ParsedConfig F) (polls : ℕ → ℤ → Option ChildRunSnapshot)
    (cancelled : ℕ → Bool) (id : ℤ) (round later : ℕ) : Prop :=
  ∀ before, round ≤ before → before < later →
    (∃ snapshot, polls before id = some snapshot ∧ snapshot.isTerminal = false) ∧
      cancelled before = false ∧
        before * parsed.pollIntervalSeconds.1 < parsed.waitSeconds.1

theorem PolledFrom.next {id : ℤ} {round later : ℕ}
    (h : PolledFrom parsed polls cancelled id (round + 1) later)
    (hfound : ∃ snapshot, polls round id = some snapshot ∧ snapshot.isTerminal = false)
    (hcancelled : cancelled round = false)
    (htime : round * parsed.pollIntervalSeconds.1 < parsed.waitSeconds.1) :
    PolledFrom parsed polls cancelled id round later := by
  intro before hround hlater
  rcases Nat.eq_or_lt_of_le hround with rfl | hlt
  · exact ⟨hfound, hcancelled, htime⟩
  · exact h before hlt hlater

theorem rejectPending_identity (reject : Group → Group) (groups : List Group)
    (h : ∀ group, (reject group).identity = group.identity) :
    (rejectPending reject groups).map Group.identity = groups.map Group.identity := by
  rw [rejectPending, List.map_map]
  apply List.map_congr_left
  intro group _
  rw [Function.comp_apply]
  split
  · exact h group
  · rfl

/-- Waiting keeps the devices and the runs of the groups, and it is left by an exception just when
a run is gone that is still polled. -/
theorem waitForGroups_spec (round waited : ℕ) (groups : List Group)
    (hwaited : waited = min (round * parsed.pollIntervalSeconds.1) parsed.waitSeconds.1) :
    (∀ groups', waitForGroups parsed polls cancelled readers round waited groups = .ok groups' →
      groups'.map Group.identity = groups.map Group.identity) ∧
    ((∃ error, waitForGroups parsed polls cancelled readers round waited groups = .error error) ↔
      ∃ id later, WaitsFor groups id ∧ round ≤ later ∧ polls later id = none ∧
        PolledFrom parsed polls cancelled id round later) := by
  induction hmeasure : parsed.waitSeconds.1 - waited using Nat.strong_induction_on
    generalizing round waited groups with
  | _ measure ih =>
    rw [waitForGroups]
    by_cases hany : groups.any Group.isPending = true
    · rw [if_pos hany]
      rcases @pollGroups_cases F parsed readers (polls round) waited groups with
        ⟨error, herror, id, hwaits, hgone⟩ | ⟨polled, hpolled, hidentity, hfound, hafter⟩
      · rw [herror]
        constructor
        · intro groups' hok
          cases hok
        · constructor
          · intro _
            refine ⟨id, round, hwaits, le_rfl, hgone, ?_⟩
            intro before hround hlater
            omega
          · exact fun _ => ⟨error, rfl⟩
      · simp only [hpolled, bind, Except.bind]
        -- a run that is gone is gone in a later round, and it is still waited for
        have hlater : ∀ id later, WaitsFor groups id → round ≤ later → polls later id = none →
            PolledFrom parsed polls cancelled id round later →
            round < later ∧ WaitsFor polled id ∧ cancelled round = false ∧
              round * parsed.pollIntervalSeconds.1 < parsed.waitSeconds.1 := by
          intro id later hwaits hround hgone hbefore
          have hlt : round < later := by
            rcases Nat.eq_or_lt_of_le hround with rfl | hlt
            · exact (hfound id hwaits hgone).elim
            · exact hlt
          obtain ⟨hunfinished, hcancelled, htime⟩ := hbefore round le_rfl hlt
          exact ⟨hlt, (hafter id).mpr ⟨hwaits, hunfinished⟩, hcancelled, htime⟩
        by_cases hopen : polled.any Group.isPending = true
        · simp only [hopen, not_true_eq_false, if_false]
          cases hcancelled : cancelled round with
          | true =>
            refine ⟨?_, fun ⟨_, h⟩ => (nomatch h), ?_⟩
            · rintro groups' hok
              cases hok
              exact (rejectPending_identity (callerCancelled waited) polled fun _ => rfl).trans
                hidentity
            · rintro ⟨id, later, hwaits, hround, hgone, hbefore⟩
              obtain ⟨-, -, hnot, -⟩ := hlater id later hwaits hround hgone hbefore
              rw [hcancelled] at hnot
              cases hnot
          | false =>
            simp only [Bool.false_eq_true, if_false]
            by_cases htime : parsed.waitSeconds.1 ≤ waited
            · simp only [dif_pos htime]
              refine ⟨?_, fun ⟨_, h⟩ => (nomatch h), ?_⟩
              · rintro groups' hok
                cases hok
                exact (rejectPending_identity (timedOut waited) polled fun _ => rfl).trans hidentity
              · rintro ⟨id, later, hwaits, hround, hgone, hbefore⟩
                obtain ⟨-, -, -, hleft⟩ := hlater id later hwaits hround hgone hbefore
                omega
            · simp only [dif_neg htime]
              have hpositive := parsed.pollIntervalSeconds.2.1
              have hround : round * parsed.pollIntervalSeconds.1 = waited := by omega
              have hnext : waited + min parsed.pollIntervalSeconds.1
                  (parsed.waitSeconds.1 - waited) =
                  min ((round + 1) * parsed.pollIntervalSeconds.1) parsed.waitSeconds.1 := by
                rw [Nat.add_mul, Nat.one_mul]
                omega
              obtain ⟨hok, herror⟩ := ih _ (by omega) (round + 1) _ polled hnext rfl
              refine ⟨fun groups' h => (hok groups' h).trans hidentity, ?_⟩
              rw [herror]
              constructor
              · rintro ⟨id, later, hwaits, hlt, hgone, hbefore⟩
                obtain ⟨hwaits, hunfinished⟩ := (hafter id).mp hwaits
                exact ⟨id, later, hwaits, by omega, hgone,
                  hbefore.next hunfinished hcancelled (by omega)⟩
              · rintro ⟨id, later, hwaits, hle, hgone, hbefore⟩
                obtain ⟨hlt, hwaits, -, -⟩ := hlater id later hwaits hle hgone hbefore
                exact ⟨id, later, hwaits, hlt, hgone,
                  fun before hround hlt => hbefore before (by omega) hlt⟩
        · simp only [hopen]
          refine ⟨?_, fun ⟨_, h⟩ => (nomatch h), ?_⟩
          · rintro groups' hok
            cases hok
            exact hidentity
          · rintro ⟨id, later, hwaits, hround, hgone, hbefore⟩
            obtain ⟨-, hwaits, -⟩ := hlater id later hwaits hround hgone hbefore
            exact (hopen (any_of_waitsFor hwaits)).elim
    · rw [if_neg hany]
      refine ⟨?_, fun ⟨_, h⟩ => (nomatch h), ?_⟩
      · rintro groups' hok
        cases hok
        rfl
      · rintro ⟨id, later, hwaits, -⟩
        exact (hany (any_of_waitsFor hwaits)).elim

end Waiting

section Routing

variable {context : WorkflowContext} {nodeId : String} {eligible noIdentity : Dict DeviceContext}

structure Divided (devices eligible noIdentity : Dict DeviceContext) : Prop where
  subset : ∀ key ∈ eligible.keys, key ∈ devices.keys
  apart : ∀ key ∈ devices.keys, key ∈ eligible.keys ↔ key ∉ noIdentity.keys

theorem splitByIdentity_divided :
    Divided context.devices (splitByIdentity names parsed context nodeId).1
      (splitByIdentity names parsed context nodeId).2.2 := by
  unfold splitByIdentity
  split
  · exact ⟨fun _ h => h, fun key hkey => ⟨fun _ h => (by cases h), fun _ => hkey⟩⟩
  · constructor
    · intro key hkey
      exact (Dict.mem_keys_restrict.mp hkey).2
    · intro key hkey
      rw [Dict.mem_keys_restrict, Dict.mem_keys_mapValues, Dict.mem_keys_restrict]
      simp [hkey]

variable {groups : List Group}

theorem handed_keys {devices : Dict DeviceContext} (hdivided : Divided devices eligible noIdentity)
    (hkeys : groups.flatMap Group.deviceKeys = eligible.keys) :
    (handed devices groups).map (fun entry => entry.2.1) = eligible.keys := by
  have hall : ∀ group ∈ groups, ∀ key ∈ group.deviceKeys, key ∈ devices.keys := by
    intro group hgroup key hkey
    apply hdivided.subset
    rw [← hkeys]
    exact List.mem_flatMap.mpr ⟨group, hgroup, hkey⟩
  rw [← hkeys, handed, List.map_flatMap]
  apply List.flatMap_congr
  intro group hgroup
  have hgroup := hall group hgroup
  generalize group.deviceKeys = keys at hgroup
  induction keys with
  | nil => rfl
  | cons key keys ih =>
    obtain ⟨device, hdevice⟩ :=
      Option.isSome_iff_exists.mp (Dict.mem_keys_iff.mp (hgroup key List.mem_cons_self))
    rw [List.filterMap_cons, hdevice]
    simp only [Option.map_some, List.map_cons]
    rw [ih fun key hkey => hgroup key (List.mem_cons_of_mem _ hkey)]

theorem exitsOf_assemble (key : String) :
    (key ∈ (passedDevices parsed context.devices groups).keys →
      key ∉ (failedDevices parsed context.devices groups noIdentity nodeId).keys →
      exitsOf key (assemble parsed context groups noIdentity nodeId) = ["success"]) ∧
    (key ∉ (passedDevices parsed context.devices groups).keys →
      key ∈ (failedDevices parsed context.devices groups noIdentity nodeId).keys →
      exitsOf key (assemble parsed context groups noIdentity nodeId) = ["failure"]) := by
  rw [assemble]
  generalize passedDevices parsed context.devices groups = ok
  generalize failedDevices parsed context.devices groups noIdentity nodeId = failed
  have hempty : ∀ d : Dict DeviceContext, key ∈ d.keys → d.isEmpty = false := by
    intro d hkey
    cases hd : d.isEmpty with
    | false => rfl
    | true =>
      have hnone := Dict.isEmpty_iff.mp hd key
      rw [Dict.mem_keys_iff, hnone] at hkey
      cases hkey
  constructor
  · intro hok hfailed
    cases hd : failed.isEmpty <;> simp [exitsOf, hempty ok hok, hok, hfailed]
  · intro hok hfailed
    cases hd : ok.isEmpty <;> simp [exitsOf, hempty failed hfailed, hok, hfailed]

theorem handed_inj {devices : Dict DeviceContext} (hdivided : Divided devices eligible noIdentity)
    (hkeys : groups.flatMap Group.deviceKeys = eligible.keys)
    {entry entry' : Group × String × DeviceContext} (hentry : entry ∈ handed devices groups)
    (hentry' : entry' ∈ handed devices groups) (h : entry.2.1 = entry'.2.1) : entry = entry' := by
  have hnodup : ((handed devices groups).map fun entry => entry.2.1).Nodup := by
    rw [handed_keys hdivided hkeys]
    exact eligible.keys_nodup
  exact List.inj_on_of_nodup_map hnodup hentry hentry' h

theorem mem_passedDevices {devices : Dict DeviceContext} {key : String} :
    key ∈ (passedDevices parsed devices groups).keys ↔
      ∃ entry ∈ handed devices groups, entry.1.passes = true ∧ entry.2.1 = key := by
  rw [passedDevices, Dict.mem_keys_ofPairs, List.map_map]
  simp only [List.mem_map, List.mem_filter, Function.comp_apply, and_assoc]

theorem mem_failedDevices {devices : Dict DeviceContext} {key : String} :
    key ∈ (failedDevices parsed devices groups noIdentity nodeId).keys ↔
      key ∈ noIdentity.keys ∨
        ∃ entry ∈ handed devices groups, entry.1.passes = false ∧ entry.2.1 = key := by
  rw [failedDevices, Dict.mem_keys_update, Dict.mem_keys_ofPairs, List.map_map, or_comm]
  simp only [List.mem_map, List.mem_filter, Function.comp_apply, and_assoc, Bool.not_eq_true']

/-- Every device leaves by one outcome. -/
theorem assemble_routes (hdivided : Divided context.devices eligible noIdentity)
    (hkeys : groups.flatMap Group.deviceKeys = eligible.keys) {key : String}
    (hkey : key ∈ context.devices.keys) :
    exitsOf key (assemble parsed context groups noIdentity nodeId) = ["success"] ∨
      exitsOf key (assemble parsed context groups noIdentity nodeId) = ["failure"] := by
  obtain ⟨hsuccess, hfailure⟩ := @exitsOf_assemble F parsed context nodeId noIdentity groups key
  rw [mem_passedDevices, mem_failedDevices] at hsuccess hfailure
  by_cases heligible : key ∈ eligible.keys
  · have hnot := (hdivided.apart key hkey).mp heligible
    have hmem := heligible
    rw [← handed_keys hdivided hkeys] at hmem
    obtain ⟨entry, hentry, rfl⟩ := List.mem_map.mp hmem
    cases hpasses : entry.1.passes with
    | true =>
      left
      apply hsuccess ⟨entry, hentry, hpasses, rfl⟩
      rintro (h | ⟨entry', hentry', hfails, hsame⟩)
      · exact hnot h
      · obtain rfl := handed_inj hdivided hkeys hentry' hentry hsame
        rw [hpasses] at hfails
        cases hfails
    | false =>
      right
      refine hfailure ?_ (.inr ⟨entry, hentry, hpasses, rfl⟩)
      rintro ⟨entry', hentry', hpasses', hsame⟩
      obtain rfl := handed_inj hdivided hkeys hentry' hentry hsame
      rw [hpasses] at hpasses'
      cases hpasses'
  · right
    have hnone : key ∈ noIdentity.keys := by
      by_contra h
      exact heligible ((hdivided.apart key hkey).mpr h)
    refine hfailure ?_ (.inl hnone)
    rintro ⟨entry, hentry, -, rfl⟩
    apply heligible
    rw [← handed_keys hdivided hkeys]
    exact List.mem_map_of_mem hentry

theorem recordedRun_withBag {group : Group} {id : ℤ} (hid : group.runId = some id)
    (device : DeviceContext) :
    recordedRun parsed.bagName (withBag parsed group device) = some (.int id) := by
  rw [withBag, hid]
  simp [recordedRun, Dict.get?_ofPairs, Dict.lookup_pair_cons]

theorem get?_ofPairs_handed {devices : Dict DeviceContext}
    (hdivided : Divided devices eligible noIdentity)
    (hkeys : groups.flatMap Group.deviceKeys = eligible.keys)
    {entry : Group × String × DeviceContext} {p : Group × String × DeviceContext → Bool}
    (hentry : entry ∈ handed devices groups) (hp : p entry = true)
    (f : Group × String × DeviceContext → DeviceContext) :
    (Dict.ofPairs (((handed devices groups).filter p).map fun entry =>
      (entry.2.1, f entry))).get? entry.2.1 = some (f entry) := by
  apply Dict.get?_ofPairs_of_mem
  · rw [List.map_map]
    have hnodup : ((handed devices groups).map fun entry => entry.2.1).Nodup := by
      rw [handed_keys hdivided hkeys]
      exact eligible.keys_nodup
    exact hnodup.sublist (List.filter_sublist.map _)
  · exact List.mem_map.mpr ⟨entry, List.mem_filter.mpr ⟨hentry, hp⟩, rfl⟩

theorem isEmpty_of_get? {d : Dict DeviceContext} {key : String} {device : DeviceContext}
    (h : d.get? key = some device) : d.isEmpty = false := by
  cases hd : d.isEmpty with
  | false => rfl
  | true =>
    rw [Dict.isEmpty_iff.mp hd key] at h
    cases h

/-- The run of a group is in the bag of each of its devices. -/
theorem assemble_records (hdivided : Divided context.devices eligible noIdentity)
    (hkeys : groups.flatMap Group.deviceKeys = eligible.keys) {group : Group}
    (hgroup : group ∈ groups) {id : ℤ} (hid : group.runId = some id) {key : String}
    (hkey : key ∈ group.deviceKeys) :
    ∃ outcome ∈ assemble parsed context groups noIdentity nodeId, ∃ device,
      outcome.context.devices.get? key = some device ∧
        recordedRun parsed.bagName device = some (.int id) := by
  have hdevice : key ∈ context.devices.keys := by
    apply hdivided.subset
    rw [← hkeys]
    exact List.mem_flatMap.mpr ⟨group, hgroup, hkey⟩
  obtain ⟨device, hdevice⟩ := Option.isSome_iff_exists.mp (Dict.mem_keys_iff.mp hdevice)
  have hentry : (group, key, device) ∈ handed context.devices groups := by
    refine List.mem_flatMap.mpr ⟨group, hgroup, List.mem_filterMap.mpr ⟨key, hkey, ?_⟩⟩
    rw [hdevice]
    rfl
  rw [assemble]
  cases hpasses : group.passes with
  | true =>
    have hget : (passedDevices parsed context.devices groups).get? key =
        some (withBag parsed group device) :=
      get?_ofPairs_handed hdivided hkeys hentry hpasses fun entry =>
        withBag parsed entry.1 entry.2.2
    simp only [isEmpty_of_get? hget]
    exact ⟨_, List.mem_append_left _ (by simp; rfl), _, hget, recordedRun_withBag hid device⟩
  | false =>
    have hget : (failedDevices parsed context.devices groups noIdentity nodeId).get? key =
        some (markDeviceFailed (withBag parsed group device) nodeId "start-workflow" group.code
          group.message) := by
      have hfails : (!group.passes) = true := by simp [hpasses]
      have hrejected := @get?_ofPairs_handed eligible noIdentity groups context.devices hdivided
        hkeys (group, key, device) (fun entry => !entry.1.passes) hentry hfails
        fun entry => markDeviceFailed (withBag parsed entry.1 entry.2.2) nodeId "start-workflow"
          entry.1.code entry.1.message
      rw [failedDevices, Dict.get?_update, hrejected]
      rfl
    simp only [isEmpty_of_get? hget]
    refine ⟨_, List.mem_append_right _ (by simp; rfl), _, hget, ?_⟩
    exact recordedRun_withBag hid device

end Routing

section Executions

variable {config : List (String × JsonValue (Number F))} {context : WorkflowContext}
  {nodeId : String} {answers : Answers} {eligible noIdentity : Dict DeviceContext}

theorem accounted_of_ok {bagName : String} {started : List (StartedRun F)} {groups : List Group}
    (hdivided : Divided context.devices eligible noIdentity)
    (hkeys : groups.flatMap Group.deviceKeys = eligible.keys) (hbag : parsed.bagName = bagName)
    (hstarted : ∀ run ∈ started,
      (run.deviceKeys, some run.runId) ∈ groups.map Group.identity) :
    Accounted bagName context.devices
      ⟨started, .ok (assemble parsed context groups noIdentity nodeId)⟩ := by
  subst hbag
  constructor
  · intro run hrun
    obtain ⟨group, hgroup, hidentity⟩ := List.mem_map.mp (hstarted run hrun)
    obtain ⟨hdevices, hid⟩ := Prod.mk.inj hidentity
    refine ⟨_, rfl, ?_⟩
    intro key hkey
    exact assemble_records hdivided hkeys hgroup hid (by rwa [hdevices])
  · rintro outcomes hok key hkey
    cases hok
    exact assemble_routes hdivided hkeys hkey

theorem accounted_error_iff {bagName : String} {devices : Dict DeviceContext}
    {started : List (StartedRun F)} {error : StepError} :
    Accounted bagName devices ⟨started, .error error⟩ ↔ started = [] := by
  constructor
  · intro h
    cases started with
    | nil => rfl
    | cons run started =>
      obtain ⟨outcomes, hok, -⟩ := h.recorded run List.mem_cons_self
      cases hok
  · rintro rfl
    constructor
    · intro run hrun
      cases hrun
    · intro outcomes hok
      cases hok

theorem first_isRun {starts : ℕ → StartAnswer} {call : ℕ} (hruns : ∀ i < call, (starts i).isRun)
    (hcall : 0 < call ∨ (starts call).isRun) : (starts 0).isRun := by
  rcases Nat.eq_zero_or_pos call with rfl | hpos
  · exact hcall.resolve_left (lt_irrefl 0)
  · exact hruns 0 hpos

theorem isRun_of_losesRuns {calls : ℕ} (h : LosesRuns parsed answers calls) :
    (answers.starts 0).isRun := by
  rcases h.2 with ⟨call, -, hpos, -, hruns⟩ | ⟨-, call, -, id, round, hruns, hrun, -⟩
  · exact first_isRun hruns (.inl hpos)
  · exact first_isRun hruns (.inr (by rw [hrun]; trivial))

/-- What the starts and the wait come to: groups with the devices and the runs that were started,
or an exception that loses the runs. -/
theorem startAndWait_cases {groups : List Group} (hfresh : ∀ group ∈ groups, group.Fresh) :
    (∃ started groups', startAndWait parsed answers groups = (started, .ok groups') ∧
      groups'.map Group.deviceKeys = groups.map Group.deviceKeys ∧
      (∀ run ∈ started, (run.deviceKeys, some run.runId) ∈ groups'.map Group.identity) ∧
      ¬ LosesRuns parsed answers groups.length) ∨
    (∃ started error, startAndWait parsed answers groups = (started, .error error) ∧
      (started = [] ↔ ¬ LosesRuns parsed answers groups.length)) := by
  rw [startAndWait]
  cases htarget : answers.target with
  | error message =>
    right
    refine ⟨[], _, rfl, fun _ => ?_, fun _ => rfl⟩
    rintro ⟨⟨readers, hok⟩, -⟩
    rw [htarget] at hok
    cases hok
  | ok readers =>
    rcases @startGroups_cases F parsed answers.starts 0 groups with
      ⟨groups', hok, hstarted⟩ | ⟨error, j, herror, hj, hrefuses, hruns, hnil⟩
    · have hruns := startGroups_runs hok
      have hlate : ¬ RefusedLate answers.starts groups.length := by
        rintro ⟨call, hcall, -, hrefuses, hearlier⟩
        exact hstarted.not_refused (j := call) hcall (by simpa using hearlier)
          (by simpa using hrefuses)
      have hspec := @waitForGroups_spec F parsed answers.polls answers.cancelled readers 0 0 groups'
        (by simp)
      have hgone : (∃ error, waitForGroups parsed answers.polls answers.cancelled readers 0 0
          groups' = .error error) ↔ GoneWhileWaiting parsed answers groups.length := by
        rw [hspec.2]
        constructor
        · rintro ⟨id, round, hwaits, -, hpoll, hpolled⟩
          obtain ⟨call, hcall, hearlier, hrun⟩ := (hstarted.pending_iff hfresh id).mp hwaits
          exact ⟨call, hcall, id, round, by simpa using hearlier, by simpa using hrun,
            fun before hbefore => hpolled before (Nat.zero_le _) hbefore, hpoll⟩
        · rintro ⟨call, hcall, id, round, hearlier, hrun, hpolled, hpoll⟩
          refine ⟨id, round, ?_, Nat.zero_le _, hpoll, fun before _ => hpolled before⟩
          exact (hstarted.pending_iff hfresh id).mpr ⟨call, hcall, by simpa using hearlier,
            by simpa using hrun⟩
      cases hwait : parsed.wait with
      | false =>
        left
        refine ⟨_, groups', by simp [hok, bind, Except.bind]; rfl, hstarted.keys, hruns, ?_⟩
        rintro ⟨-, h | ⟨h, -⟩⟩
        · exact hlate h
        · rw [hwait] at h
          cases h
      | true =>
        cases hdone : waitForGroups parsed answers.polls answers.cancelled readers 0 0 groups' with
        | ok groups'' =>
          left
          have hidentity := hspec.1 groups'' hdone
          have hkeys : groups''.map Group.deviceKeys = groups'.map Group.deviceKeys := by
            have hfst := congrArg (List.map Prod.fst) hidentity
            simpa [Group.identity, Function.comp_def] using hfst
          refine ⟨(startGroups parsed answers.starts 0 false groups).1, groups'',
            by simp [hok, hdone, bind, Except.bind], hkeys.trans hstarted.keys, ?_, ?_⟩
          · intro run hrun
            rw [hidentity]
            exact hruns run hrun
          · rintro ⟨-, h | ⟨-, h⟩⟩
            · exact hlate h
            · obtain ⟨error, herror⟩ := hgone.mpr h
              rw [hdone] at herror
              cases herror
        | error error =>
          right
          have hloses : LosesRuns parsed answers groups.length :=
            ⟨⟨readers, htarget⟩, .inr ⟨hwait, hgone.mp ⟨error, hdone⟩⟩⟩
          have hgroups : groups ≠ [] := by
            rintro rfl
            obtain ⟨call, hcall, -⟩ := hgone.mp ⟨error, hdone⟩
            cases hcall
          refine ⟨(startGroups parsed answers.starts 0 false groups).1, error,
            by simp [hok, hdone, bind, Except.bind], ?_⟩
          constructor
          · intro hnil
            exact (startGroups_ne_nil hgroups (isRun_of_losesRuns hloses) hnil).elim
          · exact fun h => (h hloses).elim
    · right
      rw [Nat.zero_add] at hrefuses
      simp only [Nat.zero_add] at hruns
      refine ⟨_, error, by simp [herror, bind, Except.bind], hnil.trans ?_⟩
      constructor
      · rintro rfl hloses
        exact StartAnswer.not_refuses (isRun_of_losesRuns hloses) hrefuses
      · intro hkept
        by_contra hpos
        exact hkept ⟨⟨readers, htarget⟩, .inl ⟨j, hj, Nat.pos_of_ne_zero hpos, hrefuses, hruns⟩⟩

theorem setsOut_iff (hparse : parseConfig floats config = .ok parsed)
    (parsed' : ParsedConfig F) (calls : ℕ) :
    SetsOut floats names config context nodeId parsed' calls ↔
      parsed' = parsed ∧ context.devices.isEmpty = false ∧
        (splitByIdentity names parsed context nodeId).1.isEmpty = false ∧
        calls = (buildGroups parsed (splitByIdentity names parsed context nodeId).1
          (splitByIdentity names parsed context nodeId).2.1).length ∧
        calls ≤ parsed.maxRuns.1 := by
  constructor
  · rintro ⟨hok, hrest⟩
    rw [hparse] at hok
    obtain rfl := Except.ok.inj hok
    exact ⟨rfl, hrest⟩
  · rintro ⟨rfl, hrest⟩
    exact ⟨hparse, hrest⟩

theorem bagName_of_parseConfig (h : parseConfig floats config = .ok parsed) :
    parsed.bagName = bagNameOf floats config := by
  unfold parseConfig at h
  simp only [bind_eq_ok] at h
  obtain ⟨workflowId, -, runInputs, -, h⟩ := h
  split at h
  · cases h
  · split at h
    · cases h
    · obtain ⟨flags, -, h⟩ := bind_eq_ok.mp h
      cases h
      rfl

/-- The runs of an execution are accounted for unless a start is refused after another one, or a
run is gone while the step waits for it. -/
theorem execute_accounted_iff (floats : Floats F) (names : DriverNames)
    (config : List (String × JsonValue (Number F))) (context : WorkflowContext) (nodeId : String)
    (answers : Answers) :
    Accounted (bagNameOf floats config) context.devices
        (execute floats names config context nodeId answers) ↔
      ∀ parsed calls, SetsOut floats names config context nodeId parsed calls →
        ¬ LosesRuns parsed answers calls := by
  rw [execute]
  cases hparse : parseConfig floats config with
  | error message =>
    refine iff_of_true (accounted_error_iff.mpr rfl) ?_
    rintro parsed calls ⟨hok, -⟩
    rw [hparse] at hok
    cases hok
  | ok parsed =>
    have hbag : parsed.bagName = bagNameOf floats config := bagName_of_parseConfig hparse
    have hdivided := @splitByIdentity_divided F names parsed context nodeId
    have hsets := @setsOut_iff F floats names parsed config context nodeId hparse
    simp only
    generalize splitByIdentity names parsed context nodeId = split at hdivided hsets ⊢
    obtain ⟨eligible, lines, noIdentity⟩ := split
    simp only at hdivided hsets ⊢
    by_cases hdevices : context.devices.isEmpty = true
    · rw [if_pos hdevices]
      refine iff_of_true ⟨by rintro message ⟨⟩, ?_⟩ ?_
      · intro outcomes _ key hkey
        rw [Dict.mem_keys_iff, Dict.isEmpty_iff.mp hdevices key] at hkey
        cases hkey
      · intro parsed' calls hout
        obtain ⟨-, hsome, -⟩ := (hsets parsed' calls).mp hout
        rw [hdevices] at hsome
        cases hsome
    · rw [if_neg hdevices]
      by_cases heligible : eligible.isEmpty = true
      · rw [if_pos heligible]
        have hkeys : ([] : List Group).flatMap Group.deviceKeys = eligible.keys := by
          rw [Dict.keys, List.isEmpty_iff.mp heligible]
          rfl
        refine iff_of_true (accounted_of_ok hdivided hkeys hbag (by rintro _ ⟨⟩)) ?_
        intro parsed' calls hout
        obtain ⟨-, -, hsome, -⟩ := (hsets parsed' calls).mp hout
        rw [heligible] at hsome
        cases hsome
      · rw [if_neg heligible]
        by_cases hmany : parsed.maxRuns.1 < (buildGroups parsed eligible lines).length
        · rw [if_pos hmany]
          refine iff_of_true (accounted_error_iff.mpr rfl) ?_
          intro parsed' calls hout
          obtain ⟨-, -, -, rfl, hle⟩ := (hsets parsed' calls).mp hout
          omega
        · rw [if_neg hmany]
          have hright : (∀ parsed' calls, SetsOut floats names config context nodeId parsed' calls →
              ¬ LosesRuns parsed' answers calls) ↔
              ¬ LosesRuns parsed answers (buildGroups parsed eligible lines).length := by
            constructor
            · intro h
              apply h parsed
              exact (hsets parsed _).mpr
                ⟨rfl, by simpa using hdevices, by simpa using heligible, rfl, by omega⟩
            · intro h parsed' calls hout
              obtain ⟨rfl, -, -, rfl, -⟩ := (hsets parsed' calls).mp hout
              exact h
          rw [hright]
          rcases @startAndWait_cases F parsed answers _ (@buildGroups_fresh F parsed eligible lines)
            with ⟨started, groups, hdone, hkeys, hstarted, hkept⟩ | ⟨started, error, hdone, hlost⟩
          · rw [hdone]
            refine iff_of_true (accounted_of_ok hdivided ?_ hbag hstarted) hkept
            rw [← @buildGroups_keys F parsed eligible lines, List.flatMap_def, List.flatMap_def,
              hkeys]
          · rw [hdone]
            exact accounted_error_iff.trans hlost

def noDrivers : DriverNames := ⟨fun _ => false, id⟩

def onePerDevice : List (String × JsonValue (Number Empty)) :=
  [("workflow_id", .num (.int 3)), ("run_mode", .str "per_device"),
    ("devices_input", .str "devices"), ("wait", .bool false)]

def twoDevices : WorkflowContext :=
  { runId := "1", workflowId := "2"
    devices := .ofPairs [("a", { id := "a", name := "sw1", hostname := "sw1" }),
      ("b", { id := "b", name := "sw2", hostname := "sw2" })] }

def refusedAfterOne : Answers where
  target := .ok ["g1"]
  starts call := if call = 0 then .run 7 else .domainError "The calling run is not active"
  polls _ _ := none
  cancelled _ := false

/-- Run 7 was started for the first device, and no outcome tells of it. -/
theorem refusedAfterOne_loses :
    ¬ Accounted "child_run" twoDevices.devices
      (execute noFloats noDrivers onePerDevice twoDevices "n1" refusedAfterOne) := by
  have hlost : (execute noFloats noDrivers onePerDevice twoDevices "n1"
        refusedAfterOne).started.map (fun run => (run.deviceKeys, run.runId)) = [(["a"], 7)] ∧
      (execute noFloats noDrivers onePerDevice twoDevices "n1"
        refusedAfterOne).result.isOk = false := by decide +kernel
  intro haccounted
  obtain ⟨hstarted, hraised⟩ := hlost
  have hmem : (["a"], (7 : ℤ)) ∈ (execute noFloats noDrivers onePerDevice twoDevices "n1"
      refusedAfterOne).started.map fun run => (run.deviceKeys, run.runId) := by
    rw [hstarted]
    exact List.mem_singleton_self _
  obtain ⟨run, hrun, -⟩ := List.exists_of_mem_map hmem
  obtain ⟨outcomes, hok, -⟩ := haccounted.recorded run hrun
  rw [hok] at hraised
  cases hraised

end Executions

end Manus.Children
