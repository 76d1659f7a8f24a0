import Manus.Deploy.ConfigureReplace
import Manus.Lib.Except

/-! # When a replaced configuration is reported

A device is vouched for if a diff that the shim returned showed no change, or if the shim
returned both commands of the replace without an error. An entry that is missing from an
answer is read as an output without an error, so a device can leave by `success` with
nothing that vouches for it; and what raises for one device ends the step for all.
-/

namespace Manus.ConfigureReplace

variable (settings : Settings) (env : Environment)

section Vouching

def ShowsNoChange (answer : JobAnswer) : Prop :=
  ∃ entries raw, runShimJob answer = .ok entries ∧
    errorOf entries settings.diffCommand = none ∧
    rawOf entries settings.diffCommand = some raw ∧ diffHasChanges raw = false

/-- The shim reported no error for the two commands, and no missing rollback. -/
def Unrefused (entries : Dict CommandEntry) : Prop :=
  errorOf entries settings.replaceCommand = none ∧ errorOf entries confirmCommand = none ∧
    hasNoPendingRollback (rawOf entries confirmCommand) = false

def Returned (entries : Dict CommandEntry) : Prop :=
  (entries.get? settings.replaceCommand).isSome = true ∧
    (entries.get? confirmCommand).isSome = true

def ReadsAs (changed : Bool) (answer : JobAnswer) : Prop :=
  ∃ text, runDiff settings.diffCommand answer = .ok text ∧ diffHasChanges text = changed

/-- The replace is sent: the diff before gives no reason to leave the device as it is. -/
def Replaces (deviceId : String) : Prop :=
  ¬ (settings.skipIfNoPendingChanges = true ∧
    ReadsAs settings false (env.shim deviceId).preDiff)

/-- What lets a device leave by `success`. -/
def Vouched (deviceId : String) : Prop :=
  (settings.skipIfNoPendingChanges = true ∧
      ShowsNoChange settings (env.shim deviceId).preDiff) ∨
    (Replaces settings env deviceId ∧
      (∃ entries, runShimJob (env.shim deviceId).replace = .ok entries ∧
        Returned settings entries ∧ Unrefused settings entries) ∧
      (settings.verifyDiffAfterReplace = true →
        ShowsNoChange settings (env.shim deviceId).postDiff))

def devicesOf (outcomes : List StepOutcome) (name : String) : List String :=
  (outcomes.filter fun outcome => outcome.name = name).flatMap fun outcome =>
    outcome.context.devices.keys

/-- Whoever is reported as done is vouched for, and every device is reported once. -/
def Reports (context : WorkflowContext) : Prop :=
  ∃ outcomes, execute settings env context = .ok outcomes ∧
    (∀ deviceId ∈ devicesOf outcomes "success", Vouched settings env deviceId) ∧
    ∀ deviceId ∈ context.devices.keys,
      Xor (deviceId ∈ devicesOf outcomes "success") (deviceId ∈ devicesOf outcomes "failure")

end Vouching

section Condition

def Unseen (answer : JobAnswer) : Prop :=
  ∀ entries, runShimJob answer = .ok entries → rawOf entries settings.diffCommand = none

def Stored (deviceId kind : String) (answer : JobAnswer) : Prop :=
  ∀ text, runDiff settings.diffCommand answer = .ok text → diffHasChanges text = true →
    ∃ ref, env.store deviceId kind text = .ok ref

/-- The answers for a device that is reached do not mislead the step: nothing raises, and what
reads as success is there. -/
structure Sound (deviceId : String) : Prop where
  /-- A diff that lets the replace be skipped was returned. -/
  pre : settings.skipIfNoPendingChanges = true →
    ReadsAs settings false (env.shim deviceId).preDiff →
    ¬ Unseen settings (env.shim deviceId).preDiff
  preStored : settings.skipIfNoPendingChanges = true →
    Stored settings env deviceId "configure_replace_pre_diff" (env.shim deviceId).preDiff
  /-- A replace without errors has both its commands in the answer, and a diff without changes
  after it was returned. -/
  replace : ∀ entries, Replaces settings env deviceId →
    runShimJob (env.shim deviceId).replace = .ok entries → Unrefused settings entries →
    (settings.verifyDiffAfterReplace = true →
      ReadsAs settings false (env.shim deviceId).postDiff) →
    Returned settings entries ∧ (settings.verifyDiffAfterReplace = true →
      ¬ Unseen settings (env.shim deviceId).postDiff)
  postStored : ∀ entries, Replaces settings env deviceId →
    runShimJob (env.shim deviceId).replace = .ok entries → Unrefused settings entries →
    settings.verifyDiffAfterReplace = true →
    Stored settings env deviceId "configure_replace_post_diff" (env.shim deviceId).postDiff

/-- The password of a device can be unwrapped, and a device with a usable testbed gets sound
answers. -/
def Answered (deviceId : String) (device : DeviceContext) : Prop :=
  ∃ failed, prepareTarget env device = .ok failed ∧ (failed = none → Sound settings env deviceId)

/-- What follows the replace: a diff that still shows changes has to be stored, and what reads as
success has to be the case. -/
def Follows (deviceId : String) (success : Dict CommandEntry → Prop) : Prop :=
  ∀ entries, runShimJob (env.shim deviceId).replace = .ok entries →
    Unrefused settings entries →
    (settings.verifyDiffAfterReplace = true →
      Stored settings env deviceId "configure_replace_post_diff" (env.shim deviceId).postDiff) ∧
    ((settings.verifyDiffAfterReplace = true →
      ReadsAs settings false (env.shim deviceId).postDiff) → success entries)

end Condition

section Diffs

variable {settings env} {answer : JobAnswer} {deviceId : String} {device : DeviceContext}

theorem readsAs_of_showsNoChange (h : ShowsNoChange settings answer) :
    ReadsAs settings false answer := by
  obtain ⟨entries, raw, hjob, herror, hraw, hsame⟩ := h
  refine ⟨raw, ?_, hsame⟩
  simp only [runDiff, hjob, herror, hraw, rawText, Option.getD_some]

/-- What reads as a diff without changes is one, if it was returned. -/
theorem showsNoChange_iff :
    ShowsNoChange settings answer ↔ ReadsAs settings false answer ∧ ¬ Unseen settings answer := by
  constructor
  · intro h
    refine ⟨readsAs_of_showsNoChange h, fun hunseen => ?_⟩
    obtain ⟨entries, raw, hjob, -, hraw, -⟩ := h
    rw [hunseen entries hjob] at hraw
    cases hraw
  · rintro ⟨⟨text, hdiff, hsame⟩, hseen⟩
    unfold runDiff at hdiff
    split at hdiff
    · cases hdiff
    · next entries hjob =>
      split at hdiff
      · cases hdiff
      · next herror =>
        cases hdiff
        cases hraw : rawOf entries settings.diffCommand with
        | none =>
          exact absurd (fun entries' hjob' => by
            rw [hjob] at hjob'
            cases hjob'
            exact hraw) hseen
        | some raw =>
          rw [hraw] at hsame
          exact ⟨entries, raw, hjob, herror, hraw, hsame⟩

theorem replaceAndConfirm_eq_none : replaceAndConfirm settings env deviceId device = none ↔
    ∃ entries, runShimJob (env.shim deviceId).replace = .ok entries ∧
      Unrefused settings entries := by
  unfold replaceAndConfirm Unrefused
  split
  · next hjob => simp [hjob]
  · next entries hjob =>
    simp only [hjob, Except.ok.injEq, exists_eq_left']
    split
    · next herror => simp [herror]
    · next herror =>
      split
      · next hconfirm => simp [hconfirm]
      · next hconfirm => simp [herror, hconfirm]

@[simp] theorem failDevice_snd (code message : String) :
    (failDevice env device code message).2 = false := rfl

@[simp] theorem failReplace_snd (error : String) :
    (failReplace env device error).2 = false := by
  unfold failReplace
  split <;> rfl

theorem replaceAndConfirm_failed {result : DeviceResult}
    (h : replaceAndConfirm settings env deviceId device = some result) : result.2 = false := by
  unfold replaceAndConfirm at h
  split at h
  · cases h
    simp
  split at h
  · cases h
    simp
  split at h
  · cases h
    simp
  split at h
  · cases h
    simp
  · cases h

end Diffs

section Devices

variable {settings env} {deviceId : String} {device : DeviceContext} {V : Prop}

/-- The device is processed, and it is done only if something is the case. -/
def Ends (V : Prop) (result : Except String DeviceResult) : Prop :=
  ∃ r, result = .ok r ∧ (r.2 = true → V)

theorem ends_failed {r : DeviceResult} (h : r.2 = false) : Ends V (.ok r) :=
  ⟨r, rfl, fun hdone => by rw [h] at hdone; cases hdone⟩

theorem ends_done {r : DeviceResult} (h : r.2 = true) : Ends V (.ok r) ↔ V := by
  constructor
  · rintro ⟨_, ⟨⟩, hv⟩
    exact hv h
  · exact fun hv => ⟨r, rfl, fun _ => hv⟩

theorem not_ends_error {error : String} : ¬ Ends V (.error error) := by
  rintro ⟨_, ⟨⟩, -⟩

theorem ends_replaceAndVerify {pre : Option ArtifactRef} :
    Ends V (replaceAndVerify settings env deviceId device pre) ↔
      Follows settings env deviceId fun _ => V := by
  unfold replaceAndVerify Follows
  split
  · next failed hfailed =>
    constructor
    · rintro - entries hjob hpass
      rw [replaceAndConfirm_eq_none.mpr ⟨entries, hjob, hpass⟩] at hfailed
      cases hfailed
    · exact fun _ => ends_failed (replaceAndConfirm_failed hfailed)
  · next hnone =>
    obtain ⟨entries, hjob, hpass⟩ := replaceAndConfirm_eq_none.mp hnone
    have honly : ∀ P : Prop, (∀ entries, runShimJob (env.shim deviceId).replace = .ok entries →
        Unrefused settings entries → P) ↔ P :=
      fun P => ⟨fun h => h entries hjob hpass, fun h _ _ _ => h⟩
    rw [honly]
    split
    · next hverify =>
      simp only [hverify, forall_const]
      unfold verifyAfterReplace Stored ReadsAs
      cases hdiff : runDiff settings.diffCommand (env.shim deviceId).postDiff with
      | error error =>
        refine ⟨fun _ => ⟨nofun, nofun⟩, fun _ => ends_failed rfl⟩
      | ok text =>
        simp only [Except.ok.injEq, exists_eq_left', forall_eq']
        cases hchanges : diffHasChanges text with
        | false => simpa [bind, Except.bind, pure, Except.pure] using ends_done rfl
        | true =>
          cases env.store deviceId "configure_replace_post_diff" text with
          | error error => simpa [bind, Except.bind, Except.map] using not_ends_error
          | ok ref =>
            simpa [bind, Except.bind, Except.map, pure, Except.pure] using ends_failed rfl
    · next hverify => simp [hverify, ends_done, confirmedResult]

theorem vouched_of_replaces (h : Replaces settings env deviceId) :
    Vouched settings env deviceId ↔
      (∃ entries, runShimJob (env.shim deviceId).replace = .ok entries ∧
        Returned settings entries ∧ Unrefused settings entries) ∧
      (settings.verifyDiffAfterReplace = true →
        ShowsNoChange settings (env.shim deviceId).postDiff) := by
  constructor
  · rintro (⟨hskip, hsame⟩ | ⟨-, hv⟩)
    · exact absurd ⟨hskip, readsAs_of_showsNoChange hsame⟩ h
    · exact hv
  · exact fun hv => .inr ⟨h, hv⟩

theorem ends_replaceAndVerify_iff {pre : Option ArtifactRef}
    (h : Replaces settings env deviceId) :
    Ends (Vouched settings env deviceId) (replaceAndVerify settings env deviceId device pre) ↔
      Follows settings env deviceId fun entries =>
        Returned settings entries ∧ (settings.verifyDiffAfterReplace = true →
          ¬ Unseen settings (env.shim deviceId).postDiff) := by
  rw [ends_replaceAndVerify, vouched_of_replaces h]
  apply forall_congr'
  intro entries
  apply forall_congr'
  intro hjob
  apply forall_congr'
  intro hpass
  apply and_congr_right
  rintro -
  apply forall_congr'
  intro hsame
  constructor
  · rintro ⟨⟨entries', hjob', hreturned, -⟩, hshown⟩
    rw [hjob] at hjob'
    cases hjob'
    exact ⟨hreturned, fun hverify => (showsNoChange_iff.mp (hshown hverify)).2⟩
  · rintro ⟨hreturned, hseen⟩
    exact ⟨⟨entries, hjob, hreturned, hpass⟩,
      fun hverify => showsNoChange_iff.mpr ⟨hsame hverify, hseen hverify⟩⟩

theorem sound_of_replaces (h : Replaces settings env deviceId) :
    Sound settings env deviceId ↔
      (settings.skipIfNoPendingChanges = true →
        Stored settings env deviceId "configure_replace_pre_diff" (env.shim deviceId).preDiff) ∧
      Follows settings env deviceId fun entries =>
        Returned settings entries ∧ (settings.verifyDiffAfterReplace = true →
          ¬ Unseen settings (env.shim deviceId).postDiff) := by
  constructor
  · rintro ⟨-, hpre, hreplace, hpost⟩
    exact ⟨hpre, fun entries hjob hpass =>
      ⟨hpost entries h hjob hpass, hreplace entries h hjob hpass⟩⟩
  · rintro ⟨hpre, hrest⟩
    exact ⟨fun hskip hreads => absurd ⟨hskip, hreads⟩ h, hpre,
      fun entries _ hjob hpass => (hrest entries hjob hpass).2,
      fun entries _ hjob hpass => (hrest entries hjob hpass).1⟩

theorem sound_of_skips (hskip : settings.skipIfNoPendingChanges = true)
    (hreads : ReadsAs settings false (env.shim deviceId).preDiff) :
    Sound settings env deviceId ↔ ¬ Unseen settings (env.shim deviceId).preDiff := by
  have hstays : ¬ Replaces settings env deviceId := fun h => h ⟨hskip, hreads⟩
  constructor
  · exact fun h => h.pre hskip hreads
  · intro hseen
    refine ⟨fun _ _ => hseen, ?_, fun _ h => absurd h hstays, fun _ h => absurd h hstays⟩
    rintro - text hdiff hchanges
    obtain ⟨text', hdiff', hsame⟩ := hreads
    rw [hdiff] at hdiff'
    cases hdiff'
    rw [hsame] at hchanges
    cases hchanges

theorem vouched_of_skips (hskip : settings.skipIfNoPendingChanges = true)
    (hreads : ReadsAs settings false (env.shim deviceId).preDiff) :
    Vouched settings env deviceId ↔ ¬ Unseen settings (env.shim deviceId).preDiff := by
  constructor
  · rintro (⟨-, hsame⟩ | ⟨h, -⟩)
    · exact (showsNoChange_iff.mp hsame).2
    · exact absurd ⟨hskip, hreads⟩ h
  · exact fun hseen => .inl ⟨hskip, showsNoChange_iff.mpr ⟨hreads, hseen⟩⟩

theorem prepareTarget_failed {r : DeviceResult}
    (h : prepareTarget env device = .ok (some r)) : r.2 = false := by
  unfold prepareTarget at h
  split at h
  · cases h
    rfl
  dsimp only at h
  split at h
  · cases h
    rfl
  split at h
  · cases h
    rfl
  obtain ⟨password, -, h⟩ := bind_eq_ok.mp h
  split at h
  · cases h
    rfl
  · cases h
    rfl
  · cases h

/-- A device with a usable testbed ends as it should exactly if its answers are sound. -/
theorem ends_of_prepared (hprepared : prepareTarget env device = .ok none) :
    Ends (Vouched settings env deviceId) (processOneDevice settings env deviceId device) ↔
      Sound settings env deviceId := by
  unfold processOneDevice
  simp only [hprepared, bind, Except.bind, pure, Except.pure]
  split
  · next hskip =>
    unfold preReplaceDiff
    cases hdiff : runDiff settings.diffCommand (env.shim deviceId).preDiff with
    | error error =>
      have hreplaces : Replaces settings env deviceId := by
        rintro ⟨-, text, hdiff', -⟩
        rw [hdiff] at hdiff'
        cases hdiff'
      have hstored : Stored settings env deviceId "configure_replace_pre_diff"
          (env.shim deviceId).preDiff := by
        rintro text hdiff'
        rw [hdiff] at hdiff'
        cases hdiff'
      rw [sound_of_replaces hreplaces]
      exact (ends_replaceAndVerify_iff hreplaces).trans ⟨fun h => ⟨fun _ => hstored, h⟩, And.right⟩
    | ok text =>
      dsimp only
      cases hchanges : diffHasChanges text with
      | false =>
        have hreads : ReadsAs settings false (env.shim deviceId).preDiff := ⟨text, hdiff, hchanges⟩
        rw [sound_of_skips hskip hreads, ← vouched_of_skips hskip hreads]
        exact ends_done rfl
      | true =>
        have hreplaces : Replaces settings env deviceId := by
          rintro ⟨-, text', hdiff', hsame⟩
          rw [hdiff] at hdiff'
          cases hdiff'
          rw [hsame] at hchanges
          cases hchanges
        have hstored : Stored settings env deviceId "configure_replace_pre_diff"
            (env.shim deviceId).preDiff ↔
            ∃ ref, env.store deviceId "configure_replace_pre_diff" text = .ok ref := by
          constructor
          · exact fun h => h text hdiff hchanges
          · rintro h text' hdiff' -
            rw [hdiff] at hdiff'
            cases hdiff'
            exact h
        rw [sound_of_replaces hreplaces, hstored]
        cases hstore : env.store deviceId "configure_replace_pre_diff" text with
        | error error =>
          constructor
          · exact fun h => absurd h not_ends_error
          · rintro ⟨h, -⟩
            obtain ⟨ref, ⟨⟩⟩ := h hskip
        | ok ref =>
          have hrest : Ends (Vouched settings env deviceId)
              (replaceAndVerify settings env deviceId device (some ref)) ↔ _ :=
            ends_replaceAndVerify_iff hreplaces
          exact hrest.trans ⟨fun h => ⟨fun _ => ⟨ref, rfl⟩, h⟩, And.right⟩
  · next hskip =>
    have hreplaces : Replaces settings env deviceId := fun h => hskip h.1
    rw [sound_of_replaces hreplaces]
    exact (ends_replaceAndVerify_iff hreplaces).trans
      ⟨fun h => ⟨fun h' => absurd h' hskip, h⟩, And.right⟩

theorem ends_processOneDevice : Ends (Vouched settings env deviceId)
    (processOneDevice settings env deviceId device) ↔
      Answered settings env deviceId device := by
  cases hprepared : prepareTarget env device with
  | error error =>
    unfold Answered processOneDevice
    simp only [hprepared, bind, Except.bind]
    simpa using not_ends_error
  | ok failed =>
    cases failed with
    | none =>
      rw [ends_of_prepared hprepared, Answered]
      simp [hprepared]
    | some r =>
      unfold Answered processOneDevice
      simp only [hprepared, bind, Except.bind, pure, Except.pure]
      simpa using ends_failed (prepareTarget_failed hprepared)

end Devices

section Step

variable {settings env} {context : WorkflowContext}

theorem mem_keys_partition {results : List (String × DeviceResult)} {ok : Bool}
    {deviceId : String} :
    deviceId ∈ (partition results ok).keys ↔ ∃ r ∈ results, r.2.2 = ok ∧ r.1 = deviceId := by
  simp only [partition, Dict.mem_keys_ofPairs, List.mem_map, List.mem_filter, decide_eq_true_eq]
  constructor
  · rintro ⟨_, ⟨r, ⟨hr, hok⟩, rfl⟩, rfl⟩
    exact ⟨r, hr, hok, rfl⟩
  · rintro ⟨r, hr, hok, rfl⟩
    exact ⟨_, ⟨r, ⟨hr, hok⟩, rfl⟩, rfl⟩

def outcomesOf (context : WorkflowContext) (results : List (String × DeviceResult)) :
    List StepOutcome :=
  let success : StepOutcome := ⟨"success", { context with devices := partition results true }⟩
  if (partition results false).isEmpty then [success]
  else [success, ⟨"failure", { context with devices := partition results false }⟩]

theorem devicesOf_success {results : List (String × DeviceResult)} :
    devicesOf (outcomesOf context results) "success" = (partition results true).keys := by
  unfold outcomesOf
  split <;> simp [devicesOf]

def Results (settings : Settings) (env : Environment) (context : WorkflowContext)
    (results : List (String × DeviceResult)) : Prop :=
  context.devices.entries.mapM (fun entry => do
    return (entry.1, ← processOneDevice settings env entry.1 entry.2)) = .ok results

theorem Results.mem {results : List (String × DeviceResult)}
    (h : Results settings env context results) {r : String × DeviceResult} (hr : r ∈ results) :
    ∃ device, (r.1, device) ∈ context.devices.entries ∧
      processOneDevice settings env r.1 device = .ok r.2 := by
  obtain ⟨entry, hentry, hmapped⟩ := (mapM_eq_ok h).1 r hr
  obtain ⟨result, hresult, hpair⟩ := bind_eq_ok.mp hmapped
  cases hpair
  exact ⟨entry.2, hentry, hresult⟩

theorem Results.exists {results : List (String × DeviceResult)}
    (h : Results settings env context results) {entry : String × DeviceContext}
    (hentry : entry ∈ context.devices.entries) :
    ∃ result, (entry.1, result) ∈ results ∧
      processOneDevice settings env entry.1 entry.2 = .ok result := by
  obtain ⟨r, hr, hmapped⟩ := (mapM_eq_ok h).2 entry hentry
  obtain ⟨result, hresult, hpair⟩ := bind_eq_ok.mp hmapped
  cases hpair
  exact ⟨result, hr, hresult⟩

theorem Results.unique {results : List (String × DeviceResult)}
    (h : Results settings env context results) {r r' : String × DeviceResult} (hr : r ∈ results)
    (hr' : r' ∈ results) (hid : r.1 = r'.1) : r = r' := by
  obtain ⟨device, hentry, hresult⟩ := h.mem hr
  obtain ⟨device', hentry', hresult'⟩ := h.mem hr'
  have hsame := Dict.get?_eq_some_iff.mpr hentry
  rw [hid, Dict.get?_eq_some_iff.mpr hentry'] at hsame
  cases hsame
  rw [← hid, hresult] at hresult'
  exact Prod.ext hid (Except.ok.inj hresult')

theorem execute_eq_ok {outcomes : List StepOutcome} (hne : context.devices.isEmpty = false) :
    execute settings env context = .ok outcomes ↔
      ∃ results, Results settings env context results ∧ outcomesOf context results = outcomes := by
  unfold execute
  rw [if_neg (by simp [hne]), bind_eq_ok]
  apply exists_congr
  intro results
  apply and_congr_right
  rintro -
  dsimp only
  rw [← apply_ite pure]
  exact ⟨fun h => Except.ok.inj h, fun h => congrArg Except.ok h⟩

theorem Reports.answered (h : Reports settings env context) {entry : String × DeviceContext}
    (hentry : entry ∈ context.devices.entries) : Answered settings env entry.1 entry.2 := by
  have hempty : context.devices.isEmpty = false := by
    cases hnil : context.devices.entries with
    | nil =>
      rw [hnil] at hentry
      cases hentry
    | cons => simp [Dict.isEmpty, hnil]
  obtain ⟨outcomes, hrun, hvouched, -⟩ := h
  obtain ⟨results, h, rfl⟩ := (execute_eq_ok hempty).mp hrun
  obtain ⟨result, hr, hresult⟩ := h.exists hentry
  refine ends_processOneDevice.mp ⟨result, hresult, fun hdone => hvouched _ ?_⟩
  rw [devicesOf_success, mem_keys_partition]
  exact ⟨_, hr, hdone, rfl⟩

def oneDevice : WorkflowContext where
  runId := "run"
  workflowId := "workflow"
  devices := Dict.ofPairs [("d1", {
    id := "d1"
    name := "sw1"
    hostname := "sw1"
    attributeBags := Dict.ofPairs [("pyats_testbed", Dict.ofPairs
      [("pyats_source_id", .str "1"), ("password", .str "secret")])] })]

end Step

end Manus.ConfigureReplace
