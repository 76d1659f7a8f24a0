import Manus.ChangeRequests.Deploy

/-! # What a final status says

The moves of a deploying request, with the places where a dispatch can break off:
an exception before the handover is guarded, an update of the run that raises in
its turn, and a process that dies. A status is final from then on in every run.
That it tells what happened to the deploy run needs two conditions: a
reconciliation gives up only when the dispatch is over, and a request is put back
only when no run of it is active.
-/

namespace Manus.ChangeRequests

section Model

def finalStatuses : List Status := [.deployed, .failed, .rejected, .expired]

def undeployedStatuses : List Status := [.rejected, .expired, .failed]

namespace World

variable (w : World)

def Over (r : ℕ) : Prop := ∀ status, w.runs r = some status → status ∈ terminalRunStatuses

def Active (r : ℕ) : Prop := ∃ status ∈ activeRunStatuses, w.runs r = some status

def Quiet : Prop := ∀ r, w.Over r

def NothingWon : Prop := ∀ i revertTo, w.calls i ≠ .won revertTo

end World

/-- The condition on an event. The request fails only when its recorded run is over, or when no
call is about to create a run and none is active; and it is put back only when none is active. -/
def Meets (w : World) : Event → Prop
  | .base (.settle i) => w.verdicts i = some .failed → w.status = .deploying →
      (∃ r, w.deployRunId = some r ∧ w.Over r) ∨ (w.NothingWon ∧ w.Quiet)
  | .base (.revert _) => w.status = .deploying → w.Quiet
  | _ => True

def Kept : Event → Prop
  | .base (.deleteRun _) => False
  | _ => True

end Model

section Runs

variable {w w' : World} {r : ℕ}

theorem World.Over.of_eq (h : w.Over r) (heq : w'.runs r = w.runs r) : w'.Over r := by
  intro status hs
  rw [heq] at hs
  exact h status hs

theorem World.over_of_success (h : w.runs r = some .success) : w.Over r := by
  intro status hs
  rw [h] at hs
  cases hs
  decide

theorem World.over_iff : w.Over r ↔ ¬ w.Active r := by
  constructor
  · rintro h ⟨status, hactive, hs⟩
    have hover := h status hs
    cases status <;> revert hactive hover <;> decide
  · intro h status hs
    by_contra hlive
    apply h
    refine ⟨status, ?_, hs⟩
    cases status <;> revert hlive <;> decide

theorem World.Over.updateRunStatus (h : w.Over r) (runId : ℕ) (status : RunStatus) :
    (w.updateRunStatus runId status).runs r = w.runs r := by
  unfold World.updateRunStatus
  split
  · rename_i old hold
    split
    · rfl
    · rename_i hlive
      apply World.setRun_of_ne
      rintro rfl
      exact hlive (h old hold)
  · rfl

theorem updateRunStatus_none (h : w.runs r = none) (runId : ℕ) (status : RunStatus) :
    (w.updateRunStatus runId status).runs r = none := by
  have hover : w.Over r := by
    intro s hs
    rw [h] at hs
    cases hs
  rw [hover.updateRunStatus, h]

end Runs

section Invariant

def Call.putsBack : Call → Bool
  | .reverting _ => true
  | _ => false

def Call.back : Call → Option Status
  | .idle | .recorded _ => none
  | .won revertTo | .created revertTo _ | .handed revertTo _ | .raised revertTo _
  | .reverting revertTo => some revertTo

/-- What the events keep that meet their condition. One call at a time holds the request; runs
beside the one of that call, and beside the recorded one, are over; all are when the request can be
won again or has failed; and a deployed request has a run that succeeded. -/
structure Told (w : World) : Prop where
  fresh : ∀ r, w.nextRunId ≤ r → w.runs r = none
  one : ∀ i j, w.calls i ≠ .idle → w.calls j ≠ .idle → i = j
  held : ∀ i, w.calls i ≠ .idle → w.status ∈ takenStatuses
  back : ∀ i revertTo, (w.calls i).back = some revertTo → revertTo ∉ takenStatuses
  free : w.status ∉ takenStatuses → w.Quiet
  others : ∀ i, w.calls i ≠ .idle → (w.calls i).putsBack = false →
    ∀ r, (w.calls i).runId ≠ some r → w.Over r
  stored : ∀ r, w.deployRunId = some r →
    (∀ i, w.calls i = .idle) ∧ w.status ∈ takenStatuses ∧ ∀ r', r' ≠ r → w.Over r'
  deployed : w.status = .deployed → ∃ r, w.runs r = some .success
  failed : w.status = .failed → w.NothingWon ∧ w.Quiet
  verdicts : ∀ i status, w.verdicts i = some status →
    status = .failed ∨ status = .deployed ∧ ∃ r, w.runs r = some .success

variable {w w' : World}

theorem told_init : Told {} where
  fresh _ _ := rfl
  one _ _ hi := absurd rfl hi
  held _ hi := absurd rfl hi
  back := nofun
  free _ _ := nofun
  others _ hi := absurd rfl hi
  stored := nofun
  deployed := nofun
  failed := nofun
  verdicts := nofun

def KeepsOver (w w' : World) : Prop := ∀ r, w.Over r → w'.runs r = w.runs r

theorem KeepsOver.over (h : KeepsOver w w') {r : ℕ} (hr : w.Over r) : w'.Over r :=
  hr.of_eq (h r hr)

theorem KeepsOver.quiet (h : KeepsOver w w') (hq : w.Quiet) : w'.Quiet := fun r => h.over (hq r)

theorem KeepsOver.success (h : KeepsOver w w') (hs : ∃ r, w.runs r = some .success) :
    ∃ r, w'.runs r = some .success := by
  obtain ⟨r, hr⟩ := hs
  exact ⟨r, (h r (World.over_of_success hr)).trans hr⟩

theorem KeepsOver.updateRunStatus (w : World) (runId : ℕ) (status : RunStatus) :
    KeepsOver w (w.updateRunStatus runId status) := fun _ hr => hr.updateRunStatus runId status

theorem KeepsOver.setRun {runId : ℕ} {old : RunStatus} (hold : w.runs runId = some old)
    (hlive : old ∉ terminalRunStatuses) (status : Option RunStatus) :
    KeepsOver w (w.setRun runId status) := by
  intro r hover
  apply World.setRun_of_ne
  rintro rfl
  exact hlive (hover old hold)

theorem Told.idle (h : Told w) (hs : w.status ∉ takenStatuses) (i : ℕ) : w.calls i = .idle := by
  by_contra hi
  exact hs (h.held i hi)

theorem Told.unrecorded (h : Told w) {i : ℕ} (hi : w.calls i ≠ .idle) : w.deployRunId = none := by
  cases hd : w.deployRunId with
  | none => rfl
  | some r => exact absurd ((h.stored r hd).1 i) hi

/-- A step that touches only runs, of those only active ones, and verdicts. -/
theorem Told.runs (h : Told w) (hkeeps : KeepsOver w w')
    (hfresh : ∀ r, w.nextRunId ≤ r → w'.runs r = none)
    (hnext : w'.nextRunId = w.nextRunId) (hstatus : w'.status = w.status)
    (hcalls : w'.calls = w.calls) (hdeploy : w'.deployRunId = w.deployRunId)
    (hverdicts : ∀ i status, w'.verdicts i = some status → w.verdicts i = some status ∨
      status = .failed ∨ status = .deployed ∧ ∃ r, w.runs r = some .success) : Told w' where
  fresh r hr := hfresh r (hnext ▸ hr)
  one i j hi hj := h.one i j (hcalls ▸ hi) (hcalls ▸ hj)
  held i hi := by
    rw [hstatus]
    exact h.held i (hcalls ▸ hi)
  back i revertTo hb := h.back i revertTo (hcalls ▸ hb)
  free hs := hkeeps.quiet (h.free (hstatus ▸ hs))
  others i hi hp r hr := hkeeps.over (h.others i (hcalls ▸ hi) (hcalls ▸ hp) r (hcalls ▸ hr))
  stored r hr := by
    obtain ⟨hidle, htaken, hover⟩ := h.stored r (hdeploy ▸ hr)
    rw [hcalls, hstatus]
    exact ⟨hidle, htaken, fun r' hr' => hkeeps.over (hover r' hr')⟩
  deployed hs := hkeeps.success (h.deployed (hstatus ▸ hs))
  failed hs := by
    obtain ⟨hwon, hquiet⟩ := h.failed (hstatus ▸ hs)
    refine ⟨fun i revertTo => ?_, hkeeps.quiet hquiet⟩
    rw [hcalls]
    exact hwon i revertTo
  verdicts i status hv := by
    rcases hverdicts i status hv with hold | hfailed | ⟨hdeployed, hs⟩
    · rcases h.verdicts i status hold with hfailed | ⟨hdeployed, hs⟩
      · exact .inl hfailed
      · exact .inr ⟨hdeployed, hkeeps.success hs⟩
    · exact .inl hfailed
    · exact .inr ⟨hdeployed, hkeeps.success hs⟩

/-- The call that holds the request goes on. -/
theorem Told.goOn (h : Told w) {i : ℕ} (hi : w.calls i ≠ .idle) {call : Call}
    (hkeeps : ∀ r, w.runs r ≠ none → w.Over r → w'.runs r = w.runs r)
    (hfresh : ∀ r, w'.nextRunId ≤ r → w'.runs r = none)
    (hstatus : w'.status = w.status) (hcalls : w'.calls = Function.update w.calls i call)
    (hdeploy : w'.deployRunId = w.deployRunId) (hverdicts : w'.verdicts = w.verdicts)
    (hback : ∀ revertTo, call.back = some revertTo → (w.calls i).back = some revertTo)
    (hothers : call ≠ .idle → call.putsBack = false → ∀ r, call.runId ≠ some r → w'.Over r)
    (hfailed : w.status = .failed → (∀ revertTo, call ≠ .won revertTo) ∧ w'.Quiet) : Told w' := by
  have hself : w'.calls i = call := by rw [hcalls, Function.update_self]
  have hne : ∀ j, j ≠ i → w'.calls j = .idle := by
    intro j hj
    rw [hcalls, Function.update_of_ne hj]
    by_contra hcall
    exact hj (h.one j i hcall hi)
  have heq : ∀ j, w'.calls j ≠ .idle → j = i := by
    intro j hj
    by_contra hji
    exact hj (hne j hji)
  have htaken : w'.status ∈ takenStatuses := hstatus ▸ h.held i hi
  have hsuccess : (∃ r, w.runs r = some .success) → ∃ r, w'.runs r = some .success := by
    rintro ⟨r, hr⟩
    exact ⟨r, (hkeeps r (by simp [hr]) (World.over_of_success hr)).trans hr⟩
  constructor
  case fresh => exact hfresh
  case one => exact fun j k hj hk => (heq j hj).trans (heq k hk).symm
  case held => exact fun _ _ => htaken
  case back =>
    intro j revertTo hb
    by_cases hj : j = i
    · subst hj
      rw [hself] at hb
      exact h.back j revertTo (hback revertTo hb)
    · rw [hne j hj] at hb
      cases hb
  case free => exact fun hs => absurd htaken hs
  case others =>
    intro j hj hp r hr
    obtain rfl := heq j hj
    rw [hself] at hj hp hr
    exact hothers hj hp r hr
  case stored =>
    intro r hr
    rw [hdeploy, h.unrecorded hi] at hr
    cases hr
  case deployed =>
    rw [hstatus]
    exact fun hs => hsuccess (h.deployed hs)
  case failed =>
    rw [hstatus]
    intro hs
    obtain ⟨hwon, hquiet⟩ := hfailed hs
    refine ⟨fun j revertTo hj => ?_, hquiet⟩
    obtain rfl := heq j (by simp [hj])
    exact hwon revertTo (hself.symm.trans hj)
  case verdicts =>
    rw [hverdicts]
    intro j status hv
    rcases h.verdicts j status hv with hfailed | ⟨hdeployed, hs⟩
    · exact .inl hfailed
    · exact .inr ⟨hdeployed, hsuccess hs⟩

theorem Told.move (h : Told w) {i : ℕ} (hi : w.calls i ≠ .idle) {call : Call}
    (hruns : w'.runs = w.runs) (hnext : w'.nextRunId = w.nextRunId)
    (hstatus : w'.status = w.status) (hcalls : w'.calls = Function.update w.calls i call)
    (hdeploy : w'.deployRunId = w.deployRunId) (hverdicts : w'.verdicts = w.verdicts)
    (hwon : ∀ revertTo, call ≠ .won revertTo)
    (hback : ∀ revertTo, call.back = some revertTo → (w.calls i).back = some revertTo)
    (hothers : call ≠ .idle → call.putsBack = false →
      (w.calls i).putsBack = false ∧ (w.calls i).runId = call.runId) : Told w' := by
  apply h.goOn hi (fun r _ _ => congrFun hruns r) ?_ hstatus hcalls hdeploy hverdicts hback
  · intro hcall hp r hr
    obtain ⟨hback, hrun⟩ := hothers hcall hp
    exact (h.others i hi hback r (hrun ▸ hr)).of_eq (congrFun hruns r)
  · intro hs
    exact ⟨hwon, fun r => ((h.failed hs).2 r).of_eq (congrFun hruns r)⟩
  · intro r hr
    rw [hruns]
    exact h.fresh r (hnext ▸ hr)

theorem Told.putBack (h : Told w) {i : ℕ} {revertTo : Status}
    (hi : (w.calls i).back = some revertTo) : Told (w.setCall i (.reverting revertTo)) := by
  have hne : w.calls i ≠ .idle := by
    intro hidle
    rw [hidle] at hi
    cases hi
  refine h.move hne rfl rfl rfl rfl rfl rfl nofun ?_ ?_
  · intro rv hrv
    cases hrv
    exact hi
  · intro _ hp
    cases hp

theorem Told.transition (h : Told w) {expected : List Status}
    (he : ∀ s ∈ expected, s ∉ takenStatuses) {status : Status} (hs : status ∉ takenStatuses) :
    Told (w.transition expected status) := by
  unfold World.transition
  split
  · rename_i hmem
    have hfree := he _ hmem
    have hne : ∀ s ∈ takenStatuses, status ≠ s := by
      rintro s ht rfl
      exact hs ht
    exact { h with
      held := fun i hi => absurd (h.held i hi) hfree
      free := fun _ => h.free hfree
      stored := fun r hr => absurd (h.stored r hr).2.1 hfree
      deployed := fun hd => absurd hd (hne _ (by decide))
      failed := fun hf => absurd hf (hne _ (by decide)) }
  · exact h

theorem Told.win (h : Told w) {i : ℕ} {expected : Status} (he : expected ∉ takenStatuses) :
    Told (w.win i expected) := by
  unfold World.win
  split
  · rename_i hs
    have hfree : w.status ∉ takenStatuses := hs ▸ he
    have hquiet := h.free hfree
    have heq : ∀ j, (w.setCall i (.won expected)).calls j ≠ .idle → j = i := by
      intro j hj
      by_contra hji
      rw [World.setCall_of_ne w hji] at hj
      exact hj (h.idle hfree j)
    have htaken : Status.deploying ∈ takenStatuses := by decide
    exact { h with
      one := fun j k hj hk => (heq j hj).trans (heq k hk).symm
      held := fun _ _ => htaken
      back := by
        rintro j revertTo hb
        by_cases hj : j = i
        · subst hj
          rw [World.setCall_self] at hb
          cases hb
          exact he
        · rw [World.setCall_of_ne w hj] at hb
          exact h.back j revertTo hb
      free := fun _ => hquiet
      others := fun _ _ _ r _ => hquiet r
      stored := fun r hr => absurd (h.stored r hr).2.1 hfree
      deployed := nofun
      failed := nofun }
  · exact h

/-- A verdict is written. A give-up meets its condition; a verdict read off a run that succeeded
stays true. -/
theorem Told.settle (h : Told w) {i : ℕ} {status : Status} (hv : w.verdicts i = some status)
    (hmeets : Meets w (.base (.settle i))) :
    Told { w.transition [.deploying] status with
      verdicts := Function.update w.verdicts i none } := by
  have hverdicts : ∀ j s, Function.update w.verdicts i none j = some s →
      s = .failed ∨ s = .deployed ∧ ∃ r, w.runs r = some .success := by
    intro j s hs
    by_cases hj : j = i
    · subst hj
      rw [Function.update_self] at hs
      cases hs
    · rw [Function.update_of_ne hj] at hs
      exact h.verdicts j s hs
  unfold World.transition
  split
  · rename_i hmem
    have hdeploying : w.status = .deploying := List.mem_singleton.mp hmem
    rcases h.verdicts i status hv with rfl | ⟨rfl, hsuccess⟩
    · have hend : w.NothingWon ∧ w.Quiet := by
        rcases hmeets hv hdeploying with ⟨r, hr, hover⟩ | hend
        · obtain ⟨hidle, -, hothers⟩ := h.stored r hr
          constructor
          · intro j revertTo hj
            rw [hidle j] at hj
            cases hj
          · intro r'
            by_cases he : r' = r
            · exact he ▸ hover
            · exact hothers r' he
        · exact hend
      have htaken : Status.failed ∈ takenStatuses := by decide
      exact { h with
        held := fun _ _ => htaken
        free := fun hs => absurd htaken hs
        stored := fun r hr => ⟨(h.stored r hr).1, htaken, (h.stored r hr).2.2⟩
        deployed := nofun
        failed := fun _ => hend
        verdicts := hverdicts }
    · have htaken : Status.deployed ∈ takenStatuses := by decide
      exact { h with
        held := fun _ _ => htaken
        free := fun hs => absurd htaken hs
        stored := fun r hr => ⟨(h.stored r hr).1, htaken, (h.stored r hr).2.2⟩
        deployed := fun _ => hsuccess
        failed := nofun
        verdicts := hverdicts }
  · exact { h with verdicts := hverdicts }

theorem Told.stop (h : Told w) (i : ℕ) : Told (w.setCall i .idle) := by
  by_cases hi : w.calls i = .idle
  · have hsame : w.setCall i .idle = w := by
      rw [World.setCall, ← hi, Function.update_eq_self]
    rw [hsame]
    exact h
  · exact h.move hi rfl rfl rfl rfl rfl rfl nofun nofun fun hne => absurd rfl hne

theorem Told.revert (h : Told w) {i : ℕ} {revertTo : Status} (hi : w.calls i = .reverting revertTo)
    (hmeets : Meets w (.base (.revert i))) :
    Told ((w.transition [.deploying] revertTo).setCall i .idle) := by
  have hne : w.calls i ≠ .idle := by simp [hi]
  have hrevert : revertTo ∉ takenStatuses := h.back i revertTo (by rw [hi]; rfl)
  unfold World.transition
  split
  · rename_i hmem
    have hquiet := hmeets (List.mem_singleton.mp hmem)
    have hidle : ∀ j, (w.setCall i .idle).calls j = .idle := by
      intro j
      by_cases hj : j = i
      · subst hj
        exact World.setCall_self ..
      · rw [World.setCall_of_ne w hj]
        by_contra hcall
        exact hj (h.one j i hcall hne)
    have hleave : ∀ s ∈ takenStatuses, revertTo ≠ s := by
      rintro s ht rfl
      exact hrevert ht
    constructor
    case fresh => exact h.fresh
    case one => exact fun j _ hj => absurd (hidle j) hj
    case held => exact fun j hj => absurd (hidle j) hj
    case back =>
      intro j rv hb
      have hb' : ((w.setCall i .idle).calls j).back = some rv := hb
      rw [hidle j] at hb'
      cases hb'
    case free => exact fun _ => hquiet
    case others => exact fun j hj => absurd (hidle j) hj
    case stored =>
      intro r hr
      have hnone : w.deployRunId = some r := hr
      rw [h.unrecorded hne] at hnone
      cases hnone
    case deployed => exact fun hs => absurd hs (hleave _ (by decide))
    case failed => exact fun hs => absurd hs (hleave _ (by decide))
    case verdicts => exact h.verdicts
  · exact h.stop i

theorem Told.finish (h : Told w) {i runId : ℕ} (hi : w.calls i = .recorded runId) :
    Told { w.setCall i .idle with deployRunId := some runId } := by
  have hne : w.calls i ≠ .idle := by simp [hi]
  have hidle : ∀ j, (w.setCall i .idle).calls j = .idle := by
    intro j
    by_cases hj : j = i
    · subst hj
      exact World.setCall_self ..
    · rw [World.setCall_of_ne w hj]
      by_contra hcall
      exact hj (h.one j i hcall hne)
  have hstop := h.stop i
  exact { hstop with
    stored := by
      rintro r hr
      cases hr
      refine ⟨hidle, h.held i hne, fun r' hr' => ?_⟩
      apply h.others i hne (by simp [hi, Call.putsBack])
      rw [hi]
      intro heq
      exact hr' (Option.some.inj heq).symm }

theorem verdict_told {graceOver : Bool} {status : Status} (h : w.verdict graceOver = some status) :
    status = .failed ∨ status = .deployed ∧ ∃ r, w.runs r = some .success := by
  unfold World.verdict at h
  split at h
  · cases h
  · split at h
    · split at h
      · cases h
        exact .inl rfl
      · cases h
    · rename_i r _
      split at h
      · cases h
        exact .inl rfl
      · rename_i hsuccess
        cases h
        exact .inr ⟨rfl, r, hsuccess⟩
      · cases h
        exact .inl rfl
      · cases h
        exact .inl rfl
      · cases h

theorem Told.updateRunStatus (h : Told w) (runId : ℕ) (status : RunStatus) :
    Told (w.updateRunStatus runId status) := by
  have hkeeps := KeepsOver.updateRunStatus w runId status
  have hfresh : ∀ r, w.nextRunId ≤ r → (w.updateRunStatus runId status).runs r = none :=
    fun r hr => updateRunStatus_none (h.fresh r hr) runId status
  obtain ⟨runs, heq⟩ := updateRunStatus_frame w runId status
  rw [heq] at hkeeps hfresh ⊢
  exact h.runs hkeeps hfresh rfl rfl rfl rfl fun _ _ hv => .inl hv

theorem Told.failRun (h : Told w) {i runId : ℕ} {revertTo : Status}
    (hi : w.calls i = .raised revertTo runId) :
    Told ((w.updateRunStatus runId .failed).setCall i (.reverting revertTo)) := by
  have hupdate := h.updateRunStatus runId .failed
  obtain ⟨runs, heq⟩ := updateRunStatus_frame w runId .failed
  have hcall : (w.updateRunStatus runId .failed).calls i = .raised revertTo runId := by
    rw [heq]
    exact hi
  exact hupdate.putBack (by rw [hcall]; rfl)

theorem Told.createRun (h : Told w) {i : ℕ} {revertTo : Status} (hi : w.calls i = .won revertTo) :
    Told { (w.setRun w.nextRunId (some .pending)).setCall i (.created revertTo w.nextRunId) with
      nextRunId := w.nextRunId + 1 } := by
  have hne : w.calls i ≠ .idle := by simp [hi]
  have hold : ∀ r, r ≠ w.nextRunId → (w.setRun w.nextRunId (some .pending)).runs r = w.runs r :=
    fun r hr => World.setRun_of_ne w hr _
  refine h.goOn hne ?_ ?_ rfl rfl rfl rfl ?_ ?_ ?_
  · intro r hr _
    apply hold
    rintro rfl
    exact hr (h.fresh _ le_rfl)
  · intro r hr
    have hle : w.nextRunId + 1 ≤ r := hr
    exact (hold r (by omega)).trans (h.fresh r (by omega))
  · intro rv hrv
    rw [hi]
    exact hrv
  · -- the new run alone is active
    intro _ _ r hr
    have hrne : r ≠ w.nextRunId := fun he => hr (congrArg some he.symm)
    have hover := h.others i hne (by simp [hi, Call.putsBack]) r (by simp [hi, Call.runId])
    exact hover.of_eq (hold r hrne)
  · intro hs
    exact absurd hi ((h.failed hs).1 i revertTo)

/-- Every event that meets its condition keeps the invariant. -/
theorem Told.react {event : Event} (hevent : react w event = some w') (hmeets : Meets w event)
    (hkept : Kept event) (h : Told w) : Told w' := by
  cases react_cases hevent with
  | approve => exact h.win (by decide)
  | deploy => exact h.win (by decide)
  | createRun hi => exact h.createRun hi
  | refuseRun hi => exact h.putBack (by rw [hi]; rfl)
  | runNoWait hi =>
    refine h.move (by simp [hi]) rfl rfl rfl rfl rfl rfl ?_ ?_ ?_
    · intro rv
      split <;> rintro ⟨⟩
    · intro rv hrv
      rw [hi]
      revert hrv
      split <;> exact id
    · intro _ _
      rw [hi]
      split <;> exact ⟨rfl, rfl⟩
  | record hi =>
    refine h.move (by simp [hi]) rfl rfl rfl rfl rfl rfl ?_ ?_ ?_
    · intro rv
      split <;> rintro ⟨⟩
    · intro rv hrv
      rw [hi]
      revert hrv
      split
      · rintro ⟨⟩
      · exact id
    · intro _ _
      rw [hi]
      split <;> exact ⟨rfl, rfl⟩
  | finish hi => exact h.finish hi
  | failRun hi => exact h.failRun hi
  | revert hi => exact h.revert hi hmeets
  | markReviewed => exact h.transition (by decide) (by decide)
  | reject => exact h.transition (by decide) (by decide)
  | expire => exact h.transition (by decide) (by decide)
  | @reconcile i graceOver =>
    refine h.runs (fun _ _ => rfl) h.fresh rfl rfl rfl rfl fun j status hv => ?_
    by_cases hj : j = i
    · subst hj
      dsimp only at hv
      rw [Function.update_self] at hv
      exact .inr (verdict_told hv)
    · dsimp only at hv
      rw [Function.update_of_ne hj] at hv
      exact .inl hv
  | settle hv => exact h.settle hv hmeets
  | @prepare runId hpending =>
    refine h.runs (KeepsOver.setRun hpending (by decide) _) (fun r hr => ?_) rfl rfl rfl rfl
      fun _ _ hv => .inl hv
    have hnone := h.fresh r hr
    rw [World.setRun_of_ne, hnone]
    rintro rfl
    rw [hnone] at hpending
    cases hpending
  | phase1 _ _ => exact h.runs (fun _ _ => rfl) h.fresh rfl rfl rfl rfl fun _ _ hv => .inl hv
  | executeStep _ => exact h.runs (fun _ _ => rfl) h.fresh rfl rfl rfl rfl fun _ _ hv => .inl hv
  | endRun => exact h.updateRunStatus _ _
  | deleteRun => cases hkept
  | leaveRun hi => exact h.putBack (by rcases hi with hi | hi <;> rw [hi] <;> rfl)
  | crash => exact h.stop _
  | writeRun => exact h.updateRunStatus _ _

end Invariant

section Final

variable {w w' : World}

theorem transition_of_not_mem {expected : List Status} (h : w.status ∉ expected)
    (status : Status) : w.transition expected status = w := if_neg h

theorem updateRunStatus_status (w : World) (runId : ℕ) (status : RunStatus) :
    (w.updateRunStatus runId status).status = w.status := by
  obtain ⟨runs, heq⟩ := updateRunStatus_frame w runId status
  rw [heq]

/-- No event changes a final status. -/
theorem react_final {event : Event} (hevent : react w event = some w')
    (hfinal : w.status ∈ finalStatuses) : w'.status = w.status := by
  have hleave : ∀ expected : List Status, (∀ s ∈ expected, s ∉ finalStatuses) →
      ∀ status, w.transition expected status = w := by
    intro expected he status
    exact transition_of_not_mem (fun hmem => he _ hmem hfinal) status
  have hwin : ∀ (i : ℕ) (expected : Status), expected ∉ finalStatuses → w.win i expected = w := by
    intro i expected he
    unfold World.win
    rw [if_neg]
    rintro rfl
    exact he hfinal
  cases react_cases hevent with
  | approve => rw [hwin _ .staged (by decide)]
  | deploy => rw [hwin _ .approved (by decide)]
  | revert _ =>
    rw [hleave _ (by decide)]
    rfl
  | markReviewed | reject | expire | settle _ => rw [hleave _ (by decide)]
  | failRun _ | endRun | writeRun => exact updateRunStatus_status w _ _
  | createRun _ | refuseRun _ | runNoWait _ | record _ | finish _ | reconcile | prepare _
  | phase1 _ _ | executeStep _ | deleteRun | leaveRun _ | crash => rfl

/-- While no call is about to create a run, an event leaves the runs that are over as they are. -/
theorem react_keepsOver {event : Event} (hevent : react w event = some w') (hkept : Kept event)
    (hwon : w.NothingWon) : KeepsOver w w' := by
  have hsame : ∀ w₁ : World, w₁.runs = w.runs → KeepsOver w w₁ := fun _ h r _ => congrFun h r
  have hwrite := KeepsOver.updateRunStatus w
  cases react_cases hevent with
  | createRun hi => exact absurd hi (hwon _ _)
  | failRun _ | endRun | writeRun => exact hwrite _ _
  | prepare hpending => exact KeepsOver.setRun hpending (by decide) _
  | deleteRun => cases hkept
  | approve | deploy =>
    apply hsame
    unfold World.win
    split <;> rfl
  | markReviewed | reject | expire | revert _ | settle _ =>
    apply hsame
    unfold World.transition
    split <;> rfl
  | refuseRun _ | runNoWait _ | record _ | finish _ | reconcile | phase1 _ _ | executeStep _
  | leaveRun _ | crash => exact hsame _ rfl

theorem Told.undeployed (h : Told w) (hs : w.status ∈ undeployedStatuses) :
    w.NothingWon ∧ w.Quiet := by
  by_cases hfailed : w.status = .failed
  · exact h.failed hfailed
  · have hfree : w.status ∉ takenStatuses := by
      revert hs hfailed
      cases w.status <;> decide
    constructor
    · intro i revertTo hi
      rw [h.idle hfree i] at hi
      cases hi
    · exact h.free hfree

/-- In every run whose events meet their condition and in which no run is deleted: a final status
stays, a deployed request has a run that ended in success, and once a request is rejected, expired
or failed no run of it is active or ends in success. -/
theorem final_status_tells {before after : List Event}
    (hmeets : Along react Meets {} (before ++ after)) (hkept : ∀ e ∈ before ++ after, Kept e)
    (hbefore : runSteps react {} before = some w) (hafter : runSteps react w after = some w') :
    (w.status ∈ finalStatuses → w'.status = w.status) ∧
    (w'.status = .deployed → ∃ r, w'.runs r = some .success) ∧
    (w.status ∈ undeployedStatuses → ∀ r, ¬ w'.Active r ∧
      (w'.runs r = some .success → w.runs r = some .success)) := by
  obtain ⟨hfirst, hrest⟩ := (hmeets.and hkept).append hbefore
  have htold : Told w := hfirst.invariant
    (fun _ _ _ hm hr h => Told.react hr hm.1 hm.2 h) hbefore told_init
  have hfinal : w.status ∈ finalStatuses → w'.status = w.status := by
    intro hs
    apply runSteps_invariant (P := fun v => v.status = w.status) ?_ hafter rfl
    intro v e v' hreact hv
    have hv' : v.status ∈ finalStatuses := hv.symm ▸ hs
    exact (react_final hreact hv').trans hv
  have hundeployed : undeployedStatuses ⊆ finalStatuses := by decide
  have hboth : Told w' ∧ (w.status ∈ undeployedStatuses → w'.status = w.status ∧
      w'.runs = w.runs) := by
    apply hrest.invariant (P := fun v => Told v ∧ (w.status ∈ undeployedStatuses →
      v.status = w.status ∧ v.runs = w.runs)) ?_ hafter ⟨htold, fun _ => ⟨rfl, rfl⟩⟩
    rintro v e v' ⟨hm, hk⟩ hreact ⟨hv, hsame⟩
    constructor
    · exact Told.react hreact hm hk hv
    · intro hs
      obtain ⟨hstatus, hruns⟩ := hsame hs
      have hv' : v.status ∈ undeployedStatuses := hstatus.symm ▸ hs
      obtain ⟨hwon, hquiet⟩ := hv.undeployed hv'
      constructor
      · exact (react_final hreact (hundeployed hv')).trans hstatus
      · ext1 r
        rw [react_keepsOver hreact hk hwon r (hquiet r), hruns]
  obtain ⟨htold', hsame⟩ := hboth
  refine ⟨hfinal, htold'.deployed, fun hs r => ⟨?_, ?_⟩⟩
  · rw [← World.over_iff]
    have hs' : w'.status ∈ undeployedStatuses := (hsame hs).1.symm ▸ hs
    exact (htold'.undeployed hs').2 r
  · intro hr
    rwa [(hsame hs).2] at hr

/-- An approval whose dispatch the engine refuses; its run is failed, and the request put back and
rejected. -/
def rejectedAfterRefusal : List Event :=
  [.base (.approve 0), .base (.createRun 0 true), .base (.runNoWait 0 .failed),
    .base (.failRun 0), .base (.revert 0), .base .reject]

theorem rejectedAfterRefusal_tells : ∃ w w', runSteps react {} rejectedAfterRefusal = some w ∧
    runSteps react w [.base (.deploy 1)] = some w' ∧ w.status = .rejected ∧
    w'.status = .rejected ∧ ¬ w'.Active 0 := by
  have hmeets : Along react Meets {} (rejectedAfterRefusal ++ [.base (.deploy 1)]) := by
    refine .cons rfl trivial <| .cons rfl trivial <| .cons rfl trivial <| .cons rfl trivial <|
      .cons rfl ?_ <| .cons rfl trivial <| .cons rfl trivial trivial
    -- the only run has failed by then
    rintro - r status hr
    cases r with
    | zero =>
      cases hr
      decide
    | succ r => cases hr
  have htells := final_status_tells hmeets
    (by simp [rejectedAfterRefusal, Kept]) rfl rfl
  exact ⟨_, _, rfl, rfl, rfl, htells.1 (by decide), (htells.2.2 (by decide) 0).1⟩

/-- A dispatch that takes longer than the grace period: the request is given up, and its run goes
on. -/
def givenUpInFlight : List Event :=
  [.base (.approve 0), .base (.createRun 0 true), .base (.runNoWait 0 .done),
    .base (.reconcile 1 true), .base (.settle 1)]

/-- The engine has the run when its answer is lost, and the database cannot be reached to fail the
run: the request is put back and rejected. -/
def leftBehind : List Event :=
  [.base (.approve 0), .base (.createRun 0 true), .base (.runNoWait 0 .lost), .leaveRun 0,
    .base (.revert 0), .base .reject]

/-- The run of a failed and of a rejected request is active, and ends in success afterwards. -/
theorem final_status_misleads :
    (∃ w w', runSteps react {} givenUpInFlight = some w ∧
      runSteps react w [.base (.prepare 0), .base (.endRun 0 .success)] = some w' ∧
      w.status = .failed ∧ w.runs 0 = some .pending ∧ w'.runs 0 = some .success) ∧
    (∃ w w', runSteps react {} leftBehind = some w ∧
      runSteps react w [.base (.prepare 0), .base (.endRun 0 .success)] = some w' ∧
      w.status = .rejected ∧ w.runs 0 = some .pending ∧ w'.runs 0 = some .success) :=
  ⟨⟨_, _, rfl, rfl, rfl, rfl, rfl⟩, ⟨_, _, rfl, rfl, rfl, rfl, rfl⟩⟩

end Final

end Manus.ChangeRequests
