import Manus.Netmiko.DeployConfig

/-! # When a deploy leaves config mode

No command follows a refused one, a commit comes only after all commands were taken, and
success is reported only with both. The next user of the session starts outside config mode
unless every attempt to leave it failed and the connection is still up.
-/

namespace Manus.DeployConfig

variable (isWord : Char → Bool) (c : Connection) (deviceType : String) (commands : List String)

section Statement

def Accepted (i : ℕ) : Prop :=
  ∃ text wasConfirmed, sendCommandConfirming c i = .ok (text, wasConfirmed) ∧
    findCliError isWord text = none

def Refused (i : ℕ) : Prop :=
  ∃ text wasConfirmed, sendCommandConfirming c i = .ok (text, wasConfirmed) ∧
    (findCliError isWord text).isSome = true

def CommitAccepted : Prop :=
  ∃ output, c.commit = .ok output ∧ findCliError isWord output = none ∧
    findCommitError output = none

/-- All commands were taken, and the candidate of a device that has one was committed. -/
def AllTaken : Prop :=
  (∀ i < commands.length, Accepted isWord c i) ∧
    (isCommitModel deviceType = true → CommitAccepted isWord c)

/-- What a deploy promises, by its result and what became of the session. -/
structure Keeps (run : DeployResult × Session) : Prop where
  outside : nextStartsInConfig c run.2 = false
  sent : run.2.sent <+: commands
  stops : ∀ i, Refused isWord c i → run.2.sent.length ≤ i + 1
  commits : 0 < run.2.commits → run.2.sent = commands ∧
    ∀ i < commands.length, ¬ Refused isWord c i
  success : run.1.success = true → run.2.sent = commands ∧
    AllTaken isWord c deviceType commands

/-- The deploy comes to the point where it leaves config mode without a failure before. -/
def ReachesExit : Prop :=
  (∃ entered, c.configMode = .ok entered) ∧
    ((∃ i < commands.length, (∀ j < i, Accepted isWord c j) ∧ Refused isWord c i) ∨
      AllTaken isWord c deviceType commands)

/-- Every attempt to leave config mode failed: there is a second one if the first one was not made
because of a failure before. -/
def ExitsFail : Prop :=
  (∃ e, c.exitConfigMode 0 = .error e) ∧
    (ReachesExit isWord c deviceType commands → ∃ e, c.exitConfigMode 1 = .error e)

end Statement

section Walk

variable {isWord c commands}

theorem not_refused_of_accepted {i : ℕ} (h : Accepted isWord c i) : ¬ Refused isWord c i := by
  rintro ⟨text, wasConfirmed, hsend, hrefused⟩
  obtain ⟨text', wasConfirmed', hsend', htaken⟩ := h
  rw [hsend] at hsend'
  cases hsend'
  rw [htaken] at hrefused
  cases hrefused

inductive Walks (isWord : Char → Bool) (c : Connection) (i : ℕ) (commands : List String) :
    Walk → Prop
  | finished {w : Walk} (ending : w.ending = .finished) (sent : w.sent = commands)
      (taken : ∀ j < commands.length, Accepted isWord c (i + j)) : Walks isWord c i commands w
  | rejected {w : Walk} (n : ℕ) (hn : n < commands.length) (ending : w.ending = .rejected (i + n))
      (sent : w.sent = commands.take (n + 1)) (taken : ∀ j < n, Accepted isWord c (i + j))
      (refused : Refused isWord c (i + n)) : Walks isWord c i commands w
  | raised {w : Walk} (n : ℕ) (hn : n < commands.length) (e : Raised)
      (ending : w.ending = .raised e) (sent : w.sent = commands.take (n + 1))
      (taken : ∀ j < n, Accepted isWord c (i + j))
      (raises : sendCommandConfirming c (i + n) = .error e) : Walks isWord c i commands w

theorem forall_lt_succ_place {P : ℕ → Prop} {i n : ℕ} (hfirst : P i)
    (h : ∀ j < n, P (i + 1 + j)) : ∀ j < n + 1, P (i + j) := by
  intro j hj
  cases j with
  | zero => exact hfirst
  | succ j =>
    have hplace : i + (j + 1) = i + 1 + j := by omega
    rw [hplace]
    exact h j (by omega)

theorem walks_sendCommands (isWord : Char → Bool) (c : Connection) (commands : List String)
    (i : ℕ) :
    Walks isWord c i commands (sendCommands isWord c i commands) := by
  induction commands generalizing i with
  | nil => exact .finished rfl rfl (by simp)
  | cons command commands ih =>
    unfold sendCommands
    cases hsend : sendCommandConfirming c i with
    | error e => exact .raised 0 (by simp) e rfl rfl (by simp) hsend
    | ok answer =>
      obtain ⟨text, wasConfirmed⟩ := answer
      dsimp only
      split
      · next hrefused => exact .rejected 0 (by simp) rfl rfl (by simp) ⟨text, _, hsend, hrefused⟩
      · next hnone =>
        have htaken : Accepted isWord c i :=
          ⟨text, _, hsend, Option.not_isSome_iff_eq_none.mp hnone⟩
        have hplace : ∀ n, i + 1 + n = i + (n + 1) := by omega
        cases ih (i + 1) with
        | finished ending sent taken =>
          exact .finished ending (congrArg _ sent) (forall_lt_succ_place htaken taken)
        | rejected n hn ending sent taken refused =>
          rw [hplace] at ending refused
          exact .rejected (n + 1) (Nat.succ_lt_succ hn) ending (congrArg _ sent)
            (forall_lt_succ_place htaken taken) refused
        | raised n hn e ending sent taken raises =>
          rw [hplace] at raises
          exact .raised (n + 1) (Nat.succ_lt_succ hn) e ending (congrArg _ sent)
            (forall_lt_succ_place htaken taken) raises

end Walk

section Calls

variable (s : Session)

@[simp] theorem exitConfigMode_sent : (exitConfigMode c s).2.sent = s.sent := by
  unfold exitConfigMode
  split <;> rfl

@[simp] theorem exitConfigMode_commits : (exitConfigMode c s).2.commits = s.commits := by
  unfold exitConfigMode
  split <;> rfl

@[simp] theorem exitConfigMode_exits : (exitConfigMode c s).2.exits = s.exits + 1 := by
  unfold exitConfigMode
  split <;> rfl

theorem exitConfigMode_inConfig : (exitConfigMode c s).2.inConfig = true ↔
    s.inConfig = true ∧ ∃ e, c.exitConfigMode s.exits = .error e := by
  unfold exitConfigMode
  split
  · next hleft => simp [hleft]
  · next hfails => simp [hfails]

theorem exitConfigMode_fst : (exitConfigMode c s).1 = c.exitConfigMode s.exits := by
  unfold exitConfigMode
  split <;> simp_all

theorem discardCandidate_eq :
    ∃ rollbacks, discardCandidate deviceType s = { s with rollbacks } := by
  unfold discardCandidate
  split
  · exact ⟨_, rfl⟩
  · exact ⟨s.rollbacks, rfl⟩

@[simp] theorem leaveAfterFailure_sent : (leaveAfterFailure c deviceType s).sent = s.sent := by
  obtain ⟨rollbacks, h⟩ := discardCandidate_eq deviceType s
  simp [leaveAfterFailure, h]

@[simp] theorem leaveAfterFailure_commits :
    (leaveAfterFailure c deviceType s).commits = s.commits := by
  obtain ⟨rollbacks, h⟩ := discardCandidate_eq deviceType s
  simp [leaveAfterFailure, h]

theorem leaveAfterFailure_inConfig : (leaveAfterFailure c deviceType s).inConfig = true ↔
    s.inConfig = true ∧ ∃ e, c.exitConfigMode s.exits = .error e := by
  obtain ⟨rollbacks, h⟩ := discardCandidate_eq deviceType s
  rw [leaveAfterFailure, h, exitConfigMode_inConfig]

theorem commitIfNeeded_snd : ∃ commits,
    (commitIfNeeded isWord c deviceType s).2 = { s with commits } := by
  unfold commitIfNeeded
  split
  · exact ⟨s.commits, rfl⟩
  dsimp only
  split
  · exact ⟨_, rfl⟩
  · exact ⟨_, rfl⟩
  · split <;> exact ⟨_, rfl⟩

theorem commitIfNeeded_ok : (∃ output, (commitIfNeeded isWord c deviceType s).1 = .ok output) ↔
    (isCommitModel deviceType = true → CommitAccepted isWord c) := by
  unfold commitIfNeeded CommitAccepted
  split
  · next hnone => simp [hnone]
  · next hmodel =>
    rw [Bool.not_eq_false] at hmodel
    dsimp only
    split
    · next hcommit => simp [hcommit, hmodel]
    · next hcommit => simp [hcommit, hmodel]
    · next output hcommit =>
      split
      · next herror =>
        simp only [reduceCtorEq, exists_false, hmodel, hcommit, forall_const, false_iff]
        rintro ⟨_, ⟨⟩, hcli, hfailed⟩
        rw [hcli, hfailed] at herror
        cases herror
      · next herror =>
        simp only [Except.ok.injEq, exists_eq', hmodel, hcommit, forall_const, true_iff]
        exact ⟨output, rfl, Option.or_eq_none_iff.mp herror⟩

end Calls

section Body

variable {isWord c deviceType commands} {s s' : Session} {e : Raised}

theorem deployConfig_of_error (h : deployBody isWord c deviceType commands s = (.error e, s')) :
    (deployConfig isWord c deviceType commands s).2 = leaveAfterFailure c deviceType s' ∧
      (deployConfig isWord c deviceType commands s).1.success = false := by
  unfold deployConfig
  rw [h]
  cases e <;> exact ⟨rfl, rfl⟩

theorem deployConfig_of_ok {output : String} {index : Option ℕ}
    (h : deployBody isWord c deviceType commands s = (.ok (output, index), s')) :
    (deployConfig isWord c deviceType commands s).2 = s' ∧
      ((deployConfig isWord c deviceType commands s).1.success = true → index = none) := by
  unfold deployConfig
  rw [h]
  cases index
  · exact ⟨rfl, fun _ => rfl⟩
  · exact ⟨rfl, nofun⟩

structure Does (isWord : Char → Bool) (c : Connection) (deviceType : String)
    (commands : List String) (inside : Bool) (run : DeployResult × Session) : Prop where
  sent : ∃ n, run.2.sent = commands.take n ∧ ∀ j, j + 1 < n → j < commands.length →
    Accepted isWord c j
  commits : 0 < run.2.commits → run.2.sent = commands ∧
    ∀ i < commands.length, Accepted isWord c i
  success : run.1.success = true → run.2.sent = commands ∧
    AllTaken isWord c deviceType commands
  inConfig : run.2.inConfig = true ↔ (inside = true ∨ ∃ entered, c.configMode = .ok entered) ∧
    ExitsFail isWord c deviceType commands

theorem does_of_failure {inside : Bool} {s : Session}
    (h : deployBody isWord c deviceType commands { inConfig := inside } = (.error e, s))
    (hsent : ∃ n, s.sent = commands.take n ∧ ∀ j, j + 1 < n → j < commands.length →
      Accepted isWord c j)
    (hcommits : 0 < s.commits → s.sent = commands ∧ ∀ i < commands.length, Accepted isWord c i)
    (hconfig : s.inConfig = true ↔ inside = true ∨ ∃ entered, c.configMode = .ok entered)
    (hexits : s.exits = 0) (hnot : ¬ ReachesExit isWord c deviceType commands) :
    Does isWord c deviceType commands inside
      (deployConfig isWord c deviceType commands { inConfig := inside }) := by
  obtain ⟨hsession, hresult⟩ := deployConfig_of_error h
  refine ⟨?_, ?_, ?_, ?_⟩
  · rw [hsession, leaveAfterFailure_sent]
    exact hsent
  · rw [hsession, leaveAfterFailure_sent, leaveAfterFailure_commits]
    exact hcommits
  · rw [hresult]
    exact nofun
  · rw [hsession, leaveAfterFailure_inConfig, hconfig, hexits, ExitsFail]
    simp [hnot]

/-- Config mode is left in the ordinary way, with a second attempt if that fails. -/
theorem does_of_exit {inside : Bool} {s : Session} {entered output : String} {index : Option ℕ}
    (hmode : c.configMode = .ok entered)
    (h : deployBody isWord c deviceType commands { inConfig := inside } =
      leaveWith c output index s)
    (hsent : ∃ n, s.sent = commands.take n ∧ ∀ j, j + 1 < n → j < commands.length →
      Accepted isWord c j)
    (hcommits : 0 < s.commits → s.sent = commands ∧ ∀ i < commands.length, Accepted isWord c i)
    (hsuccess : index = none → s.sent = commands ∧ AllTaken isWord c deviceType commands)
    (hconfig : s.inConfig = true) (hexits : s.exits = 0)
    (hreaches : ReachesExit isWord c deviceType commands) :
    Does isWord c deviceType commands inside
      (deployConfig isWord c deviceType commands { inConfig := inside }) := by
  have hfirst := exitConfigMode_fst c s
  have hleft := exitConfigMode_inConfig c s
  have hs := exitConfigMode_sent c s
  have hc := exitConfigMode_commits c s
  have he := exitConfigMode_exits c s
  unfold leaveWith at h
  rw [hexits] at hfirst hleft
  generalize exitConfigMode c s = left at h hfirst hleft hs hc he
  obtain ⟨answer, s'⟩ := left
  dsimp only at hfirst hleft hs hc he h
  cases answer with
  | error e =>
    obtain ⟨hsession, hresult⟩ := deployConfig_of_error h
    refine ⟨?_, ?_, ?_, ?_⟩
    · rw [hsession, leaveAfterFailure_sent, hs]
      exact hsent
    · rw [hsession, leaveAfterFailure_sent, leaveAfterFailure_commits, hs, hc]
      exact hcommits
    · rw [hresult]
      exact nofun
    · rw [hsession, leaveAfterFailure_inConfig, hleft, he, hexits, ExitsFail]
      simp [hreaches, ← hfirst, hconfig, hmode]
  | ok left =>
    obtain ⟨hsession, hresult⟩ := deployConfig_of_ok h
    refine ⟨?_, ?_, ?_, ?_⟩
    · rw [hsession, hs]
      exact hsent
    · rw [hsession, hs, hc]
      exact hcommits
    · rw [hsession, hs]
      exact fun hdone => hsuccess (hresult hdone)
    · rw [hsession, hleft, ExitsFail]
      simp [← hfirst]

theorem taken_of_take {n : ℕ} (taken : ∀ j < n, Accepted isWord c (0 + j)) :
    ∀ j, j + 1 < n + 1 → j < commands.length → Accepted isWord c j := by
  rintro j hj -
  have := taken j (by omega)
  rwa [Nat.zero_add] at this

theorem does_deployConfig (isWord : Char → Bool) (c : Connection) (deviceType : String)
    (commands : List String) (inside : Bool) :
    Does isWord c deviceType commands inside
      (deployConfig isWord c deviceType commands { inConfig := inside }) := by
  cases hmode : c.configMode with
  | error e =>
    have hbody : deployBody isWord c deviceType commands { inConfig := inside } =
        (.error e, { inConfig := inside }) := by
      unfold deployBody
      rw [hmode]
    apply does_of_failure hbody
    · exact ⟨0, rfl, by omega⟩
    · exact nofun
    · simp [hmode]
    · rfl
    · rintro ⟨⟨entered, hentered⟩, -⟩
      rw [hmode] at hentered
      cases hentered
  | ok entered =>
    have hentered : ∃ entered, c.configMode = .ok entered := ⟨entered, hmode⟩
    have hbody : deployBody isWord c deviceType commands { inConfig := inside } =
        afterCommands isWord c deviceType entered (sendCommands isWord c 0 commands)
          { inConfig := inside } := by
      unfold deployBody
      rw [hmode]
    have hwalk := walks_sendCommands isWord c commands 0
    generalize sendCommands isWord c 0 commands = walk at hwalk hbody
    cases hwalk with
    | raised n hn e ending sent taken raises =>
      simp only [afterCommands, ending] at hbody
      apply does_of_failure hbody
      · exact ⟨n + 1, sent, taken_of_take taken⟩
      · exact nofun
      · exact ⟨fun _ => .inr hentered, fun _ => rfl⟩
      · rfl
      · -- the command that raised was neither taken nor refused
        rw [Nat.zero_add] at raises
        rintro ⟨-, ⟨i, -, hbefore, text, wasConfirmed, hsend, hrefused⟩ | ⟨hall, -⟩⟩
        · rcases Nat.lt_trichotomy i n with hlt | rfl | hgt
          · have htaken := taken i hlt
            rw [Nat.zero_add] at htaken
            exact not_refused_of_accepted htaken ⟨text, wasConfirmed, hsend, hrefused⟩
          · rw [raises] at hsend
            cases hsend
          · obtain ⟨_, _, hsend', -⟩ := hbefore n hgt
            rw [raises] at hsend'
            cases hsend'
        · obtain ⟨_, _, hsend', -⟩ := hall n hn
          rw [raises] at hsend'
          cases hsend'
    | rejected n hn ending sent taken refused =>
      rw [Nat.zero_add] at refused
      simp only [afterCommands, ending] at hbody
      obtain ⟨rollbacks, hdiscard⟩ := discardCandidate_eq deviceType
        { inConfig := true, sent := walk.sent, confirmed := walk.confirmed }
      change _ = leaveWith c _ _ (discardCandidate deviceType
        { inConfig := true, sent := walk.sent, confirmed := walk.confirmed }) at hbody
      rw [hdiscard] at hbody
      apply does_of_exit hmode hbody
      · exact ⟨n + 1, sent, taken_of_take taken⟩
      · exact nofun
      · exact nofun
      · rfl
      · rfl
      · refine ⟨hentered, .inl ⟨n, hn, fun j hj => ?_, refused⟩⟩
        have htaken := taken j hj
        rwa [Nat.zero_add] at htaken
    | finished ending sent taken =>
      have hall : ∀ i < commands.length, Accepted isWord c i := by
        intro i hi
        have htaken := taken i hi
        rwa [Nat.zero_add] at htaken
      have hsent : ∃ n, walk.sent = commands.take n ∧
          ∀ j, j + 1 < n → j < commands.length → Accepted isWord c j :=
        ⟨commands.length, by rw [sent, List.take_length], fun j _ hj => hall j hj⟩
      simp only [afterCommands, ending] at hbody
      set s : Session := { inConfig := true, sent := walk.sent, confirmed := walk.confirmed }
      change _ = commitAndLeave isWord c deviceType _ s at hbody
      have hok := commitIfNeeded_ok isWord c deviceType s
      obtain ⟨commits, hsession⟩ := commitIfNeeded_snd isWord c deviceType s
      unfold commitAndLeave at hbody
      generalize commitIfNeeded isWord c deviceType s = answered at hok hsession hbody
      obtain ⟨answer, s'⟩ := answered
      obtain rfl : s' = { s with commits } := hsession
      cases answer with
      | error e =>
        apply does_of_failure hbody
        · exact hsent
        · exact fun _ => ⟨sent, hall⟩
        · exact ⟨fun _ => .inr hentered, fun _ => rfl⟩
        · rfl
        · rintro ⟨-, ⟨i, hi, -, hrefused⟩ | hall⟩
          · exact not_refused_of_accepted (hall i hi) hrefused
          · obtain ⟨output, haccepted⟩ := hok.mpr hall.2
            cases haccepted
      | ok committed =>
        have htaken : AllTaken isWord c deviceType commands := ⟨hall, hok.mp ⟨_, rfl⟩⟩
        apply does_of_exit hmode hbody
        · exact hsent
        · exact fun _ => ⟨sent, hall⟩
        · exact fun _ => ⟨sent, htaken⟩
        · rfl
        · rfl
        · exact ⟨hentered, .inr htaken⟩

end Body

section Outcome

theorem deploy_eq (host : String) (writeConfig : Bool) (s : Session) :
    (deploy isWord c deviceType commands host writeConfig s).2 =
        (deployConfig isWord c deviceType commands s).2 ∧
      ((deploy isWord c deviceType commands host writeConfig s).1.success = true →
        (deployConfig isWord c deviceType commands s).1.success = true) := by
  unfold deploy
  dsimp only
  split
  · exact ⟨rfl, id⟩
  split
  · exact ⟨rfl, id⟩
  · exact ⟨rfl, nofun⟩

variable {isWord c deviceType commands}

theorem length_le_of_refused {sent : List String} {n i : ℕ} (hsent : sent = commands.take n)
    (htaken : ∀ j, j + 1 < n → j < commands.length → Accepted isWord c j)
    (hrefused : Refused isWord c i) : sent.length ≤ i + 1 := by
  by_contra hlong
  rw [hsent, List.length_take] at hlong
  exact not_refused_of_accepted (htaken i (by omega) (by omega)) hrefused

/-- All a deploy promises holds, except where config mode was entered, every attempt to leave it
failed and the connection is alive. -/
theorem deploy_keeps_iff (isWord : Char → Bool) (c : Connection) (deviceType : String)
    (commands : List String) (host : String) (writeConfig inside : Bool) :
    Keeps isWord c deviceType commands
        (deploy isWord c deviceType commands host writeConfig { inConfig := inside }) ↔
      ¬ (c.isAlive = true ∧ (inside = true ∨ ∃ entered, c.configMode = .ok entered) ∧
        ExitsFail isWord c deviceType commands) := by
  obtain ⟨hsession, hresult⟩ :=
    deploy_eq isWord c deviceType commands host writeConfig { inConfig := inside }
  obtain ⟨⟨n, hsent, htaken⟩, hcommits, hsuccess, hconfig⟩ :=
    does_deployConfig isWord c deviceType commands inside
  rw [← hsession] at hsent hcommits hsuccess hconfig
  constructor
  · rintro h ⟨halive, hfails⟩
    have houtside := h.outside
    rw [nextStartsInConfig, halive, hconfig.mpr hfails] at houtside
    cases houtside
  · intro h
    constructor
    · rw [nextStartsInConfig, Bool.and_eq_false_imp]
      intro halive
      by_contra hleft
      rw [Bool.not_eq_false] at hleft
      exact h ⟨halive, hconfig.mp hleft⟩
    · rw [hsent]
      exact List.take_prefix n commands
    · intro i hrefused
      exact length_le_of_refused hsent htaken hrefused
    · intro hcommitted
      obtain ⟨hall, haccepted⟩ := hcommits hcommitted
      exact ⟨hall, fun i hi => not_refused_of_accepted (haccepted i hi)⟩
    · exact fun hdone => hsuccess (hresult hdone)

def stuckConnection : Connection where
  configMode := .ok "router(config)#"
  send _ := .ok "router(config)#"
  writeReturn _ := .ok ""
  readPrompt _ := .ok ""
  commit := .ok ""
  exitConfigMode _ := .error (.other "Failed to exit config mode.")
  saveConfig := .ok ""
  isAlive := true

/-- The next operation on the session starts in config mode. -/
theorem stuckConnection_inConfig :
    ¬ ∀ (c : Connection) (deviceType : String) (commands : List String) (host : String),
      Keeps Char.isAlphanum c deviceType commands
        (deploy Char.isAlphanum c deviceType commands host true {}) := by
  intro h
  have houtside := (h stuckConnection "cisco_ios" ["hostname router"] "router").outside
  have hinside : nextStartsInConfig stuckConnection (deploy Char.isAlphanum stuckConnection
      "cisco_ios" ["hostname router"] "router" true {}).2 = true := by
    decide +kernel
  rw [hinside] at houtside
  cases houtside

end Outcome

end Manus.DeployConfig
