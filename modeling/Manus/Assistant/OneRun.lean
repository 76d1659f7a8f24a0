import Manus.Assistant.TokenOnce
import Manus.Lib.Table
import Mathlib.Data.List.Nodup

/-! # A confirmation starts one run

While a token is valid, whoever holds its id or has confirmed it is alone: the
claim of a start that goes on is taken by nobody else, and a confirmed id stays
used until the token has expired. Every run the engine executes belongs to such a
start.
-/

namespace Manus.Assistant

def Start.live (start : Start) : Bool := start.goesOn || start.stage == .confirmed

theorem Start.live_of_goesOn {start : Start} (h : start.goesOn = true) : start.live = true := by
  simp [live, h]

theorem Start.goesOn_of_live {start : Start} (h : start.live = true)
    (hc : start.stage ≠ .confirmed) : start.goesOn = true := by
  simpa [live, hc] using h

def UsedFor (now : ℕ) (redis : ClaimStore) (start : Start) : Prop :=
  start.stage = .confirmed → now < start.grant.expiresAt →
    ∃ expiry, redis (key start.grant.tokenId) = some (.used, expiry) ∧
      start.grant.expiresAt ≤ expiry

structure Invariant (s : ConfirmSystem) : Prop where
  ids : (s.issued.map WorkflowRunGrant.tokenId).Nodup
  expiry : ∀ grant ∈ s.issued, grant.expiresAt ≤ s.now + tokenTtl
  grants : ∀ {i : ℕ} {a : Start}, s.starts[i]? = some a → a.grant ∈ s.issued
  past : ∀ {i : ℕ} {a : Start}, s.starts[i]? = some a → a.claimedAt ≤ s.now
  sole : ∀ {i j : ℕ} {a b : Start}, s.starts[i]? = some a → s.starts[j]? = some b →
    a.live = true → b.live = true → a.grant = b.grant → a.claimedAt < a.grant.expiresAt →
    b.claimedAt < b.grant.expiresAt → i = j
  used : ∀ {i : ℕ} {a : Start}, s.starts[i]? = some a → UsedFor s.now s.redis a
  owned : ∀ {i r : ℕ} {a : Start}, s.starts[i]? = some a → a.runId = some r →
    ∃ run, s.runs[r]? = some run ∧ run.tokenId = a.grant.tokenId
  early : ∀ {i : ℕ} {a : Start}, s.starts[i]? = some a →
    a.stage = .verified ∨ a.stage = .claimed → a.runId = none
  alive : ∀ {r : ℕ} {run : TokenRun}, s.runs[r]? = some run → run.alive = true →
    ∃ (i : ℕ) (a : Start), s.starts[i]? = some a ∧ a.runId = some r ∧ a.live = true ∧
      ∀ t, run.acceptedAt = some t → a.claimedAt ≤ t

namespace Invariant

variable {s : ConfirmSystem} {i : ℕ} {a b : Start}

theorem init : Invariant {} where
  ids := List.nodup_nil
  expiry := by simp
  grants := by simp
  past := by simp
  sole := by simp
  used := by simp
  owned := by simp
  early := by simp
  alive := by simp

theorem grant_eq (h : Invariant s) {j : ℕ} (hi : s.starts[i]? = some a)
    (hj : s.starts[j]? = some b) (he : a.grant.tokenId = b.grant.tokenId) : a.grant = b.grant :=
  List.inj_on_of_nodup_map h.ids (h.grants hi) (h.grants hj) he

theorem sole_now (h : Invariant s) {j : ℕ} (hi : s.starts[i]? = some a)
    (hj : s.starts[j]? = some b) (ha : a.live = true) (hb : b.live = true)
    (he : a.grant.tokenId = b.grant.tokenId) (hnow : s.now < a.grant.expiresAt) : i = j := by
  have hgrant := h.grant_eq hi hj he
  refine h.sole hi hj ha hb hgrant ((h.past hi).trans_lt hnow) ?_
  rw [← hgrant]
  exact (h.past hj).trans_lt hnow

theorem used_of_ne {redis' : ClaimStore} {tokenId : String} (h : Invariant s)
    (hi : s.starts[i]? = some a) (hne : a.grant.tokenId ≠ tokenId)
    (hredis : ∀ k, k ≠ key tokenId → redis' k = s.redis k) : UsedFor s.now redis' a := by
  intro hstage hnow
  have hkey : key a.grant.tokenId ≠ key tokenId := fun he =>
    hne ((String.append_right_inj keyPrefix).mp he)
  rw [hredis _ hkey]
  exact h.used hi hstage hnow

/-- A start goes on, or is confirmed; the run it is for may have been accepted just now. -/
theorem goOn {redis' : ClaimStore} {runs' : List TokenRun} (h : Invariant s)
    (hi : s.starts[i]? = some a) (ha : a.live = true) (hb : b.live = true)
    (hsame : b.grant = a.grant ∧ b.claimedAt = a.claimedAt ∧ b.runId = a.runId)
    (hlate : ¬ (b.stage = .verified ∨ b.stage = .claimed))
    (hused : ∀ {j : ℕ} {c : Start}, (s.starts.set i b)[j]? = some c → UsedFor s.now redis' c)
    (hkept : ∀ {r : ℕ} {run : TokenRun}, s.runs[r]? = some run →
      ∃ run', runs'[r]? = some run' ∧ run'.tokenId = run.tokenId)
    (hruns : ∀ {r : ℕ} {run' : TokenRun}, runs'[r]? = some run' → run'.alive = true →
      (∃ run, s.runs[r]? = some run ∧ run.alive = true ∧ run'.acceptedAt = run.acceptedAt) ∨
        b.runId = some r ∧ run'.acceptedAt = some s.now) :
    Invariant { s with redis := redis', starts := s.starts.set i b, runs := runs' } := by
  obtain ⟨hgrant, hclaimed, hrun⟩ := hsame
  have hold : ∀ {j : ℕ} {c : Start}, (s.starts.set i b)[j]? = some c → ∃ c₀,
      s.starts[j]? = some c₀ ∧ c.grant = c₀.grant ∧ c.claimedAt = c₀.claimedAt ∧
        c.runId = c₀.runId ∧ (c.live = true → c₀.live = true) := by
    intro j c hj
    rcases getElem?_set_some hj with ⟨rfl, rfl⟩ | ⟨-, hj⟩
    · exact ⟨a, hi, hgrant, hclaimed, hrun, fun _ => ha⟩
    · exact ⟨c, hj, rfl, rfl, rfl, id⟩
  constructor
  · exact h.ids
  · exact h.expiry
  · intro j c hj
    obtain ⟨c₀, hj₀, hg, -⟩ := hold hj
    exact hg ▸ h.grants hj₀
  · intro j c hj
    obtain ⟨c₀, hj₀, -, hc, -⟩ := hold hj
    exact hc ▸ h.past hj₀
  · intro j k c e hj hk hc he hgrants hlt hlt'
    obtain ⟨c₀, hj₀, hg, hat, -, hlive⟩ := hold hj
    obtain ⟨e₀, hk₀, hg', hat', -, hlive'⟩ := hold hk
    rw [hg, hat] at hlt
    rw [hg', hat'] at hlt'
    rw [hg, hg'] at hgrants
    exact h.sole hj₀ hk₀ (hlive hc) (hlive' he) hgrants hlt hlt'
  · exact hused
  · intro j r c hj hr
    obtain ⟨c₀, hj₀, hg, -, hr', -⟩ := hold hj
    obtain ⟨run, hrun₀, htoken⟩ := h.owned hj₀ (hr' ▸ hr)
    obtain ⟨run', hrun', htoken'⟩ := hkept hrun₀
    exact ⟨run', hrun', by rw [htoken', htoken, hg]⟩
  · intro j c hj hearly
    rcases getElem?_set_some hj with ⟨rfl, rfl⟩ | ⟨-, hj⟩
    · exact absurd hearly hlate
    · exact h.early hj hearly
  · intro r run' hr halive
    rcases hruns hr halive with ⟨run, hr₀, halive₀, haccepted⟩ | ⟨hown, haccepted⟩
    · obtain ⟨j, c, hj, hc, hlive, hat⟩ := h.alive hr₀ halive₀
      by_cases hij : i = j
      · subst hij
        rw [hi] at hj
        cases hj
        refine ⟨i, b, ?_, hrun ▸ hc, hb, fun t ht => hclaimed ▸ hat t (haccepted ▸ ht)⟩
        rw [List.getElem?_set_self (List.getElem?_eq_some_iff.mp hi).1]
      · refine ⟨j, c, ?_, hc, hlive, fun t ht => hat t (haccepted ▸ ht)⟩
        rw [List.getElem?_set_ne hij, hj]
    · refine ⟨i, b, ?_, hown, hb, fun t ht => ?_⟩
      · rw [List.getElem?_set_self (List.getElem?_eq_some_iff.mp hi).1]
      · rw [haccepted, Option.some.injEq] at ht
        rw [hclaimed, ← ht]
        exact h.past hi

/-- A start ends whose run the engine does not execute. -/
theorem finish {redis' : ClaimStore} (h : Invariant s) (hi : s.starts[i]? = some a)
    (hdead : a.live = true → ∀ run, s.runOf a = some run → run.alive = false)
    (hused : ∀ {j : ℕ} {c : Start}, s.starts[j]? = some c → i ≠ j → UsedFor s.now redis' c) :
    Invariant ((s.setRedis redis').setStage i a .ended) := by
  have hover : ({ a with stage := .ended } : Start).live ≠ true := by
    simp [Start.live, Start.goesOn]
  constructor
  · exact h.ids
  · exact h.expiry
  · intro j c hj
    rcases getElem?_set_some hj with ⟨-, rfl⟩ | ⟨-, hj⟩
    · exact h.grants (a := a) hi
    · exact h.grants hj
  · intro j c hj
    rcases getElem?_set_some hj with ⟨-, rfl⟩ | ⟨-, hj⟩
    · exact h.past (a := a) hi
    · exact h.past hj
  · intro j k c e hj hk hc he
    rcases getElem?_set_some hj with ⟨-, rfl⟩ | ⟨-, hj⟩
    · exact absurd hc hover
    · rcases getElem?_set_some hk with ⟨-, rfl⟩ | ⟨-, hk⟩
      · exact absurd he hover
      · exact h.sole hj hk hc he
  · intro j c hj
    rcases getElem?_set_some hj with ⟨-, rfl⟩ | ⟨hij, hj⟩
    · rintro ⟨⟩
    · exact hused hj hij
  · intro j r c hj hr
    rcases getElem?_set_some hj with ⟨-, rfl⟩ | ⟨-, hj⟩
    · exact h.owned (a := a) hi hr
    · exact h.owned hj hr
  · intro j c hj hearly
    rcases getElem?_set_some hj with ⟨-, rfl⟩ | ⟨-, hj⟩
    · rcases hearly with ⟨⟨⟩⟩ | ⟨⟨⟩⟩
    · exact h.early hj hearly
  · intro r run hr halive
    obtain ⟨j, c, hj, hc, hlive, hat⟩ := h.alive hr halive
    have hij : i ≠ j := by
      rintro rfl
      rw [hi] at hj
      cases hj
      have hrun : s.runOf a = some run := (congrArg (Option.bind · _) hc).trans hr
      rw [hdead hlive run hrun] at halive
      cases halive
    exact ⟨j, c, (List.getElem?_set_ne hij).trans hj, hc, hlive, hat⟩

/-- A start takes the id of its token, while no other one is live with it. -/
theorem grant {redis' : ClaimStore} (h : Invariant s) (hi : s.starts[i]? = some a)
    (hrun : a.runId = none) (halone : ∀ {j : ℕ} {c : Start}, s.starts[j]? = some c →
      c.grant.tokenId = a.grant.tokenId → c.live = true → ¬ s.now < c.grant.expiresAt)
    (hused : ∀ {j : ℕ} {c : Start}, s.starts[j]? = some c → UsedFor s.now redis' c) :
    Invariant ((s.setRedis redis').setStart i
      { a with stage := .claimed, claimedAt := s.now }) := by
  set b : Start := { a with stage := .claimed, claimedAt := s.now } with hb
  have hother : ∀ {j : ℕ} {c : Start}, s.starts[j]? = some c → c.live = true →
      a.grant = c.grant → ¬ s.now < a.grant.expiresAt := by
    intro j c hj hc hg hlt
    refine halone hj (by rw [hg]) hc ?_
    rwa [← hg]
  constructor
  · exact h.ids
  · exact h.expiry
  · intro j c hj
    rcases getElem?_set_some hj with ⟨-, rfl⟩ | ⟨-, hj⟩
    · exact h.grants (a := a) hi
    · exact h.grants hj
  · intro j c hj
    rcases getElem?_set_some hj with ⟨-, rfl⟩ | ⟨-, hj⟩
    · exact Nat.le_refl _
    · exact h.past hj
  · intro j k c e hj hk hc he hg hlt hlt'
    rcases getElem?_set_some hj with ⟨hij, rfl⟩ | ⟨-, hj⟩
    · rcases getElem?_set_some hk with ⟨hik, rfl⟩ | ⟨-, hk⟩
      · exact hij.symm.trans hik
      · exact absurd hlt (hother hk he hg)
    · rcases getElem?_set_some hk with ⟨-, rfl⟩ | ⟨-, hk⟩
      · exact absurd hlt' (hother hj hc hg.symm)
      · exact h.sole hj hk hc he hg hlt hlt'
  · intro j c hj
    rcases getElem?_set_some hj with ⟨-, rfl⟩ | ⟨-, hj⟩
    · rintro ⟨⟩
    · exact hused hj
  · intro j r c hj hr
    rcases getElem?_set_some hj with ⟨-, rfl⟩ | ⟨-, hj⟩
    · rw [hb, hrun] at hr
      cases hr
    · exact h.owned hj hr
  · intro j c hj hearly
    rcases getElem?_set_some hj with ⟨-, rfl⟩ | ⟨-, hj⟩
    · exact hrun
    · exact h.early hj hearly
  · intro r run hr halive
    obtain ⟨j, c, hj, hc, hlive, hat⟩ := h.alive hr halive
    have hij : i ≠ j := by
      rintro rfl
      rw [hi] at hj
      cases hj
      rw [hrun] at hc
      cases hc
    exact ⟨j, c, (List.getElem?_set_ne hij).trans hj, hc, hlive, hat⟩

/-- The row of the run of a start is created. -/
theorem create (h : Invariant s) (hi : s.starts[i]? = some a) (hstage : a.stage = .claimed) :
    Invariant ((s.addRun a.grant.tokenId).setStart i
      { a with stage := .created, runId := some s.runs.length }) := by
  set b : Start := { a with stage := .created, runId := some s.runs.length } with hb
  have hrun : a.runId = none := h.early hi (.inr hstage)
  have hlive : a.live = true := by simp [Start.live, Start.goesOn, hstage]
  have hpast : ∀ {j : ℕ} {c : Start}, (s.starts.set i b)[j]? = some c → ∃ c₀,
      s.starts[j]? = some c₀ ∧ c.grant = c₀.grant ∧ c.claimedAt = c₀.claimedAt ∧
        (c.live = true → c₀.live = true) := by
    intro j c hj
    rcases getElem?_set_some hj with ⟨rfl, rfl⟩ | ⟨-, hj⟩
    · exact ⟨a, hi, rfl, rfl, fun _ => hlive⟩
    · exact ⟨c, hj, rfl, rfl, id⟩
  constructor
  · exact h.ids
  · exact h.expiry
  · intro j c hj
    obtain ⟨c₀, hj₀, hg, -⟩ := hpast hj
    exact hg ▸ h.grants hj₀
  · intro j c hj
    obtain ⟨c₀, hj₀, -, hat, -⟩ := hpast hj
    exact hat ▸ h.past hj₀
  · intro j k c e hj hk hc he hg hlt hlt'
    obtain ⟨c₀, hj₀, hg₀, hat, hl⟩ := hpast hj
    obtain ⟨e₀, hk₀, hg₁, hat', hl'⟩ := hpast hk
    rw [hg₀, hat] at hlt
    rw [hg₁, hat'] at hlt'
    rw [hg₀, hg₁] at hg
    exact h.sole hj₀ hk₀ (hl hc) (hl' he) hg hlt hlt'
  · intro j c hj
    rcases getElem?_set_some hj with ⟨-, rfl⟩ | ⟨-, hj⟩
    · rintro ⟨⟩
    · exact h.used hj
  · intro j r c hj hr
    rcases getElem?_set_some hj with ⟨-, rfl⟩ | ⟨-, hj⟩
    · cases hr
      exact ⟨{ tokenId := a.grant.tokenId }, List.getElem?_concat_length, rfl⟩
    · obtain ⟨run, hrun, htoken⟩ := h.owned hj hr
      exact ⟨run, getElem?_concat_of_some hrun, htoken⟩
  · intro j c hj hearly
    rcases getElem?_set_some hj with ⟨-, rfl⟩ | ⟨-, hj⟩
    · rcases hearly with ⟨⟨⟩⟩ | ⟨⟨⟩⟩
    · exact h.early hj hearly
  · intro r run hr halive
    rcases getElem?_concat_some hr with hr | ⟨-, rfl⟩
    · obtain ⟨j, c, hj, hc, hl, hat⟩ := h.alive hr halive
      have hij : i ≠ j := by
        rintro rfl
        rw [hi] at hj
        cases hj
        rw [hrun] at hc
        cases hc
      exact ⟨j, c, (List.getElem?_set_ne hij).trans hj, hc, hl, hat⟩
    · cases halive

theorem wait (h : Invariant s) (ms : ℕ) : Invariant { s with now := s.now + ms } where
  ids := h.ids
  expiry grant hgrant := by
    have := h.expiry grant hgrant
    dsimp only
    omega
  grants := h.grants
  past hi := (h.past hi).trans (Nat.le_add_right _ _)
  sole := h.sole
  used hi hstage hnow := h.used hi hstage ((Nat.le_add_right _ ms).trans_lt hnow)
  owned := h.owned
  early := h.early
  alive := h.alive

theorem issue (h : Invariant s) {userId workflowId : ℕ} {stamp tokenId : String}
    (hnew : tokenId ∉ s.issued.map WorkflowRunGrant.tokenId) : Invariant { s with
      issued := s.issued ++ [⟨userId, workflowId, stamp, tokenId, s.now + tokenTtl⟩] } where
  ids := by
    rw [List.map_append, List.nodup_append']
    exact ⟨h.ids, List.nodup_singleton _, List.disjoint_singleton.mpr hnew⟩
  expiry grant hgrant := by
    rcases List.mem_append.mp hgrant with hgrant | hgrant
    · exact h.expiry grant hgrant
    · rw [List.mem_singleton.mp hgrant]
  grants hi := List.mem_append_left _ (h.grants hi)
  past := h.past
  sole := h.sole
  used := h.used
  owned := h.owned
  early := h.early
  alive := h.alive

theorem post {g : WorkflowRunGrant} (h : Invariant s) (hg : g ∈ s.issued) :
    Invariant { s with starts := s.starts ++ [{ grant := g }] } where
  ids := h.ids
  expiry := h.expiry
  grants hi := by
    rcases getElem?_concat_some hi with hi | ⟨-, rfl⟩
    · exact h.grants hi
    · exact hg
  past hi := by
    rcases getElem?_concat_some hi with hi | ⟨-, rfl⟩
    · exact h.past hi
    · exact Nat.zero_le _
  sole hi hj ha hb := by
    rcases getElem?_concat_some hi with hi | ⟨-, rfl⟩
    · rcases getElem?_concat_some hj with hj | ⟨-, rfl⟩
      · exact h.sole hi hj ha hb
      · cases hb
    · cases ha
  used hi := by
    rcases getElem?_concat_some hi with hi | ⟨-, rfl⟩
    · exact h.used hi
    · rintro ⟨⟩
  owned hi hr := by
    rcases getElem?_concat_some hi with hi | ⟨-, rfl⟩
    · exact h.owned hi hr
    · cases hr
  early hi hearly := by
    rcases getElem?_concat_some hi with hi | ⟨-, rfl⟩
    · exact h.early hi hearly
    · rfl
  alive hr halive := by
    obtain ⟨j, c, hj, hc⟩ := h.alive hr halive
    exact ⟨j, c, getElem?_concat_of_some hj, hc⟩

/-- The engine takes a run it has accepted. -/
theorem take (h : Invariant s) {r : ℕ} {run : TokenRun} (hr : s.runs[r]? = some run)
    (halive : run.alive = true) : Invariant (s.modifyRun (some r) fun run =>
      { run with status := .running, executed := true }) where
  ids := h.ids
  expiry := h.expiry
  grants := h.grants
  past := h.past
  sole := h.sole
  used := h.used
  owned hi hown := by
    obtain ⟨run₀, hr₀, htoken⟩ := h.owned hi hown
    simp only [ConfirmSystem.modifyRun, List.getElem?_modify, hr₀]
    refine ⟨_, rfl, ?_⟩
    split <;> exact htoken
  early := h.early
  alive hk hk' := by
    rw [ConfirmSystem.modifyRun, List.getElem?_modify] at hk
    obtain ⟨run₀, hr₀, rfl⟩ := Option.map_eq_some_iff.mp hk
    split at hk'
    · rename_i he
      subst he
      rw [hr] at hr₀
      cases hr₀
      simp only [if_true]
      exact h.alive hr halive
    · rename_i he
      simp only [if_neg he]
      exact h.alive hr₀ hk'

/-- The run of a start that goes on is changed by an update that brings no run to life, unless the
engine accepts it now. -/
theorem goOnWith {f : TokenRun → TokenRun} {stage : Stage} (h : Invariant s)
    (hi : s.starts[i]? = some a) (ha : a.goesOn = true)
    (hstage : ({ a with stage } : Start).goesOn = true) (hlate : stage ≠ .claimed)
    (htoken : ∀ run, (f run).tokenId = run.tokenId)
    (hf : ∀ run, (f run).alive = true → run.alive = true ∧ (f run).acceptedAt = run.acceptedAt ∨
      (f run).acceptedAt = some s.now) :
    Invariant ((s.modifyRun a.runId f).setStage i a stage) := by
  have hused : ∀ {j : ℕ} {c : Start}, (s.starts.set i { a with stage })[j]? = some c →
      UsedFor s.now s.redis c := by
    intro j c hj
    rcases getElem?_set_some hj with ⟨rfl, rfl⟩ | ⟨-, hj⟩
    · rintro ⟨⟩
      cases hstage
    · exact h.used hj
  have hmoved : ¬ (stage = .verified ∨ stage = .claimed) := by
    rintro (rfl | rfl)
    · cases hstage
    · exact hlate rfl
  have hlive := Start.live_of_goesOn ha
  have hlive' := Start.live_of_goesOn hstage
  cases hrun : a.runId with
  | none =>
    exact h.goOn hi hlive hlive' ⟨rfl, rfl, rfl⟩ hmoved hused (fun hr => ⟨_, hr, rfl⟩)
      fun hr hal => .inl ⟨_, hr, hal, rfl⟩
  | some r =>
    refine h.goOn hi hlive hlive' ⟨rfl, rfl, rfl⟩ hmoved hused (fun {k run} hk => ?_)
      fun {k run'} hk hal => ?_
    · rw [ConfirmSystem.modifyRun, List.getElem?_modify, hk]
      refine ⟨_, rfl, ?_⟩
      split
      · exact htoken run
      · rfl
    · rw [ConfirmSystem.modifyRun, List.getElem?_modify] at hk
      obtain ⟨run, hr₀, rfl⟩ := Option.map_eq_some_iff.mp hk
      split at hal
      · rename_i he
        simp only [if_pos he]
        rcases hf run hal with ⟨hal₀, hat⟩ | hat
        · exact .inl ⟨run, hr₀, hal₀, hat⟩
        · exact .inr ⟨by rw [hrun, he], hat⟩
      · rename_i he
        simp only [if_neg he]
        exact .inl ⟨run, hr₀, hal, rfl⟩

theorem stay {stage : Stage} (h : Invariant s) (hi : s.starts[i]? = some a) (ha : a.goesOn = true)
    (hstage : ({ a with stage } : Start).goesOn = true) (hlate : stage ≠ .claimed) :
    Invariant (s.setStage i a stage) := by
  refine h.goOn hi (Start.live_of_goesOn ha) (Start.live_of_goesOn hstage) ⟨rfl, rfl, rfl⟩ ?_
    (fun {j c} hj => ?_) (fun hr => ⟨_, hr, rfl⟩) fun hr hal => .inl ⟨_, hr, hal, rfl⟩
  · rintro (rfl | rfl)
    · cases hstage
    · exact hlate rfl
  · rcases getElem?_set_some hj with ⟨-, rfl⟩ | ⟨-, hj⟩
    · rintro ⟨⟩
      cases hstage
    · exact h.used hj

theorem confirm (h : Invariant s) (hi : s.starts[i]? = some a) (hstage : a.stage = .started) :
    Invariant ((s.setRedis (s.redis.set s.now (key a.grant.tokenId) .used usedTtl)).setStage i a
      .confirmed) := by
  refine h.goOn hi (by simp [Start.live, Start.goesOn, hstage]) rfl ⟨rfl, rfl, rfl⟩ (by simp)
    (fun {j c} hj => ?_) (fun hr => ⟨_, hr, rfl⟩) fun hr hal => .inl ⟨_, hr, hal, rfl⟩
  have hgrant : c.grant ∈ s.issued := by
    rcases getElem?_set_some hj with ⟨-, rfl⟩ | ⟨-, hj⟩
    · exact h.grants (a := a) hi
    · exact h.grants hj
  by_cases he : c.grant.tokenId = a.grant.tokenId
  · -- the record outlasts the token
    intro _ _
    refine ⟨s.now + usedTtl, by rw [he]; exact KeyStore.set_self, ?_⟩
    exact (h.expiry c.grant hgrant).trans (Nat.add_le_add_left (Nat.le_add_right _ _) _)
  · rcases getElem?_set_some hj with ⟨-, rfl⟩ | ⟨-, hj⟩
    · exact absurd rfl he
    · exact h.used_of_ne hj he fun k hk => KeyStore.set_of_ne hk

theorem used_of_free {redis' : ClaimStore} {j : ℕ} {c : Start} (h : Invariant s)
    (hj : s.starts[j]? = some c)
    (hredis : ∀ k, k ≠ key a.grant.tokenId → redis' k = s.redis k)
    (hfree : c.grant.tokenId = a.grant.tokenId → c.stage = .confirmed →
      ¬ s.now < c.grant.expiresAt) : UsedFor s.now redis' c := by
  by_cases he : c.grant.tokenId = a.grant.tokenId
  · intro hstage hnow
    exact absurd hnow (hfree he hstage)
  · exact h.used_of_ne hj he hredis

/-- A start that claims an id the store gives it, or tries to. -/
theorem claim (h : Invariant s) (hi : s.starts[i]? = some a) (hstage : a.stage = .verified)
    {reply : CommandReply} (htest : settlesInTime s (.claim i reply) = true)
    {s' : ConfirmSystem} (hs' : step s (.claim i reply) = some s') : Invariant s' := by
  simp only [step, hi, Option.bind_eq_bind, Option.bind_some, if_pos hstage] at hs'
  have hquiet : a.live ≠ true := by simp [Start.live, Start.goesOn, hstage]
  have hsame : Invariant ((s.setRedis s.redis).setStage i a .ended) :=
    h.finish hi (fun hl => absurd hl hquiet) fun hj _ => h.used hj
  unfold Assistant.claim at hs'
  rcases s.redis.setNx_cases s.now (key a.grant.tokenId) .pending inFlightTtl with
    ⟨hget, hset⟩ | hset
  · -- the id is free, so no start has confirmed it while its token is valid
    have hused : ∀ {j : ℕ} {c : Start}, s.starts[j]? = some c → UsedFor s.now
        (s.redis.set s.now (key a.grant.tokenId) .pending inFlightTtl) c := by
      intro j c hj
      refine h.used_of_free hj (fun k hk => KeyStore.set_of_ne hk) fun he hconfirmed hnow => ?_
      obtain ⟨expiry, hentry, hle⟩ := h.used hj hconfirmed hnow
      have hsome := KeyStore.get_isSome_of_lt hentry (hnow.trans_le hle)
      rw [he, hget] at hsome
      cases hsome
    have hfailed : Invariant ((s.setRedis (s.redis.set s.now (key a.grant.tokenId) .pending
        inFlightTtl)).setStage i a .ended) :=
      h.finish hi (fun hl => absurd hl hquiet) fun hj _ => hused hj
    have halone : ∀ {j : ℕ} {c : Start}, s.starts[j]? = some c →
        c.grant.tokenId = a.grant.tokenId → c.live = true → ¬ s.now < c.grant.expiresAt := by
      intro j c hj he hlive hnow
      by_cases hconfirmed : c.stage = .confirmed
      · obtain ⟨expiry, hentry, hle⟩ := h.used hj hconfirmed hnow
        have hsome := KeyStore.get_isSome_of_lt hentry (hnow.trans_le hle)
        rw [he, hget] at hsome
        cases hsome
      · simp only [settlesInTime, hi, Option.all_some, hget, Option.isSome_none, Bool.false_or,
          List.all_eq_true] at htest
        have hother := htest c (List.mem_of_getElem? hj)
        rw [he, Start.goesOn_of_live hlive hconfirmed] at hother
        simp at hother
    rw [hset] at hs'
    rcases reply.run_cases s.redis (s.redis.set s.now (key a.grant.tokenId) .pending inFlightTtl,
      true) with hreply | hreply | hreply <;> rw [hreply] at hs' <;> cases hs'
    · exact h.grant hi (h.early hi (.inl hstage)) halone hused
    · exact hfailed
    · exact hsame
  · rw [hset] at hs'
    rcases reply.run_cases s.redis (s.redis, false) with hreply | hreply | hreply <;>
      rw [hreply] at hs' <;> cases hs' <;> exact hsame

theorem release (h : Invariant s) (hi : s.starts[i]? = some a) (hstage : a.stage = .raising)
    {reply : CommandReply} (htest : settlesInTime s (.release i reply) = true) :
    Invariant ((s.setRedis (release s.redis a.grant.tokenId reply)).setStage i a .ended) := by
  have hlive : a.live = true := by simp [Start.live, Start.goesOn, hstage]
  have hdead : ∀ run, s.runOf a = some run → run.alive = false := by
    intro run hrun
    simpa [settlesInTime, hi, hrun] using htest
  unfold Assistant.release
  rcases reply.run_cases s.redis (s.redis.delete (key a.grant.tokenId), ()) with
    hreply | hreply | hreply <;> rw [hreply] <;>
    refine h.finish hi (fun _ => hdead) fun {j c} hj hij => ?_
  · refine h.used_of_free hj (fun k hk => KeyStore.delete_of_ne hk) fun he hconfirmed hnow => ?_
    have hlive' : c.live = true := by simp [Start.live, hconfirmed]
    exact hij (h.sole_now hj hi hlive' hlive he hnow).symm
  · refine h.used_of_free hj (fun k hk => KeyStore.delete_of_ne hk) fun he hconfirmed hnow => ?_
    have hlive' : c.live = true := by simp [Start.live, hconfirmed]
    exact hij (h.sole_now hj hi hlive' hlive he hnow).symm
  · exact h.used hj

theorem step {move : Move} (h : Invariant s) (htest : settlesInTime s move = true)
    {s' : ConfirmSystem} (hs' : Assistant.step s move = some s') : Invariant s' := by
  cases move with
  | wait ms =>
    cases hs'
    exact h.wait ms
  | issue userId workflowId stamp tokenId =>
    obtain ⟨hnew, ⟨⟩⟩ := Option.ite_none_left_eq_some.mp hs'
    exact h.issue hnew
  | post userId token =>
    obtain ⟨g, hg, hs'⟩ := Option.bind_eq_some_iff.mp hs'
    split at hs'
    · cases hs'
      exact h
    · rename_i g' hverified
      cases hs'
      obtain ⟨-, ⟨⟩⟩ := Option.ite_none_left_eq_some.mp hverified
      exact h.post (List.mem_of_getElem? hg)
  | refuse i =>
    obtain ⟨a, hi, hs'⟩ := Option.bind_eq_some_iff.mp hs'
    obtain ⟨hstage, ⟨⟩⟩ := Option.ite_none_right_eq_some.mp hs'
    refine h.finish hi (fun hlive => ?_) fun hj _ => h.used hj
    simp [Start.live, Start.goesOn, hstage] at hlive
  | claim i reply =>
    obtain ⟨a, hi, hs''⟩ := Option.bind_eq_some_iff.mp hs'
    obtain ⟨hstage, -⟩ := Option.ite_none_right_eq_some.mp hs''
    exact h.claim hi hstage htest hs'
  | create i =>
    obtain ⟨a, hi, hs'⟩ := Option.bind_eq_some_iff.mp hs'
    obtain ⟨hstage, ⟨⟩⟩ := Option.ite_none_right_eq_some.mp hs'
    exact h.create hi hstage
  | raise i =>
    obtain ⟨a, hi, hs'⟩ := Option.bind_eq_some_iff.mp hs'
    obtain ⟨hstage, ⟨⟩⟩ := Option.ite_none_right_eq_some.mp hs'
    have hgoes : a.goesOn = true := by
      simp only [List.mem_cons, List.not_mem_nil, or_false] at hstage
      rcases hstage with he | he | he <;> simp [Start.goesOn, he]
    exact h.stay hi hgoes rfl (by decide)
  | dispatch i accepted raised =>
    obtain ⟨a, hi, hs'⟩ := Option.bind_eq_some_iff.mp hs'
    obtain ⟨⟨hstage, -⟩, ⟨⟩⟩ := Option.ite_none_right_eq_some.mp hs'
    have hgoes : a.goesOn = true := by simp [Start.goesOn, hstage]
    cases accepted with
    | true =>
      exact h.goOnWith hi hgoes (by cases raised <;> rfl) (by cases raised <;> decide)
        (fun _ => rfl) fun _ _ => .inr rfl
    | false => exact h.stay hi hgoes (by cases raised <;> rfl) (by cases raised <;> decide)
  | record i ok =>
    obtain ⟨a, hi, hs'⟩ := Option.bind_eq_some_iff.mp hs'
    obtain ⟨hstage, ⟨⟩⟩ := Option.ite_none_right_eq_some.mp hs'
    have hgoes : a.goesOn = true := by simp [Start.goesOn, hstage]
    exact h.stay hi hgoes (by cases ok <;> rfl) (by cases ok <;> decide)
  | markFailed i ok =>
    obtain ⟨a, hi, hs'⟩ := Option.bind_eq_some_iff.mp hs'
    obtain ⟨hstage, ⟨⟩⟩ := Option.ite_none_right_eq_some.mp hs'
    have hgoes : a.goesOn = true := by simp [Start.goesOn, hstage]
    cases ok with
    | true =>
      refine h.goOnWith hi hgoes rfl (by decide) (fun run => ?_) fun run halive => ?_
      · unfold TokenRun.fail
        split <;> rfl
      · unfold TokenRun.fail at halive ⊢
        split at halive
        · rename_i hover
          rw [if_pos hover]
          exact .inl ⟨halive, rfl⟩
        · rename_i hopen
          rw [if_neg hopen]
          refine .inl ⟨?_, rfl⟩
          simp only [TokenRun.alive] at halive ⊢
          simpa using .inl (by simpa using halive)
    | false => exact h.stay hi hgoes rfl (by decide)
  | release i reply =>
    obtain ⟨a, hi, hs'⟩ := Option.bind_eq_some_iff.mp hs'
    obtain ⟨hstage, ⟨⟩⟩ := Option.ite_none_right_eq_some.mp hs'
    exact h.release hi hstage htest
  | confirm i reply =>
    obtain ⟨a, hi, hs'⟩ := Option.bind_eq_some_iff.mp hs'
    obtain ⟨hstage, ⟨⟩⟩ := Option.ite_none_right_eq_some.mp hs'
    cases reply with
    | answered => exact h.confirm hi hstage
    | failed applied =>
      cases applied with
      | true => exact h.confirm hi hstage
      | false => cases htest
  | crash i =>
    obtain ⟨a, hi, hs'⟩ := Option.bind_eq_some_iff.mp hs'
    obtain ⟨-, ⟨⟩⟩ := Option.ite_none_right_eq_some.mp hs'
    refine h.finish hi (fun _ run hrun => ?_) fun hj _ => h.used hj
    simpa [settlesInTime, hi, hrun] using htest
  | take r =>
    obtain ⟨run, hr, hs'⟩ := Option.bind_eq_some_iff.mp hs'
    obtain ⟨⟨haccepted, hpending⟩, ⟨⟩⟩ := Option.ite_none_right_eq_some.mp hs'
    exact h.take hr (by simp [TokenRun.alive, haccepted, hpending])

/-- Two executed runs of one token belong to one start. -/
theorem oneRunPerToken (h : Invariant s) : OneRunPerToken s := by
  intro g hg r r' run run' t t' hr hr' htoken htoken' hat hat' hlt hlt' hex hex'
  have halive : run.alive = true := by simp [TokenRun.alive, hex]
  have halive' : run'.alive = true := by simp [TokenRun.alive, hex']
  obtain ⟨i, a, hi, hown, hlive, hclaimed⟩ := h.alive hr halive
  obtain ⟨j, b, hj, hown', hlive', hclaimed'⟩ := h.alive hr' halive'
  have hgrant : ∀ {k : ℕ} {c : Start} {q : ℕ} {e : TokenRun}, s.starts[k]? = some c →
      c.runId = some q → s.runs[q]? = some e → e.tokenId = g.tokenId → c.grant = g := by
    intro k c q e hk hq he hid
    obtain ⟨e', he', hid'⟩ := h.owned hk hq
    rw [he] at he'
    cases he'
    exact List.inj_on_of_nodup_map h.ids (h.grants hk) hg (hid'.symm.trans hid)
  have ha := hgrant hi hown hr htoken
  have hb := hgrant hj hown' hr' htoken'
  have hij : i = j := by
    refine h.sole hi hj hlive hlive' (ha.trans hb.symm) ?_ ?_
    · rw [ha]
      exact (hclaimed t hat).trans_lt hlt
    · rw [hb]
      exact (hclaimed' t' hat').trans_lt hlt'
  subst hij
  rw [hi] at hj
  cases hj
  rw [hown] at hown'
  exact Option.some.inj hown'

end Invariant

/-- However often a token is posted and whatever fails: when claims do not lapse under a start,
confirmations reach the store and a start that ends without one leaves no run to the engine, the
token starts at most one run. -/
theorem confirmed_oneRun {moves : List Move} {s : ConfirmSystem}
    (hrun : runSteps step {} moves = some s) (htest : along step settlesInTime {} moves = true) :
    OneRunPerToken s := by
  have hkeeps : ∀ s move s', settlesInTime s move = true → step s move = some s' →
      Invariant s → Invariant s' :=
    fun _ _ _ htest hs' h => h.step htest hs'
  exact (runSteps_induction hkeeps hrun htest Invariant.init).oneRunPerToken

section Examples

def postedTwice : List Move :=
  [.issue 1 7 "stamp" "id", .post 1 0, .post 1 0, .claim 0 .answered]

def startsRun (start run : ℕ) : List Move :=
  [.create start, .dispatch start true false, .take run, .record start true]

def slowStart : List Move :=
  postedTwice ++ [.wait 60000, .claim 1 .answered] ++ startsRun 0 0 ++ startsRun 1 1

def lostConfirmation : List Move :=
  postedTwice ++ startsRun 0 0 ++ [.confirm 0 (.failed false), .wait 60000, .claim 1 .answered] ++
    startsRun 1 1

def lateDispatchError : List Move :=
  postedTwice ++ [.create 0, .dispatch 0 true true, .take 0, .markFailed 0 true,
    .release 0 .answered, .claim 1 .answered] ++ startsRun 1 1

theorem not_oneRunPerToken {s : ConfirmSystem} {grant : WorkflowRunGrant} {run run' : TokenRun}
    (hs : (s.issued, s.runs) = ([grant], [run, run']))
    (hboth : ∀ r ∈ [run, run'], r.tokenId = grant.tokenId ∧ r.executed = true ∧
      ∃ t < grant.expiresAt, r.acceptedAt = some t) : ¬ OneRunPerToken s := by
  intro hone
  obtain ⟨hissued, hruns⟩ := Prod.mk.inj hs
  obtain ⟨htoken, hexecuted, t, ht, haccepted⟩ := hboth run (by simp)
  obtain ⟨htoken', hexecuted', t', ht', haccepted'⟩ := hboth run' (by simp)
  have hsame := hone grant (by simp [hissued]) 0 1 run run' t t' (by simp [hruns])
    (by simp [hruns]) htoken htoken' haccepted haccepted' ht ht' hexecuted hexecuted'
  omega

def EndsInTwoRuns (moves : List Move) : Prop :=
  ∃ s, runSteps step {} moves = some s ∧ ¬ OneRunPerToken s

theorem endsInTwoRuns {moves : List Move} (status : RunStatus) (t t' : ℕ)
    (hend : (runSteps step {} moves).map (fun s => (s.issued, s.runs)) =
      some ([⟨1, 7, "stamp", "id", 600000⟩],
        [⟨"id", status, some t, true⟩, ⟨"id", .running, some t', true⟩]))
    (ht : t < 600000) (ht' : t' < 600000) : EndsInTwoRuns moves := by
  obtain ⟨s, hs, hruns⟩ := Option.map_eq_some_iff.mp hend
  refine ⟨s, hs, not_oneRunPerToken hruns ?_⟩
  intro r hr
  simp only [List.mem_cons, List.not_mem_nil, or_false] at hr
  rcases hr with rfl | rfl
  · exact ⟨rfl, rfl, t, ht, rfl⟩
  · exact ⟨rfl, rfl, t', ht', rfl⟩

theorem slowStart_twoRuns :
    EndsInTwoRuns slowStart ∧ EndsInTwoRuns lostConfirmation ∧ EndsInTwoRuns lateDispatchError := by
  constructor
  · apply endsInTwoRuns .running 60000 60000 <;> decide
  constructor
  · apply endsInTwoRuns .running 0 60000 <;> decide
  · apply endsInTwoRuns .failed 0 0 <;> decide

/-- A double click starts one run. -/
theorem postedTwice_oneRun : ∃ s, runSteps step {} (postedTwice ++ [.claim 1 .answered] ++
    startsRun 0 0 ++ [.confirm 0 .answered, .wait 599000, .post 1 0, .claim 2 .answered]) = some s ∧
    s.runs.map TokenRun.executed = [true] ∧ OneRunPerToken s := by
  have hend : (runSteps step {} (postedTwice ++ [.claim 1 .answered] ++ startsRun 0 0 ++
      [.confirm 0 .answered, .wait 599000, .post 1 0, .claim 2 .answered])).map
        (fun s => s.runs.map TokenRun.executed) = some [true] := by
    decide
  obtain ⟨s, hs, hruns⟩ := Option.map_eq_some_iff.mp hend
  exact ⟨s, hs, hruns, confirmed_oneRun hs (by decide)⟩

end Examples

end Manus.Assistant
