import Manus.Auth.LoginRateLimiter
import Manus.Lib.SlidingWindow
import Mathlib.Data.List.Nodup
import Mathlib.Data.List.Perm.Subperm
import Mathlib.Data.List.TakeWhile

/-! # No more attempts than the limit

However calls interleave and whatever Redis does, no span of one window has more attempts
that were let through than the limit allows, in Redis and in each worker. While Redis
answers, an attempt is refused only if the span has no room.
-/

namespace Manus.RateLimit

variable {limiter : Limiter} {now worker member : ℕ} {key : String} {place : Option ℕ} {e : Entry}
  {w : Windows} {s s' : LimiterState} {answer : RedisAnswer}

section Noted

/-- An entry is found where it was noted, and Redis keeps it long enough. -/
def Windows.Notes (w : Windows) (limiter : Limiter) (key : String) (e : Entry) :
    Option ℕ → Prop
  | none => ∃ set, w.redis key = some set ∧ e ∈ set.entries ∧ e.2 + limiter.window ≤ set.expires
  | some worker => e ∈ w.fallbackAttempts worker key

def Limiter.Counts (limiter : Limiter) (now : ℕ) (e : Entry) : Prop :=
  e.2 ≤ now ∧ now < e.2 + limiter.window

theorem mem_entriesAt (h : w.Notes limiter key e none) (hcounts : limiter.Counts now e) :
    e ∈ w.entriesAt key now := by
  obtain ⟨set, hset, hmem, hexpires⟩ := h
  rw [Windows.entriesAt, hset]
  change e ∈ if now < set.expires then set.entries else []
  rwa [if_pos (hcounts.2.trans_le hexpires)]

theorem mem_dropWhile_of_not {α : Type} {p : α → Bool} {x : α} {l : List α} (h : x ∈ l)
    (hx : p x = false) : x ∈ l.dropWhile p := by
  rw [← List.takeWhile_append_dropWhile (p := p) (l := l), List.mem_append] at h
  rcases h with htaken | hleft
  · rw [List.mem_takeWhile_imp htaken] at hx
    cases hx
  · exact hleft

theorem mem_countFallback (h : w.Notes limiter key e (some worker))
    (hcounts : limiter.Counts now e) : e ∈ w.countFallback key limiter now worker :=
  mem_dropWhile_of_not h (decide_eq_false (Nat.not_lt.mpr hcounts.2.le))

theorem setRedis_redis {set : Option SortedSet} :
    (w.setRedis key set).redis = Function.update w.redis key set := rfl

theorem setFallback_at {entries : List Entry} {worker' : ℕ} {key' : String} :
    (w.setFallback key worker entries).fallbackAttempts worker' key' =
      if worker' = worker ∧ key' = key then entries else w.fallbackAttempts worker' key' := by
  change Function.update w.fallbackAttempts worker _ worker' key' = _
  by_cases hworker : worker' = worker
  · subst hworker
    by_cases hkey : key' = key <;> simp [hkey]
  · simp [hworker]

/-- What Redis holds under a key is changed so that the entry stays. -/
theorem Windows.Notes.setRedis {key' : String} {set' : Option SortedSet}
    (h : w.Notes limiter key e place)
    (hset' : key' = key → w.Notes limiter key e none →
      ∃ set, set' = some set ∧ e ∈ set.entries ∧ e.2 + limiter.window ≤ set.expires) :
    (w.setRedis key' set').Notes limiter key e place := by
  cases place with
  | some worker => exact h
  | none =>
    rw [Windows.Notes, setRedis_redis]
    by_cases hkey : key' = key
    · obtain ⟨set, rfl, hset⟩ := hset' hkey h
      subst hkey
      exact ⟨set, Function.update_self .., hset⟩
    · rw [Function.update_of_ne (Ne.symm hkey)]
      exact h

/-- What a worker holds under a key is changed so that the entry stays. -/
theorem Windows.Notes.setFallback {key' : String} {entries : List Entry}
    (h : w.Notes limiter key e place)
    (hentries : key' = key → w.Notes limiter key e (some worker) → e ∈ entries) :
    (w.setFallback key' worker entries).Notes limiter key e place := by
  cases place with
  | none => exact h
  | some worker' =>
    rw [Windows.Notes, setFallback_at]
    split
    · next hsame =>
      obtain ⟨rfl, rfl⟩ := hsame
      exact hentries rfl h
    · exact h

end Noted

section Reserving

variable {key' : String}

theorem mem_kept (h : w.Notes limiter key e none) (hcounts : limiter.Counts now e) :
    e ∈ (w.entriesAt key now).filter fun e => now < e.2 + limiter.window :=
  List.mem_filter.mpr ⟨mem_entriesAt h hcounts, decide_eq_true hcounts.2⟩

theorem Windows.Notes.checkAndRecordRedis (h : w.Notes limiter key e place)
    (hcounts : limiter.Counts now e) (key' : String) (member : ℕ) :
    (checkAndRecordRedis limiter now key' member w).2.Notes limiter key e place := by
  unfold RateLimit.checkAndRecordRedis
  dsimp only
  split
  · refine h.setRedis ?_
    rintro rfl hnotes
    obtain ⟨set, hset, -, hexpires⟩ := id hnotes
    exact ⟨⟨_, set.expires⟩, congrArg (Option.map _) hset, mem_kept hnotes hcounts, hexpires⟩
  · refine h.setRedis ?_
    rintro rfl hnotes
    exact ⟨_, rfl, List.mem_append_left _ (mem_kept hnotes hcounts),
      Nat.add_le_add_right hcounts.1 _⟩

theorem Windows.Notes.checkAndRecordFallback (h : w.Notes limiter key e place)
    (hcounts : limiter.Counts now e) :
    (checkAndRecordFallback limiter now worker key' member w).2.Notes limiter key e place := by
  unfold RateLimit.checkAndRecordFallback
  dsimp only
  split
  · refine h.setFallback ?_
    rintro rfl hmem
    exact mem_countFallback hmem hcounts
  · refine h.setFallback ?_
    rintro rfl hmem
    exact List.mem_append_left _ (mem_countFallback hmem hcounts)

/-- A reservation leaves what still counts where it is. -/
theorem Windows.Notes.reserve (h : w.Notes limiter key e place) (hcounts : limiter.Counts now e) :
    (reserve limiter now worker key' member w answer).2.Notes limiter key e place := by
  have hasked := h.checkAndRecordRedis hcounts key' member
  cases answer with
  | replied => exact hasked
  | lost =>
    unfold RateLimit.reserve
    dsimp only
    split
    · exact hasked
    · exact hasked.checkAndRecordFallback hcounts
  | unreachable =>
    unfold RateLimit.reserve
    dsimp only
    split
    · exact h
    · exact h.checkAndRecordFallback hcounts

/-- What a place has noted under a key leaves room for one more. -/
def Windows.Room (w : Windows) (limiter : Limiter) (now : ℕ) (key : String)
    (place : Option ℕ) : Prop :=
  ∃ kept : List Entry, kept.length < limiter.attempts ∧
    ∀ e, w.Notes limiter key e place → limiter.Counts now e → e ∈ kept

theorem checkAndRecordRedis_allowed
    (h : (checkAndRecordRedis limiter now key member w).1 = true) :
    (checkAndRecordRedis limiter now key member w).2.Notes limiter key (member, now) none ∧
      w.Room limiter now key none := by
  unfold checkAndRecordRedis at h ⊢
  dsimp only at h ⊢
  split at h
  · cases h
  · next hroom =>
    rw [if_neg hroom]
    refine ⟨⟨_, Function.update_self .., List.mem_concat_self, le_rfl⟩, _, not_le.mp hroom, ?_⟩
    intro e hnotes hcounts
    exact mem_kept hnotes hcounts

theorem checkAndRecordFallback_allowed
    (h : (checkAndRecordFallback limiter now worker key member w).1 = true) :
    (checkAndRecordFallback limiter now worker key member w).2.Notes limiter key (member, now)
      (some worker) ∧ w.Room limiter now key (some worker) := by
  unfold checkAndRecordFallback at h ⊢
  dsimp only at h ⊢
  split at h
  · cases h
  · next hroom =>
    rw [if_neg hroom]
    refine ⟨?_, _, not_le.mp hroom, fun e hnotes hcounts => mem_countFallback hnotes hcounts⟩
    rw [Windows.Notes, setFallback_at, if_pos ⟨rfl, rfl⟩]
    exact List.mem_concat_self

/-- An attempt that is let through is noted, and there was room for it. -/
theorem reserve_allowed (h : (reserve limiter now worker key member w answer).1 = true) :
    (reserve limiter now worker key member w answer).2.Notes limiter key (member, now)
      (if answer = .replied then none else some worker) ∧
    w.Room limiter now key (if answer = .replied then none else some worker) := by
  cases answer with
  | replied => exact checkAndRecordRedis_allowed h
  | lost =>
    unfold reserve at h ⊢
    dsimp only at h ⊢
    split at h
    · cases h
    · next hclosed =>
      rw [if_neg hclosed]
      obtain ⟨hnoted, kept, hlength, hkept⟩ := checkAndRecordFallback_allowed h
      exact ⟨hnoted, kept, hlength, fun e hnotes hcounts =>
        hkept e (hnotes.checkAndRecordRedis hcounts _ _) hcounts⟩
  | unreachable =>
    unfold reserve at h ⊢
    dsimp only at h ⊢
    split at h
    · cases h
    · next hclosed =>
      rw [if_neg hclosed]
      exact checkAndRecordFallback_allowed h

end Reserving

section GivingBack

variable {key' : String}

/-- What is told leaves the entry where it is, if both orders do. -/
theorem Windows.Notes.tell {f : SortedSet → Option SortedSet} {entries : List Entry}
    (h : w.Notes limiter key e place)
    (hset : key' = key → ∀ set, e ∈ set.entries →
      ∃ set', f set = some set' ∧ e ∈ set'.entries ∧ set'.expires = set.expires)
    (hentries : key' = key → e ∈ w.fallbackAttempts worker key → e ∈ entries) :
    (tell worker key' w answer f entries).Notes limiter key e place := by
  unfold RateLimit.tell
  dsimp only
  split
  · exact h.setFallback hentries
  · refine Windows.Notes.setFallback (h.setRedis fun hkey hnotes => ?_) hentries
    obtain ⟨set, hredis, hmem, hexpires⟩ := hnotes
    obtain ⟨set', hset', hmem', hexpires'⟩ := hset hkey set hmem
    refine ⟨set', ?_, hmem', hexpires'.symm ▸ hexpires⟩
    rw [hkey, hredis]
    exact hset'

theorem Windows.Notes.release (h : w.Notes limiter key e place) (hother : e.1 ≠ member) :
    (release worker key' member w answer).Notes limiter key e place := by
  refine h.tell (fun _ set hmem => ⟨_, rfl, ?_, rfl⟩) fun hkey hmem => ?_
  · exact List.mem_filter.mpr ⟨hmem, decide_eq_true hother⟩
  · exact List.mem_filter.mpr ⟨hkey ▸ hmem, decide_eq_true hother⟩

theorem Windows.Notes.clear (h : w.Notes limiter key e place) (hother : key ≠ key') :
    (clear worker key' w answer).Notes limiter key e place :=
  h.tell (fun hkey => absurd hkey.symm hother) fun hkey => absurd hkey.symm hother

end GivingBack

section Runs

def Attempt.entry (a : Attempt) : Entry := (a.member, a.time)

/-- When the attempts under a key were let through that one place has noted. -/
def LimiterState.timesAt (s : LimiterState) (key : String) (place : Option ℕ) : List ℕ :=
  (s.held.filter fun a => a.key = key ∧ a.worker = place).map Attempt.time

structure LimiterInv (limiter : Limiter) (s : LimiterState) : Prop where
  past : ∀ a ∈ s.held, a.time ≤ s.now
  fresh : ∀ a ∈ s.held, a.member < s.nextMember
  members : (s.held.map Attempt.member).Nodup
  notes : ∀ a ∈ s.held, s.now < a.time + limiter.window →
    s.windows.Notes limiter a.key a.entry a.worker
  closed : limiter.failClosed = true → ∀ a ∈ s.held, a.worker = none
  spans : ∀ key place, WithinBudget limiter.attempts limiter.window (s.timesAt key place)

theorem limiterInv_init : LimiterInv limiter {} where
  past _ ha := absurd ha List.not_mem_nil
  fresh _ ha := absurd ha List.not_mem_nil
  members := List.nodup_nil
  notes _ ha := absurd ha List.not_mem_nil
  closed _ _ ha := absurd ha List.not_mem_nil
  spans _ _ := .nil

/-- What a place has room for, the span that ends now has room for. -/
theorem LimiterInv.span_lt (h : LimiterInv limiter s) (hnow : s.now ≤ now)
    (hroom : s.windows.Room limiter now key place) :
    (spanOf limiter.window now (s.timesAt key place)).length < limiter.attempts := by
  obtain ⟨kept, hlength, hkept⟩ := hroom
  rw [spanOf, LimiterState.timesAt, List.filter_map, List.length_map]
  refine lt_of_le_of_lt ?_ hlength
  rw [← List.length_map Attempt.entry]
  refine (List.Nodup.subperm ?_ ?_).length_le
  · refine List.Nodup.of_map Prod.fst ?_
    rw [List.map_map]
    exact h.members.sublist ((List.filter_sublist.trans List.filter_sublist).map _)
  · intro e he
    obtain ⟨a, ha, rfl⟩ := List.mem_map.mp he
    simp only [List.mem_filter, Function.comp_apply, decide_eq_true_iff] at ha
    obtain ⟨⟨hheld, rfl, rfl⟩, hspan⟩ := ha
    exact hkept _ (h.notes a hheld (hnow.trans_lt hspan.2)) hspan

/-- Attempts may go, as long as those that count stay where they were noted. -/
theorem LimiterInv.shrink {windows : Windows} {nextMember : ℕ} {held : List Attempt}
    (h : LimiterInv limiter s) (hnow : s.now ≤ now) (hnext : s.nextMember ≤ nextMember)
    (hsub : held.Sublist s.held)
    (hnotes : ∀ a ∈ held, limiter.Counts now a.entry →
      s.windows.Notes limiter a.key a.entry a.worker →
      windows.Notes limiter a.key a.entry a.worker) :
    LimiterInv limiter ⟨now, windows, nextMember, held⟩ where
  past a ha := (h.past a (hsub.subset ha)).trans hnow
  fresh a ha := (h.fresh a (hsub.subset ha)).trans_le hnext
  members := h.members.sublist (hsub.map _)
  notes a ha hlt := hnotes a ha ⟨(h.past a (hsub.subset ha)).trans hnow, hlt⟩
    (h.notes a (hsub.subset ha) (hnow.trans_lt hlt))
  closed hclosed a ha := h.closed hclosed a (hsub.subset ha)
  spans key place := (h.spans key place).sublist ((hsub.filter _).map _)

/-- One more attempt, where the span has room for it. -/
theorem LimiterInv.concat (h : LimiterInv limiter ⟨now, w, member + 1, s.held⟩)
    (hfresh : ∀ a ∈ s.held, a.member < member)
    (hnoted : w.Notes limiter key (member, now) place)
    (hclosed : limiter.failClosed = true → place = none)
    (hroom : (spanOf limiter.window now (s.timesAt key place)).length < limiter.attempts) :
    LimiterInv limiter ⟨now, w, member + 1, s.held ++ [⟨key, place, member, now⟩]⟩ where
  past := List.forall_mem_append.mpr ⟨h.past, List.forall_mem_singleton.mpr le_rfl⟩
  fresh := List.forall_mem_append.mpr
    ⟨h.fresh, List.forall_mem_singleton.mpr (Nat.lt_succ_self _)⟩
  members := by
    rw [List.map_append, List.map_singleton, List.nodup_append]
    refine ⟨h.members, List.nodup_singleton _, fun m hm m' hm' => ?_⟩
    obtain ⟨a, ha, rfl⟩ := List.mem_map.mp hm
    obtain rfl := List.mem_singleton.mp hm'
    exact (hfresh a ha).ne
  notes := List.forall_mem_append.mpr ⟨h.notes, List.forall_mem_singleton.mpr fun _ => hnoted⟩
  closed hfail := List.forall_mem_append.mpr
    ⟨h.closed hfail, List.forall_mem_singleton.mpr (hclosed hfail)⟩
  spans key' place' := by
    rw [LimiterState.timesAt, List.filter_append, List.map_append]
    by_cases hplace : key = key' ∧ place = place'
    · obtain ⟨rfl, rfl⟩ := hplace
      rw [List.filter_cons_of_pos (by simp), List.filter_nil]
      refine (h.spans key place).concat (fun t ht => ?_) hroom
      obtain ⟨a, ha, rfl⟩ := List.mem_map.mp ht
      exact h.past a (List.mem_filter.mp ha).1
    · rw [List.filter_cons_of_neg (by simpa using hplace), List.filter_nil, List.map_nil,
        List.append_nil]
      exact h.spans key' place'

theorem LimiterInv.reserve (h : LimiterInv limiter s) (hnow : s.now ≤ now)
    (hs' : s.handle limiter now answer (.reserve worker key) = some s') :
    LimiterInv limiter s' := by
  cases hs'
  have hkept : LimiterInv limiter ⟨now, (RateLimit.reserve limiter now worker key s.nextMember
      s.windows answer).2, s.nextMember + 1, s.held⟩ :=
    h.shrink hnow (Nat.le_succ _) (List.Sublist.refl _) fun _ _ hcounts hnotes =>
      hnotes.reserve hcounts
  by_cases hallowed : (RateLimit.reserve limiter now worker key s.nextMember s.windows answer).1
  · rw [if_pos hallowed]
    obtain ⟨hnoted, hroom⟩ := reserve_allowed hallowed
    refine hkept.concat h.fresh hnoted (fun hfail => if_pos ?_) (h.span_lt hnow hroom)
    cases answer with
    | replied => rfl
    | lost | unreachable => simp [RateLimit.reserve, hfail] at hallowed
  · rw [if_neg hallowed]
    exact hkept

theorem LimiterInv.release {n : ℕ} (h : LimiterInv limiter s) (hnow : s.now ≤ now)
    (hs' : s.handle limiter now answer (.release worker n) = some s') :
    LimiterInv limiter s' := by
  obtain ⟨attempt, hattempt, rfl⟩ := Option.map_eq_some_iff.mp hs'
  obtain ⟨hn, rfl⟩ := List.getElem?_eq_some_iff.mp hattempt
  refine h.shrink hnow le_rfl (List.eraseIdx_sublist _ _) fun a ha _ hnotes => hnotes.release ?_
  -- the other attempts have other ids
  have hmembers := h.members
  rw [← ((List.getElem_cons_eraseIdx_perm hn).map Attempt.member).nodup_iff, List.map_cons,
    List.nodup_cons] at hmembers
  rintro heq
  exact hmembers.1 (heq ▸ List.mem_map_of_mem ha)

theorem LimiterInv.step {move : Move} (h : LimiterInv limiter s)
    (hs' : limiterStep limiter s move = some s') : LimiterInv limiter s' := by
  obtain ⟨now, answer, call⟩ := move
  unfold limiterStep at hs'
  split at hs'
  · next hnow =>
    cases call with
    | reserve worker key => exact h.reserve hnow hs'
    | release worker n => exact h.release hnow hs'
    | clear worker key =>
      cases hs'
      refine h.shrink hnow le_rfl List.filter_sublist fun a ha _ hnotes => hnotes.clear ?_
      exact of_decide_eq_true (List.mem_filter.mp ha).2
  · cases hs'

/-- In every run no span of one window has more attempts that were let through than the limit
allows, of those that one place has noted; of all, if the limiter fails closed. -/
theorem attempts_limited {moves : List Move}
    (hrun : runSteps (limiterStep limiter) {} moves = some s) (key : String) :
    (∀ place, WithinBudget limiter.attempts limiter.window (s.timesAt key place)) ∧
    (limiter.failClosed = true → WithinBudget limiter.attempts limiter.window
      ((s.held.filter fun a => a.key = key).map Attempt.time)) := by
  have h := runSteps_invariant (fun _ _ _ hstep h => LimiterInv.step h hstep) hrun
    limiterInv_init
  refine ⟨h.spans key, fun hclosed => ?_⟩
  convert h.spans key none using 2
  rw [LimiterState.timesAt]
  congr 1
  refine List.filter_congr fun a ha => ?_
  simp [h.closed hclosed a ha]

def sampleLimiter : Limiter where
  attempts := 2
  window := 60
  failClosed := false

/-- Redis goes away after two attempts, and the worker lets one more through. -/
def outage : List Move :=
  [⟨0, .replied, .reserve 1 "ip"⟩, ⟨10, .replied, .reserve 1 "ip"⟩,
    ⟨20, .replied, .reserve 1 "ip"⟩, ⟨30, .unreachable, .reserve 1 "ip"⟩]

theorem outage_limited : ∃ s, runSteps (limiterStep sampleLimiter) {} outage = some s ∧
    s.timesAt "ip" none = [0, 10] ∧ s.timesAt "ip" (some 1) = [30] ∧
    ∀ place, WithinBudget 2 60 (s.timesAt "ip" place) := by
  obtain ⟨s, hrun⟩ : ∃ s, runSteps (limiterStep sampleLimiter) {} outage = some s := ⟨_, rfl⟩
  refine ⟨s, hrun, ?_, ?_, (attempts_limited hrun "ip").1⟩
  · cases hrun
    decide
  · cases hrun
    decide

end Runs

section WhileRedisAnswers

/-- A sorted set has nothing that counts but what was let through under its key. -/
def SortedSet.Backed (set : SortedSet) (limiter : Limiter) (s : LimiterState) (key : String) :
    Prop :=
  set.entries.Nodup ∧ ∀ e ∈ set.entries, e.1 < s.nextMember ∧
    (s.now < e.2 + limiter.window → ∃ a ∈ s.held, a.key = key ∧ a.entry = e)

structure Answered (limiter : Limiter) (s : LimiterState) : Prop where
  inv : LimiterInv limiter s
  inRedis : ∀ a ∈ s.held, a.worker = none
  backed : ∀ key set, s.windows.redis key = some set → set.Backed limiter s key

theorem answered_init : Answered limiter {} where
  inv := limiterInv_init
  inRedis _ ha := absurd ha List.not_mem_nil
  backed _ _ hset := absurd hset (Option.some_ne_none _).symm

/-- What the script keeps is backed. -/
theorem Answered.kept (h : Answered limiter s) (key : String) (now : ℕ) :
    ((s.windows.entriesAt key now).filter fun e => now < e.2 + limiter.window).Nodup ∧
    ∀ e ∈ (s.windows.entriesAt key now).filter fun e => now < e.2 + limiter.window,
      e.1 < s.nextMember ∧ now < e.2 + limiter.window ∧
      (s.now < e.2 + limiter.window → ∃ a ∈ s.held, a.key = key ∧ a.entry = e) := by
  rw [Windows.entriesAt]
  cases hset : s.windows.redis key with
  | none => exact ⟨List.nodup_nil, fun _ he => absurd he List.not_mem_nil⟩
  | some set =>
    obtain ⟨hnodup, hbacked⟩ := h.backed key set hset
    dsimp only
    split
    · refine ⟨hnodup.filter _, fun e he => ?_⟩
      obtain ⟨hmem, hcounts⟩ := List.mem_filter.mp he
      exact ⟨(hbacked e hmem).1, of_decide_eq_true hcounts, (hbacked e hmem).2⟩
    · exact ⟨List.nodup_nil, fun _ he => absurd he List.not_mem_nil⟩

/-- Redis has at most what counts now. -/
theorem Answered.kept_le (h : Answered limiter s) (hnow : s.now ≤ now) (key : String) :
    ((s.windows.entriesAt key now).filter fun e => now < e.2 + limiter.window).length ≤
      (spanOf limiter.window now (s.timesAt key none)).length := by
  obtain ⟨hnodup, hkept⟩ := h.kept key now
  rw [spanOf, LimiterState.timesAt, List.filter_map, List.length_map,
    ← List.length_map Attempt.entry]
  refine (List.Nodup.subperm hnodup fun e he => ?_).length_le
  obtain ⟨-, hcounts, hheld⟩ := hkept e he
  obtain ⟨a, ha, rfl, rfl⟩ := hheld (hnow.trans_lt hcounts)
  refine List.mem_map_of_mem (List.mem_filter.mpr ⟨List.mem_filter.mpr ⟨ha, ?_⟩, ?_⟩)
  · exact decide_eq_true ⟨rfl, h.inRedis a ha⟩
  · exact decide_eq_true ⟨(h.inv.past a ha).trans hnow, hcounts⟩

/-- The set of one key changes, and with it what was let through under the key. -/
theorem Answered.change {set' : Option SortedSet} (h : Answered limiter s)
    (hinv : LimiterInv limiter s') (hinRedis : ∀ a ∈ s'.held, a.worker = none)
    (hredis : s'.windows.redis = Function.update s.windows.redis key set')
    (hnow : s.now ≤ s'.now) (hnext : s.nextMember ≤ s'.nextMember)
    (hheld : ∀ a ∈ s.held, a.key ≠ key → a ∈ s'.held)
    (hset' : ∀ set, set' = some set → set.Backed limiter s' key) : Answered limiter s' where
  inv := hinv
  inRedis := hinRedis
  backed key' set hset := by
    rw [hredis] at hset
    by_cases hkey : key' = key
    · subst hkey
      rw [Function.update_self] at hset
      exact hset' set hset
    · rw [Function.update_of_ne hkey] at hset
      refine ⟨(h.backed key' set hset).1, fun e he => ?_⟩
      obtain ⟨hfresh, hback⟩ := (h.backed key' set hset).2 e he
      refine ⟨hfresh.trans_le hnext, fun hcounts => ?_⟩
      obtain ⟨a, ha, rfl, hentry⟩ := hback (hnow.trans_lt hcounts)
      exact ⟨a, hheld a ha hkey, rfl, hentry⟩

theorem Answered.step {move : Move} (h : Answered limiter s) (hreplied : move.answer = .replied)
    (hs' : limiterStep limiter s move = some s') : Answered limiter s' := by
  have hinv := h.inv.step hs'
  obtain ⟨now, answer, call⟩ := move
  obtain rfl : answer = .replied := hreplied
  unfold limiterStep at hs'
  split at hs'
  · next hnow =>
    cases call with
    | reserve worker key =>
      cases hs'
      obtain ⟨hnodup, hkept⟩ := h.kept key now
      by_cases hroom : limiter.attempts ≤ ((s.windows.entriesAt key now).filter
          fun e => now < e.2 + limiter.window).length
      · simp only [RateLimit.reserve, checkAndRecordRedis, if_pos hroom] at hinv ⊢
        refine h.change hinv h.inRedis rfl hnow (Nat.le_succ _) (fun a ha _ => ha) ?_
        intro set hset
        obtain ⟨old, -, rfl⟩ := Option.map_eq_some_iff.mp hset
        refine ⟨hnodup, fun e he => ⟨(hkept e he).1.trans (Nat.lt_succ_self _), fun hcounts => ?_⟩⟩
        exact (hkept e he).2.2 (hnow.trans_lt hcounts)
      · simp only [RateLimit.reserve, checkAndRecordRedis, if_neg hroom] at hinv ⊢
        refine h.change hinv ?_ rfl hnow (Nat.le_succ _)
          (fun a ha _ => List.mem_append_left _ ha) ?_
        · exact List.forall_mem_append.mpr ⟨h.inRedis, List.forall_mem_singleton.mpr rfl⟩
        · rintro set ⟨⟩
          refine ⟨?_, fun e he => ?_⟩
          · refine List.Nodup.append hnodup (List.nodup_singleton _) ?_
            rintro e he hnew
            obtain rfl := List.mem_singleton.mp hnew
            exact lt_irrefl _ (hkept _ he).1
          · rcases List.mem_append.mp he with hold | hnew
            · refine ⟨(hkept e hold).1.trans (Nat.lt_succ_self _), fun hcounts => ?_⟩
              obtain ⟨a, ha, hback⟩ := (hkept e hold).2.2 (hnow.trans_lt hcounts)
              exact ⟨a, List.mem_append_left _ ha, hback⟩
            · obtain rfl := List.mem_singleton.mp hnew
              exact ⟨Nat.lt_succ_self _, fun _ => ⟨_, List.mem_concat_self, rfl, rfl⟩⟩
    | release worker n =>
      obtain ⟨attempt, hattempt, rfl⟩ := Option.map_eq_some_iff.mp hs'
      obtain ⟨hn, rfl⟩ := List.getElem?_eq_some_iff.mp hattempt
      have hperm := List.getElem_cons_eraseIdx_perm hn
      refine h.change hinv (fun a ha => h.inRedis a (List.mem_of_mem_eraseIdx ha)) rfl hnow le_rfl
        (fun a ha hkey => ?_) fun set hset => ?_
      · rcases List.mem_cons.mp (hperm.mem_iff.mpr ha) with rfl | hleft
        · exact absurd rfl hkey
        · exact hleft
      · obtain ⟨old, hold, hset⟩ := Option.bind_eq_some_iff.mp hset
        cases hset
        refine ⟨(h.backed _ old hold).1.filter _, fun e he => ?_⟩
        obtain ⟨hmem, hother⟩ := List.mem_filter.mp he
        obtain ⟨hfresh, hback⟩ := (h.backed _ old hold).2 e hmem
        refine ⟨hfresh, fun hcounts => ?_⟩
        obtain ⟨a, ha, hkey, rfl⟩ := hback (hnow.trans_lt hcounts)
        refine ⟨a, ?_, hkey, rfl⟩
        rcases List.mem_cons.mp (hperm.mem_iff.mpr ha) with rfl | hleft
        · exact absurd rfl (of_decide_eq_true hother)
        · exact hleft
    | clear worker key =>
      cases hs'
      refine h.change hinv (fun a ha => h.inRedis a (List.mem_of_mem_filter ha)) rfl hnow le_rfl
        (fun a ha hkey => List.mem_filter.mpr ⟨ha, decide_eq_true hkey⟩) fun set hset => ?_
      obtain ⟨old, -, hset⟩ := Option.bind_eq_some_iff.mp hset
      cases hset
  · cases hs'

/-- While Redis has answered every call, an attempt is let through exactly if the span that ends
now has room among the attempts under its key that were let through and not given back. -/
theorem reserve_allowed_iff {moves : List Move}
    (hrun : runSteps (limiterStep limiter) {} moves = some s)
    (hreplied : along (limiterStep limiter) (fun _ move => move.answer = .replied) {} moves = true)
    (hnow : s.now ≤ now) (worker : ℕ) (key : String) :
    (reserve limiter now worker key s.nextMember s.windows .replied).1 = true ↔
      (spanOf limiter.window now (s.timesAt key none)).length < limiter.attempts := by
  have h : Answered limiter s := runSteps_induction
    (fun _ _ _ htest hstep h => Answered.step h (of_decide_eq_true htest) hstep) hrun hreplied
    answered_init
  constructor
  · intro hallowed
    exact h.inv.span_lt hnow (reserve_allowed hallowed).2
  · intro hroom
    have hkept := (h.kept_le hnow key).trans_lt hroom
    simp [reserve, checkAndRecordRedis, not_le.mpr hkept]

def refund : List Move :=
  [⟨0, .replied, .reserve 1 "ip"⟩, ⟨10, .replied, .reserve 2 "ip"⟩, ⟨20, .replied, .release 2 1⟩]

theorem refund_allowed : ∃ s, runSteps (limiterStep sampleLimiter) {} refund = some s ∧
    (reserve sampleLimiter 30 1 "ip" s.nextMember s.windows .replied).1 = true := by
  obtain ⟨s, hrun⟩ : ∃ s, runSteps (limiterStep sampleLimiter) {} refund = some s := ⟨_, rfl⟩
  have hnow : s.now ≤ 30 := by
    cases hrun
    decide
  refine ⟨s, hrun, (reserve_allowed_iff hrun (by decide) hnow 1 "ip").mpr ?_⟩
  cases hrun
  decide

end WhileRedisAnswers

end Manus.RateLimit
