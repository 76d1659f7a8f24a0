import Manus.Git.RepoLock
import Manus.Lib.Table

/-! # The lock is exclusive where it is checked

A key holds the token of the last grant or of none. So a renewal that succeeds shows
that nobody else was granted the lock, and one that does not raises the flag. The
renewing thread has no other way out: the process of a lease has a cache, and keeps it.
While a renewal hangs, though, the check finds nothing, however long the lease is lost.
-/

namespace Manus.Git

open LockSystem

section Commands

variable {redis redis' : Redis} {now token n expiry : ℕ} {key key' : String} {reply : Reply}
  {command : Redis × Bool} {answer : Option Bool}

theorem get_eq_some (h : redis.get now key = some token) :
    ∃ expiry, redis key = some (token, expiry) := by
  obtain ⟨⟨token', expiry⟩, hvalue, hlive⟩ := Option.bind_eq_some_iff.mp h
  obtain ⟨-, ⟨⟩⟩ := Option.ite_none_right_eq_some.mp hlive
  exact ⟨expiry, hvalue⟩

theorem setNx_token (h : (redis.setNx now key n).1 key' = some (token, expiry)) :
    redis key' = some (token, expiry) ∨ key' = key ∧ token = n := by
  unfold Redis.setNx at h
  split at h
  · simp only [Function.update_apply] at h
    split at h
    · rename_i he
      cases h
      exact .inr ⟨he, rfl⟩
    · exact .inl h
  · exact .inl h

theorem compareAndExpire_token
    (h : (redis.compareAndExpire now key n).1 key' = some (token, expiry)) :
    ∃ expiry', redis key' = some (token, expiry') := by
  unfold Redis.compareAndExpire at h
  split at h
  · rename_i hheld
    simp only [Function.update_apply] at h
    split at h
    · rename_i he
      cases h
      exact he ▸ get_eq_some hheld
    · exact ⟨expiry, h⟩
  · exact ⟨expiry, h⟩

theorem compareAndDelete_token
    (h : (redis.compareAndDelete now key n).1 key' = some (token, expiry)) :
    ∃ expiry', redis key' = some (token, expiry') := by
  unfold Redis.compareAndDelete at h
  split at h
  · simp only [Function.update_apply] at h
    split at h
    · cases h
    · exact ⟨expiry, h⟩
  · exact ⟨expiry, h⟩

theorem run_redis (redis : Redis) (command : Redis × Bool) (reply : Reply) :
    (reply.run redis command).1 = command.1 ∨ (reply.run redis command).1 = redis := by
  cases reply with
  | answered => exact .inl rfl
  | failed applied =>
    cases applied
    · exact .inr rfl
    · exact .inl rfl

theorem run_answer {answer : Bool} (h : reply.run redis command = (redis', some answer)) :
    redis' = command.1 ∧ command.2 = answer := by
  cases reply with
  | answered =>
    cases h
    exact ⟨rfl, rfl⟩
  | failed applied => cases applied <;> cases h

end Commands

structure Invariant (s : LockSystem) : Prop where
  owned : ∀ {i : ℕ} {lease : GitRepoLease}, s.leases[i]? = some lease → ∃ token attempt,
    lease.value = some token ∧ s.attempts[token]? = some attempt ∧ attempt.outcome = some (.ok i)
  cached : ∀ {i : ℕ} {lease : GitRepoLease}, s.leases[i]? = some lease →
    s.hasCache lease.process = true
  polling : ∀ {n : ℕ} {attempt : Attempt}, s.attempts[n]? = some attempt →
    s.hasCache attempt.process = true
  due : ∀ {i due : ℕ} {lease : GitRepoLease}, s.leases[i]? = some lease →
    lease.waitsUntil = some due → due ≤ s.now + renewEvery
  last : ∀ {i j token expiry : ℕ} {lease other : GitRepoLease}, s.leases[i]? = some lease →
    lease.value = some token → s.redis (lockKey lease.repositoryId) = some (token, expiry) →
    s.leases[j]? = some other → i < j → lease.repositoryId ≠ other.repositoryId
  watched : ∀ {i : ℕ} {lease : GitRepoLease}, s.leases[i]? = some lease → lease.lost = false →
    lease.stopped = false → ∃ due, lease.waitsUntil = some due ∧
      ∀ {j : ℕ} {other : GitRepoLease}, s.leases[j]? = some other → i < j →
        lease.repositoryId = other.repositoryId → due ≤ other.grantedAt + renewEvery

namespace Invariant

variable {s s' : LockSystem}

theorem exclusive (h : Invariant s) : ExclusiveWhereChecked s := by
  intro i j lease other hi hj hlt hrepository hstopped hheld hpassed
  have hlost : lease.lost = false := by
    refine Bool.eq_false_iff.mpr fun hlost => ?_
    rw [GitRepoLease.ensureHeld, if_pos hlost] at hheld
    cases hheld
  obtain ⟨due, hdue, hlater⟩ := h.watched hi hlost hstopped
  have hgrant := hlater hj hlt hrepository
  have hnow := hpassed.2 due hdue
  have hperiod := hpassed.1
  omega

structure Kept (s s' : LockSystem) (i : ℕ) (lease lease' : GitRepoLease) : Prop where
  repositoryId : lease'.repositoryId = lease.repositoryId
  value : lease'.value = lease.value
  process : lease'.process = lease.process
  grantedAt : lease'.grantedAt = lease.grantedAt
  due : ∀ due, lease'.waitsUntil = some due → due ≤ s'.now + renewEvery
  watched : lease'.lost = false → lease'.stopped = false →
    (lease.lost = false ∧ lease.stopped = false ∧ lease'.waitsUntil = lease.waitsUntil) ∨
      (∃ due, lease'.waitsUntil = some due) ∧ ∀ (j : ℕ) (other : GitRepoLease),
        s.leases[j]? = some other → i < j → lease.repositoryId ≠ other.repositoryId

theorem of_kept (h : Invariant s) {f : ℕ → GitRepoLease → GitRepoLease}
    (hleases : ∀ i, s'.leases[i]? = s.leases[i]?.map (f i))
    (hf : ∀ i lease, s.leases[i]? = some lease → Kept s s' i lease (f i lease))
    (hattempts : ∀ (n : ℕ) (attempt : Attempt), s.attempts[n]? = some attempt →
      attempt.outcome ≠ none → s'.attempts[n]? = some attempt)
    (hcache : ∀ process, s.hasCache process = true → s'.hasCache process = true)
    (hpolling : ∀ (n : ℕ) (attempt : Attempt), s'.attempts[n]? = some attempt →
      s'.hasCache attempt.process = true)
    (hredis : ∀ key token expiry, s'.redis key = some (token, expiry) →
      (∃ expiry', s.redis key = some (token, expiry')) ∨
        ∀ (i : ℕ) (lease : GitRepoLease), s.leases[i]? = some lease → lease.value ≠ some token) :
    Invariant s' := by
  have hpast : ∀ {i : ℕ} {lease' : GitRepoLease}, s'.leases[i]? = some lease' →
      ∃ lease, s.leases[i]? = some lease ∧ f i lease = lease' :=
    fun {i _} hi => Option.map_eq_some_iff.mp ((hleases i).symm.trans hi)
  constructor
  case owned =>
    intro i lease' hi'
    obtain ⟨lease, hi, rfl⟩ := hpast hi'
    obtain ⟨token, attempt, hvalue, hattempt, houtcome⟩ := h.owned hi
    refine ⟨token, attempt, (hf i lease hi).value.trans hvalue, ?_, houtcome⟩
    exact hattempts token attempt hattempt (by rw [houtcome]; exact Option.some_ne_none _)
  case cached =>
    intro i lease' hi'
    obtain ⟨lease, hi, rfl⟩ := hpast hi'
    rw [(hf i lease hi).process]
    exact hcache _ (h.cached hi)
  case polling => exact fun {n attempt} => hpolling n attempt
  case due =>
    intro i due lease' hi' hdue
    obtain ⟨lease, hi, rfl⟩ := hpast hi'
    exact (hf i lease hi).due due hdue
  case last =>
    intro i j token expiry lease' other' hi' hvalue hkey hj' hlt
    obtain ⟨lease, hi, rfl⟩ := hpast hi'
    obtain ⟨other, hj, rfl⟩ := hpast hj'
    have hkept := hf i lease hi
    rw [hkept.value] at hvalue
    rw [hkept.repositoryId] at hkey ⊢
    rw [(hf j other hj).repositoryId]
    rcases hredis _ token expiry hkey with ⟨expiry', hkey⟩ | hnone
    · exact h.last hi hvalue hkey hj hlt
    · exact absurd hvalue (hnone i lease hi)
  case watched =>
    intro i lease' hi' hlost' hstopped'
    obtain ⟨lease, hi, rfl⟩ := hpast hi'
    have hkept := hf i lease hi
    rcases hkept.watched hlost' hstopped' with ⟨hlost, hstopped, hsame⟩ | ⟨⟨due, hdue⟩, hlast⟩
    · obtain ⟨due, hdue, hlater⟩ := h.watched hi hlost hstopped
      refine ⟨due, hsame.trans hdue, fun {j other'} hj' hlt hrepository => ?_⟩
      obtain ⟨other, hj, rfl⟩ := hpast hj'
      rw [(hf j other hj).grantedAt]
      rw [hkept.repositoryId, (hf j other hj).repositoryId] at hrepository
      exact hlater hj hlt hrepository
    · refine ⟨due, hdue, fun {j other'} hj' hlt hrepository => ?_⟩
      obtain ⟨other, hj, rfl⟩ := hpast hj'
      rw [hkept.repositoryId, (hf j other hj).repositoryId] at hrepository
      exact absurd hrepository (hlast j other hj hlt)

theorem of_sameLeases (h : Invariant s) (hleases : s'.leases = s.leases) (hnow : s.now ≤ s'.now)
    (hattempts : ∀ (n : ℕ) (attempt : Attempt), s.attempts[n]? = some attempt →
      attempt.outcome ≠ none → s'.attempts[n]? = some attempt)
    (hcache : ∀ process, s.hasCache process = true → s'.hasCache process = true)
    (hpolling : ∀ (n : ℕ) (attempt : Attempt), s'.attempts[n]? = some attempt →
      s'.hasCache attempt.process = true)
    (hredis : ∀ key token expiry, s'.redis key = some (token, expiry) →
      (∃ expiry', s.redis key = some (token, expiry')) ∨
        ∀ (i : ℕ) (lease : GitRepoLease), s.leases[i]? = some lease → lease.value ≠ some token) :
    Invariant s' := by
  refine h.of_kept (f := fun _ lease => lease) (fun i => ?_) (fun i lease hi => ?_) hattempts hcache
    hpolling hredis
  · rw [hleases, Option.map_id']
  · refine ⟨rfl, rfl, rfl, rfl, fun due hdue => ?_, fun hlost hstopped => ?_⟩
    · have hle := h.due hi hdue
      omega
    · exact .inl ⟨hlost, hstopped, rfl⟩

theorem value_ne (h : Invariant s) {n i : ℕ} {attempt : Attempt} {lease : GitRepoLease}
    (hattempt : s.attempts[n]? = some attempt) (hpolling : attempt.outcome = none)
    (hi : s.leases[i]? = some lease) : lease.value ≠ some n := by
  intro hvalue
  obtain ⟨token, attempt', hvalue', hattempt', houtcome⟩ := h.owned hi
  rw [hvalue] at hvalue'
  cases hvalue'
  rw [hattempt] at hattempt'
  cases hattempt'
  rw [hpolling] at houtcome
  cases houtcome

theorem getElem?_finish_ne {n k : ℕ} {outcome : Except RepoLocked ℕ} (hne : k ≠ n) :
    (s.finish n outcome).attempts[k]? = s.attempts[k]? := by
  simp [finish, hne.symm]

theorem getElem?_finish_self {n : ℕ} {attempt : Attempt} {outcome : Except RepoLocked ℕ}
    (hattempt : s.attempts[n]? = some attempt) :
    (s.finish n outcome).attempts[n]? = some { attempt with outcome := some outcome } := by
  simp [finish, hattempt]

theorem getElem?_finish_process {n k : ℕ} {attempt' : Attempt} {outcome : Except RepoLocked ℕ}
    (h : (s.finish n outcome).attempts[k]? = some attempt') :
    ∃ attempt, s.attempts[k]? = some attempt ∧ attempt.process = attempt'.process := by
  rw [finish, List.getElem?_modify] at h
  obtain ⟨attempt, hattempt, rfl⟩ := Option.map_eq_some_iff.mp h
  refine ⟨attempt, hattempt, ?_⟩
  split <;> rfl

/-- The lock is granted to a call that polls. -/
theorem grant (h : Invariant s) {n : ℕ} {attempt : Attempt} {redis : Redis}
    (hattempt : s.attempts[n]? = some attempt) (hpolling : attempt.outcome = none)
    (hset : redis = (s.redis.setNx s.now (lockKey attempt.repositoryId) n).1)
    (hgranted : (s.redis.setNx s.now (lockKey attempt.repositoryId) n).2 = true) :
    Invariant (({ s with redis := redis }.addLease attempt.repositoryId (some n)
      attempt.process).finish n (.ok s.leases.length)) := by
  have hkey : redis (lockKey attempt.repositoryId) = some (n, s.now + lockTtl) := by
    rw [hset]
    unfold Redis.setNx at hgranted ⊢
    split at hgranted
    · simp
    · cases hgranted
  constructor
  case owned =>
    intro i lease hi
    rcases getElem?_concat_some hi with hold | ⟨rfl, rfl⟩
    · obtain ⟨token, attempt', hvalue, hattempt', houtcome⟩ := h.owned hold
      refine ⟨token, attempt', hvalue, (getElem?_finish_ne ?_).trans hattempt', houtcome⟩
      rintro rfl
      exact h.value_ne hattempt hpolling hold hvalue
    · exact ⟨n, _, rfl, getElem?_finish_self hattempt, rfl⟩
  case cached =>
    intro i lease hi
    rcases getElem?_concat_some hi with hold | ⟨rfl, rfl⟩
    · exact h.cached hold
    · exact h.polling hattempt
  case polling =>
    intro k attempt' hk
    obtain ⟨attempt₀, hk₀, hprocess⟩ := getElem?_finish_process hk
    exact hprocess ▸ h.polling hk₀
  case due =>
    intro i due lease hi hdue
    rcases getElem?_concat_some hi with hold | ⟨rfl, rfl⟩
    · exact h.due hold hdue
    · cases hdue
      exact Nat.le_refl _
  case last =>
    intro i j token expiry lease other hi hvalue hredis hj hlt hrepository
    have hilt : i < s.leases.length := by
      have hlen := (List.getElem?_eq_some_iff.mp hj).1
      simp only [finish, addLease, List.length_append, List.length_singleton] at hlen
      omega
    rcases getElem?_concat_some hi with hold | ⟨rfl, -⟩
    · -- the key of this repository holds the token of the new lease, or it is not touched
      have hkey' : lockKey lease.repositoryId ≠ lockKey attempt.repositoryId := by
        intro he
        have hsame : some (n, s.now + lockTtl) = some (token, expiry) := by
          rw [← hkey, ← he]
          exact hredis
        cases hsame
        exact h.value_ne hattempt hpolling hold hvalue
      have hredis' : redis (lockKey lease.repositoryId) = some (token, expiry) := hredis
      rw [hset] at hredis'
      rcases setNx_token hredis' with hredis' | ⟨he, -⟩
      · rcases getElem?_concat_some hj with hj | ⟨rfl, rfl⟩
        · exact h.last hold hvalue hredis' hj hlt hrepository
        · exact hkey' (congrArg lockKey hrepository)
      · exact hkey' he
    · exact absurd hilt (Nat.lt_irrefl _)
  case watched =>
    intro i lease hi hlost hstopped
    rcases getElem?_concat_some hi with hold | ⟨rfl, rfl⟩
    · obtain ⟨due, hdue, hlater⟩ := h.watched hold hlost hstopped
      refine ⟨due, hdue, fun {j other} hj hlt hrepository => ?_⟩
      rcases getElem?_concat_some hj with hj | ⟨rfl, rfl⟩
      · exact hlater hj hlt hrepository
      · exact h.due hold hdue
    · refine ⟨_, rfl, fun {j other} hj hlt _ => ?_⟩
      have hlen := (List.getElem?_eq_some_iff.mp hj).1
      simp only [finish, addLease, List.length_append, List.length_singleton] at hlen hlt
      omega

theorem new : Invariant {} := by
  constructor <;> intros <;> simp_all

theorem buildCacheService_spec {process : ℕ} {reachable found : Bool}
    (h : s.buildCacheService process reachable = (s', found)) :
    (s' = { s with hasCache := s'.hasCache }) ∧
      (∀ p, s.hasCache p = true → s'.hasCache p = true) ∧
      (found = true → s'.hasCache process = true) ∧
      (s.hasCache process = true → found = true) := by
  unfold buildCacheService at h
  split at h
  · rename_i hcache
    cases h
    exact ⟨rfl, fun _ => id, fun _ => hcache, fun _ => rfl⟩
  · rename_i hcache
    split at h
    · cases h
      refine ⟨rfl, fun p hp => ?_, fun _ => by simp, fun _ => rfl⟩
      by_cases he : p = process
      · simp [he]
      · simpa [he] using hp
    · cases h
      exact ⟨rfl, fun _ => id, nofun, fun hp => absurd hp hcache⟩

theorem acquire {process repositoryId timeoutMs : ℕ} {reachable : Bool} (h : Invariant s) :
    Invariant (s.acquire true process repositoryId timeoutMs reachable) := by
  unfold LockSystem.acquire
  split
  · rename_i s' hbuilt
    obtain ⟨hs', hkeeps, hfound, -⟩ := buildCacheService_spec hbuilt
    rw [hs']
    refine h.of_sameLeases rfl (Nat.le_refl _) (fun n attempt hattempt _ => ?_) hkeeps
      (fun n attempt hattempt => ?_) fun key token expiry hkey => .inl ⟨expiry, hkey⟩
    · exact getElem?_concat_of_some hattempt
    · rcases getElem?_concat_some hattempt with hold | ⟨rfl, rfl⟩
      · exact hkeeps _ (h.polling hold)
      · exact hfound rfl
  · rename_i s' hbuilt
    obtain ⟨hs', hkeeps, -⟩ := buildCacheService_spec hbuilt
    rw [hs']
    exact h.of_sameLeases rfl (Nat.le_refl _) (fun n attempt hattempt _ => hattempt) hkeeps
      (fun n attempt hattempt => hkeeps _ (h.polling hattempt))
      fun key token expiry hkey => .inl ⟨expiry, hkey⟩

/-- A call that polls goes on or is refused, whatever it has written. -/
theorem of_modifyAttempt (h : Invariant s) {n : ℕ} {attempt : Attempt} {redis : Redis}
    {f : Attempt → Attempt} (hattempt : s.attempts[n]? = some attempt)
    (hpolling : attempt.outcome = none) (hf : (f attempt).process = attempt.process)
    (hredis : ∀ key token expiry, redis key = some (token, expiry) →
      s.redis key = some (token, expiry) ∨ token = n) :
    Invariant { s with redis := redis, attempts := s.attempts.modify n f } := by
  refine h.of_sameLeases rfl (Nat.le_refl _) (fun k attempt' hk hdone => ?_) (fun _ => id)
    (fun k attempt' hk => ?_) fun key token expiry hkey => ?_
  · have hne : n ≠ k := by
      rintro rfl
      rw [hattempt] at hk
      cases hk
      exact hdone hpolling
    exact (List.getElem?_modify_ne f _ hne).trans hk
  · rw [List.getElem?_modify] at hk
    obtain ⟨attempt₀, hk₀, rfl⟩ := Option.map_eq_some_iff.mp hk
    split
    · rename_i he
      subst he
      rw [hattempt] at hk₀
      cases hk₀
      rw [hf]
      exact h.polling hattempt
    · exact h.polling hk₀
  · rcases hredis key token expiry hkey with hkey | rfl
    · exact .inl ⟨expiry, hkey⟩
    · exact .inr fun i lease hi => h.value_ne hattempt hpolling hi

theorem poll {n : ℕ} {reply : Reply} {attempt : Attempt} (h : Invariant s)
    (hattempt : s.attempts[n]? = some attempt) (hpolling : attempt.outcome = none) :
    Invariant (s.poll true n reply attempt) := by
  unfold LockSystem.poll
  split
  · dsimp only
    split
    · rename_i redis hrun
      obtain ⟨hset, hgranted⟩ := run_answer hrun
      exact h.grant hattempt hpolling hset hgranted
    · rename_i redis hrun
      refine h.of_modifyAttempt hattempt hpolling rfl fun key token expiry hkey => ?_
      rw [(run_answer hrun).1] at hkey
      exact (setNx_token hkey).imp_right And.right
    · rename_i redis hrun
      refine h.of_modifyAttempt hattempt hpolling rfl fun key token expiry hkey => ?_
      rcases hrun ▸ run_redis s.redis _ reply with rfl | rfl
      · exact (setNx_token hkey).imp_right And.right
      · exact .inl hkey
  · exact h.of_modifyAttempt hattempt hpolling rfl fun key token expiry hkey => .inl hkey

theorem of_modifyLease (h : Invariant s) {i : ℕ} {lease : GitRepoLease} {redis : Redis}
    {hasCache : ℕ → Bool} {f : GitRepoLease → GitRepoLease} (hi : s.leases[i]? = some lease)
    (hcache : ∀ process, s.hasCache process = true → hasCache process = true)
    (hredis : ∀ key token expiry, redis key = some (token, expiry) →
      ∃ expiry', s.redis key = some (token, expiry'))
    (hf : Kept s s i lease (f lease)) :
    Invariant { s with redis := redis, hasCache := hasCache, leases := s.leases.modify i f } := by
  refine h.of_kept (f := fun k lease => if i = k then f lease else lease)
    (fun k => List.getElem?_modify ..) (fun k lease' hk => ?_) (fun n attempt hn _ => hn) hcache
    (fun n attempt hn => hcache _ (h.polling hn))
    fun key token expiry hkey => .inl (hredis key token expiry hkey)
  split
  · rename_i he
    subst he
    rw [hi] at hk
    cases hk
    exact ⟨hf.repositoryId, hf.value, hf.process, hf.grantedAt, hf.due, hf.watched⟩
  · exact ⟨rfl, rfl, rfl, rfl, fun due hdue => h.due hk hdue,
      fun hlost hstopped => .inl ⟨hlost, hstopped, rfl⟩⟩

theorem renew {i token : ℕ} {reachable : Bool} {reply : Reply} {lease : GitRepoLease}
    (h : Invariant s) (hi : s.leases[i]? = some lease) (hvalue : lease.value = some token) :
    Invariant (s.renew i reachable reply lease token) := by
  unfold LockSystem.renew
  split
  · rename_i s' hbuilt
    -- the process has a cache, so the thread does not end here
    obtain ⟨-, -, -, hhas⟩ := buildCacheService_spec hbuilt
    cases hhas (h.cached hi)
  · rename_i s' hbuilt
    obtain ⟨hs', hkeeps, -⟩ := buildCacheService_spec hbuilt
    have hnow : s'.now = s.now := by rw [hs']
    have hredis : s'.redis = s.redis := by rw [hs']
    dsimp only
    rw [hnow, hredis]
    split
    · rename_i redis hrun
      obtain ⟨hset, hheld⟩ := run_answer hrun
      have hkey : ∃ expiry, s.redis (lockKey lease.repositoryId) = some (token, expiry) := by
        unfold Redis.compareAndExpire at hheld
        split at hheld
        · rename_i hget
          exact get_eq_some hget
        · cases hheld
      obtain ⟨expiry, hkey⟩ := hkey
      rw [hs']
      refine h.of_modifyLease hi hkeeps (fun key token expiry hkey => ?_)
        ⟨rfl, rfl, rfl, rfl, fun due hdue => ?_,
          fun _ _ => .inr ⟨⟨_, rfl⟩, fun j other hj hlt => ?_⟩⟩
      · rw [hset] at hkey
        exact compareAndExpire_token hkey
      · cases hdue
        exact Nat.le_refl _
      · exact h.last hi hvalue hkey hj hlt
    · rename_i redis answer hnot hrun
      rw [hs']
      refine h.of_modifyLease hi hkeeps (fun key token expiry hkey => ?_)
        ⟨rfl, rfl, rfl, rfl, nofun, fun hlost => by cases hlost⟩
      rcases hrun ▸ run_redis s.redis _ reply with rfl | rfl
      · exact compareAndExpire_token hkey
      · exact ⟨expiry, hkey⟩

theorem release {i : ℕ} {reachable : Bool} {reply : Reply} {lease : GitRepoLease}
    (h : Invariant s) (hi : s.leases[i]? = some lease) :
    Invariant (s.release i reachable reply lease) := by
  have hf : Kept s s i lease { lease with stopped := true, waitsUntil := none } :=
    ⟨rfl, rfl, rfl, rfl, nofun, fun _ hstopped => by cases hstopped⟩
  have hstop : Invariant (s.modifyLease i fun lease =>
      { lease with stopped := true, waitsUntil := none }) :=
    h.of_modifyLease hi (fun _ => id) (fun key token expiry hkey => ⟨expiry, hkey⟩) hf
  unfold LockSystem.release
  dsimp only
  split
  · exact hstop
  · rename_i token hvalue
    split
    · rename_i s' hbuilt
      obtain ⟨hs', hkeeps, -⟩ := buildCacheService_spec hbuilt
      rw [hs']
      exact h.of_modifyLease hi hkeeps (fun key token expiry hkey => ⟨expiry, hkey⟩) hf
    · rename_i s' hbuilt
      obtain ⟨hs', hkeeps, -⟩ := buildCacheService_spec hbuilt
      have hnow : s'.now = s.now := by rw [hs']; rfl
      have hredis : s'.redis = s.redis := by rw [hs']; rfl
      rw [hnow, hredis, hs']
      refine h.of_modifyLease hi hkeeps (fun key token' expiry hkey => ?_) hf
      rcases run_redis s.redis (s.redis.compareAndDelete s.now (lockKey lease.repositoryId) token)
        reply with he | he
      · rw [he] at hkey
        exact compareAndDelete_token hkey
      · rw [he] at hkey
        exact ⟨expiry, hkey⟩

/-- What a move keeps when the lock is required. -/
theorem step {move : Move} (h : Invariant s) (hs' : Git.step true s move = some s') :
    Invariant s' := by
  cases move with
  | wait ms =>
    cases hs'
    exact h.of_sameLeases rfl (Nat.le_add_right _ _) (fun _ _ hattempt _ => hattempt) (fun _ => id)
      (fun _ _ hattempt => h.polling hattempt) fun key token expiry hkey => .inl ⟨expiry, hkey⟩
  | expire key =>
    cases hs'
    refine h.of_sameLeases rfl (Nat.le_refl _) (fun _ _ hattempt _ => hattempt) (fun _ => id)
      (fun _ _ hattempt => h.polling hattempt) fun key' token expiry hkey => .inl ⟨expiry, ?_⟩
    simp only [Function.update_apply] at hkey
    split at hkey
    · cases hkey
    · exact hkey
  | acquire process repositoryId timeoutMs reachable =>
    cases hs'
    exact h.acquire
  | poll n reply =>
    obtain ⟨attempt, hattempt, hs'⟩ := Option.bind_eq_some_iff.mp hs'
    obtain ⟨⟨hpolling, -⟩, ⟨⟩⟩ := Option.ite_none_right_eq_some.mp hs'
    exact h.poll hattempt (Option.isNone_iff_eq_none.mp hpolling)
  | renew i reachable reply =>
    obtain ⟨lease, hi, hs'⟩ := Option.bind_eq_some_iff.mp hs'
    obtain ⟨token, hvalue, hs'⟩ := Option.bind_eq_some_iff.mp hs'
    obtain ⟨due, -, hs'⟩ := Option.bind_eq_some_iff.mp hs'
    obtain ⟨-, ⟨⟩⟩ := Option.ite_none_right_eq_some.mp hs'
    exact h.renew hi hvalue
  | release i reachable reply =>
    obtain ⟨lease, hi, ⟨⟩⟩ := Option.bind_eq_some_iff.mp hs'
    exact h.release hi

end Invariant

end Manus.Git
