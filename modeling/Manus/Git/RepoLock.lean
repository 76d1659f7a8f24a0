import Manus.Lib.Steps
import Mathlib.Data.Nat.Notation
import Mathlib.Logic.Function.Basic

/-! # The lock of a git repository

The lock is a Redis key with a lifetime. It is taken with `SET NX EX` by the owner of
a fresh token, renewed by a thread of the holder's process and deleted by compare and
delete. Times are in milliseconds.
-/

namespace Manus.Git

def lockTtl : ℕ := 120000

def renewEvery : ℕ := 40000

def pollInterval : ℕ := 1000

/-- What a failure suggests to do. -/
inductive FailureHint where
  | retryLater
  | waitForOtherRun
  deriving DecidableEq, Repr

/-- `GitOperationError` with a failure of phase `git` and kind `repo_locked`. -/
structure RepoLocked where
  message : String
  retryable : Bool := false
  elapsedMs : Option ℕ := none
  hint : FailureHint
  deriving DecidableEq, Repr

def lockUnavailable : RepoLocked where
  message := "The lock on this git repository could not be taken because Redis is unavailable; " ++
    "the git operation was not started. Try again once Redis is back."
  retryable := true
  hint := .retryLater

def leaseExpired : RepoLocked where
  message := "The lock on this git repository expired while it was in use"
  hint := .waitForOtherRun

def timedOut (timeoutMs repositoryId : ℕ) : RepoLocked where
  message := "Timed out after " ++ toString (timeoutMs / 1000) ++
    "s waiting for the lock on git repository " ++ toString repositoryId ++
    "; another run is still using it"
  retryable := true
  elapsedMs := some timeoutMs
  hint := .waitForOtherRun

def lockKey (repositoryId : ℕ) : String := "git-repo-lock:" ++ toString repositoryId

/-- The answer to a command. When Redis fails, the command may have been carried out. -/
inductive Reply where
  | answered
  | failed (applied : Bool)
  deriving DecidableEq, Repr

/-- The keys of the server: a token and the time at which the key expires. -/
abbrev Redis := String → Option (ℕ × ℕ)

namespace Redis

variable (redis : Redis) (now : ℕ) (key : String) (token : ℕ)

/-- The value of a key that has not expired. -/
def get : Option ℕ := (redis key).bind fun value => if now < value.2 then some value.1 else none

/-- `SET key token NX EX ttl` -/
def setNx : Redis × Bool :=
  match redis.get now key with
  | none => (Function.update redis key (some (token, now + lockTtl)), true)
  | some _ => (redis, false)

/-- The script `_COMPARE_AND_EXPIRE`. -/
def compareAndExpire : Redis × Bool :=
  if redis.get now key = some token then
    (Function.update redis key (some (token, now + lockTtl)), true)
  else (redis, false)

/-- The script `_COMPARE_AND_DELETE`. -/
def compareAndDelete : Redis × Bool :=
  if redis.get now key = some token then (Function.update redis key none, true)
  else (redis, false)

end Redis

/-- A command and its answer as the client sees it: nothing when Redis fails. -/
def Reply.run (redis : Redis) (command : Redis × Bool) : Reply → Redis × Option Bool
  | answered => (command.1, some command.2)
  | failed true => (command.1, none)
  | failed false => (redis, none)

/-- `GitRepoLease`, with the process it lives in, the time of the grant, and the time until which
the renewing thread waits while there is one. -/
structure GitRepoLease where
  repositoryId : ℕ
  value : Option ℕ
  lost : Bool := false
  stopped : Bool := false
  process : ℕ
  grantedAt : ℕ
  waitsUntil : Option ℕ
  deriving DecidableEq, Repr

def GitRepoLease.ensureHeld (lease : GitRepoLease) : Except RepoLocked Unit :=
  if lease.lost then .error leaseExpired else .ok ()

/-- A call of `acquire_git_repo_lock` that has found a cache, with its result once it has one. The
token of a call is its number. -/
structure Attempt where
  repositoryId : ℕ
  process : ℕ
  timeoutMs : ℕ
  deadline : ℕ
  pollAt : ℕ
  outcome : Option (Except RepoLocked ℕ) := none

structure LockSystem where
  now : ℕ := 0
  redis : Redis := fun _ => none
  /-- `_cache_service` of a process is set. -/
  hasCache : ℕ → Bool := fun _ => false
  attempts : List Attempt := []
  leases : List GitRepoLease := []
  /-- The calls that were refused before they had a token. -/
  refused : List RepoLocked := []

namespace LockSystem

variable (s : LockSystem)

/-- `build_cache_service` keeps the service it has built; it returns none when there is none and
Redis cannot be reached. -/
def buildCacheService (process : ℕ) (reachable : Bool) : LockSystem × Bool :=
  if s.hasCache process then (s, true)
  else if reachable then ({ s with hasCache := Function.update s.hasCache process true }, true)
  else (s, false)

def addLease (repositoryId : ℕ) (value : Option ℕ) (process : ℕ) : LockSystem :=
  { s with leases := s.leases ++
      [⟨repositoryId, value, false, false, process, s.now, value.map fun _ => s.now + renewEvery⟩] }

def finish (n : ℕ) (outcome : Except RepoLocked ℕ) : LockSystem :=
  { s with attempts := s.attempts.modify n fun attempt => { attempt with outcome := some outcome } }

/-- `acquire_git_repo_lock` up to its loop. Without a cache it refuses, or goes on without a
lock. -/
def acquire (required : Bool) (process repositoryId timeoutMs : ℕ) (reachable : Bool) :
    LockSystem :=
  match s.buildCacheService process reachable with
  | (s', true) =>
    { s' with attempts := s'.attempts ++
        [⟨repositoryId, process, timeoutMs, s.now + timeoutMs, s.now, none⟩] }
  | (s', false) =>
    if required then { s' with refused := s'.refused ++ [lockUnavailable] }
    else s'.addLease repositoryId none process

/-- One round of the loop of `acquire_git_repo_lock`. -/
def poll (required : Bool) (n : ℕ) (reply : Reply) (attempt : Attempt) : LockSystem :=
  if s.now < attempt.deadline then
    let key := lockKey attempt.repositoryId
    match reply.run s.redis (s.redis.setNx s.now key n) with
    | (redis, some true) =>
      { s with redis := redis }.addLease attempt.repositoryId (some n) attempt.process
        |>.finish n (.ok s.leases.length)
    | (redis, some false) =>
      { s with
        redis := redis
        attempts := s.attempts.modify n fun attempt =>
          { attempt with pollAt := s.now + pollInterval } }
    | (redis, none) =>
      if required then { s with redis := redis }.finish n (.error lockUnavailable)
      else
        { s with redis := redis }.addLease attempt.repositoryId none attempt.process
          |>.finish n (.ok s.leases.length)
  else s.finish n (.error (timedOut attempt.timeoutMs attempt.repositoryId))

def modifyLease (i : ℕ) (f : GitRepoLease → GitRepoLease) : LockSystem :=
  { s with leases := s.leases.modify i f }

/-- One round of `_renew`, when its wait is over. -/
def renew (i : ℕ) (reachable : Bool) (reply : Reply) (lease : GitRepoLease) (token : ℕ) :
    LockSystem :=
  match s.buildCacheService lease.process reachable with
  | (s', false) => s'.modifyLease i fun lease => { lease with waitsUntil := none }
  | (s', true) =>
    let key := lockKey lease.repositoryId
    match reply.run s'.redis (s'.redis.compareAndExpire s'.now key token) with
    | (redis, some true) =>
      { s' with redis := redis }.modifyLease i fun lease =>
        { lease with waitsUntil := some (s'.now + renewEvery) }
    | (redis, _) =>
      { s' with redis := redis }.modifyLease i fun lease =>
        { lease with lost := true, waitsUntil := none }

/-- `GitRepoLease.release` -/
def release (i : ℕ) (reachable : Bool) (reply : Reply) (lease : GitRepoLease) : LockSystem :=
  let s := s.modifyLease i fun lease => { lease with stopped := true, waitsUntil := none }
  match lease.value with
  | none => s
  | some token =>
    match s.buildCacheService lease.process reachable with
    | (s', false) => s'
    | (s', true) =>
      let key := lockKey lease.repositoryId
      { s' with
        redis := (reply.run s'.redis (s'.redis.compareAndDelete s'.now key token)).1 }

end LockSystem

/-- What the callers, the renewing threads, the clock and the server do. -/
inductive Move where
  | wait (ms : ℕ)
  | expire (key : String)
  | acquire (process repositoryId timeoutMs : ℕ) (reachable : Bool)
  | poll (attempt : ℕ) (reply : Reply)
  | renew (lease : ℕ) (reachable : Bool) (reply : Reply)
  | release (lease : ℕ) (reachable : Bool) (reply : Reply)
  deriving DecidableEq, Repr

open LockSystem in
/-- `required` is `GIT_REPO_LOCK_REQUIRED`. -/
def step (required : Bool) (s : LockSystem) : Move → Option LockSystem
  | .wait ms => some { s with now := s.now + ms }
  | .expire key => some { s with redis := Function.update s.redis key none }
  | .acquire process repositoryId timeoutMs reachable =>
    some (s.acquire required process repositoryId timeoutMs reachable)
  | .poll n reply => do
    let attempt ← s.attempts[n]?
    if attempt.outcome.isNone ∧ attempt.pollAt ≤ s.now then
      return s.poll required n reply attempt
    else none
  | .renew i reachable reply => do
    let lease ← s.leases[i]?
    let token ← lease.value
    let due ← lease.waitsUntil
    if due ≤ s.now then return s.renew i reachable reply lease token else none
  | .release i reachable reply => do
    let lease ← s.leases[i]?
    return s.release i reachable reply lease

/-- A renewal period of a lease has passed since some time: the time is that long ago, and the
renewal that fell due in between is made. -/
def LockSystem.RenewalPassed (s : LockSystem) (lease : GitRepoLease) (since : ℕ) : Prop :=
  since + renewEvery ≤ s.now ∧ ∀ due, lease.waitsUntil = some due → s.now < due

/-- A holder that passes the check is the last one the lock of its repository was granted to, but
for grants in the current renewal period. -/
def ExclusiveWhereChecked (s : LockSystem) : Prop :=
  ∀ (i j : ℕ) (lease other : GitRepoLease), s.leases[i]? = some lease →
    s.leases[j]? = some other → i < j → lease.repositoryId = other.repositoryId →
    lease.stopped = false → lease.ensureHeld = .ok () → ¬ s.RenewalPassed lease other.grantedAt

end Manus.Git
