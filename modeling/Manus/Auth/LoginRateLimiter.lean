import Manus.Lib.Steps
import Mathlib.Data.Nat.Notation
import Mathlib.Logic.Function.Basic

/-! # The limit on login attempts

Every attempt under a key is noted, in Redis for all workers or, while Redis is away, in
the worker that handles it. An attempt that is given back no longer counts. Times are in
ticks of one clock.
-/

namespace Manus.RateLimit

/-- `LoginRateLimiter` -/
structure Limiter where
  attempts : ℕ
  window : ℕ
  failClosed : Bool

/-- An attempt under a key: its member id and its score. -/
abbrev Entry := ℕ × ℕ

/-- A sorted set of Redis, and when its key expires. -/
structure SortedSet where
  entries : List Entry
  expires : ℕ

structure Windows where
  redis : String → Option SortedSet := fun _ => none
  fallbackAttempts : ℕ → String → List Entry := fun _ _ => []

/-- What becomes of a command: a command whose answer is lost was carried out. -/
inductive RedisAnswer where
  | replied | lost | unreachable
  deriving DecidableEq

section Windows

variable (w : Windows) (key : String)

/-- The entries of a key that has not expired. -/
def Windows.entriesAt (now : ℕ) : List Entry :=
  match w.redis key with
  | some set => if now < set.expires then set.entries else []
  | none => []

def Windows.setRedis (set : Option SortedSet) : Windows :=
  { w with redis := Function.update w.redis key set }

def Windows.setFallback (worker : ℕ) (entries : List Entry) : Windows :=
  { w with
    fallbackAttempts := Function.update w.fallbackAttempts worker
      (Function.update (w.fallbackAttempts worker) key entries) }

/-- `_count_fallback` drops what is too old, up to the first attempt that is not. -/
def Windows.countFallback (limiter : Limiter) (now worker : ℕ) : List Entry :=
  (w.fallbackAttempts worker key).dropWhile fun e => e.2 + limiter.window < now

end Windows

section Operations

variable (limiter : Limiter) (now worker : ℕ) (key : String) (member : ℕ) (w : Windows)

/-- `_CHECK_AND_RECORD_LUA` -/
def checkAndRecordRedis : Bool × Windows :=
  let kept := (w.entriesAt key now).filter fun e => now < e.2 + limiter.window
  if limiter.attempts ≤ kept.length then
    (false, w.setRedis key ((w.redis key).map fun set => ⟨kept, set.expires⟩))
  else (true, w.setRedis key (some ⟨kept ++ [(member, now)], now + limiter.window⟩))

def checkAndRecordFallback : Bool × Windows :=
  let kept := w.countFallback key limiter now worker
  if limiter.attempts ≤ kept.length then (false, w.setFallback key worker kept)
  else (true, w.setFallback key worker (kept ++ [(member, now)]))

/-- `reserve`; `check` does the same and forgets the member id. -/
def reserve (answer : RedisAnswer) : Bool × Windows :=
  let asked := checkAndRecordRedis limiter now key member w
  match answer with
  | .replied => asked
  | _ =>
    let w := if answer = .lost then asked.2 else w
    if limiter.failClosed then (false, w)
    else checkAndRecordFallback limiter now worker key member w

/-- What Redis is told, unless it cannot be reached; then the worker goes over its own. -/
def tell (answer : RedisAnswer) (f : SortedSet → Option SortedSet) (entries : List Entry) :
    Windows :=
  let w := if answer = .unreachable then w else w.setRedis key ((w.redis key).bind f)
  w.setFallback key worker entries

def release (answer : RedisAnswer) : Windows :=
  tell worker key w answer (fun set => some ⟨set.entries.filter (·.1 ≠ member), set.expires⟩)
    ((w.fallbackAttempts worker key).filter (·.1 ≠ member))

def clear (answer : RedisAnswer) : Windows := tell worker key w answer (fun _ => none) []

end Operations

section Calls

/-- An attempt that was let through and not given back, and the worker that noted it when Redis
did not. -/
structure Attempt where
  key : String
  worker : Option ℕ
  member : ℕ
  time : ℕ

/-- The limiter in use; the attempts that were let through are what its callers know. -/
structure LimiterState where
  now : ℕ := 0
  windows : Windows := {}
  nextMember : ℕ := 0
  held : List Attempt := []

inductive Call where
  | reserve (worker : ℕ) (key : String)
  | release (worker n : ℕ)
  | clear (worker : ℕ) (key : String)

/-- A call at a time, and what Redis makes of it. -/
structure Move where
  now : ℕ
  answer : RedisAnswer
  call : Call

def LimiterState.handle (limiter : Limiter) (s : LimiterState) (now : ℕ)
    (answer : RedisAnswer) :
    Call → Option LimiterState
  | .reserve worker key =>
    let reserved := RateLimit.reserve limiter now worker key s.nextMember s.windows answer
    let place := if answer = .replied then none else some worker
    some
      { now
        windows := reserved.2
        nextMember := s.nextMember + 1
        held := if reserved.1 then s.held ++ [⟨key, place, s.nextMember, now⟩] else s.held }
  | .release worker n => s.held[n]?.map fun attempt =>
      { s with
        now
        windows := RateLimit.release worker attempt.key attempt.member s.windows answer
        held := s.held.eraseIdx n }
  | .clear worker key =>
    some { s with
      now
      windows := RateLimit.clear worker key s.windows answer
      held := s.held.filter (·.key ≠ key) }

/-- Time does not go back. -/
def limiterStep (limiter : Limiter) (s : LimiterState) (move : Move) : Option LimiterState :=
  if s.now ≤ move.now then s.handle limiter move.now move.answer move.call else none

end Calls

end Manus.RateLimit
