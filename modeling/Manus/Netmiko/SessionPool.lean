import Manus.Lib.Steps
import Mathlib.Data.Nat.Notation
import Mathlib.Logic.Function.Basic

/-! # The pool of device sessions

Calls share a live session and take turns at it under its lock. The blocking work
is done by a thread of the pool's executor. A task stands at one of its awaits, the
code between two awaits is one move, and a task can be cancelled at each of them.
-/

namespace Manus.Netmiko

/-- Host, device type and credential reference. -/
abbrev SessionKey := String × String × String

inductive SessionOp where
  | connect
  | op
  | disconnect
  deriving DecidableEq, Repr

/-- The functions handed to the executor: `_run`, `disconnect`, `_run_disposable` and `_probe`. -/
inductive Work where
  | run
  | disconnect
  | runDisposable
  | probe
  deriving DecidableEq, Repr

namespace Work

/-- What a thread does in turn when nothing fails. -/
def ops (alive everConnected : Bool) : Work → List SessionOp
  | run =>
    (if alive then [] else (if everConnected then [.disconnect] else []) ++ [.connect]) ++ [.op]
  | disconnect => [.disconnect]
  | runDisposable => [.connect, .op, .disconnect]
  | probe => [.connect, .disconnect]

/-- What is left to do after an error. -/
def cleanup : Work → SessionOp → List SessionOp
  | runDisposable, .op => [.disconnect]
  | probe, .connect => [.disconnect]
  | _, _ => []

end Work

/-- How far the executor is with a call. A dropped call never reached a thread. -/
inductive Thread where
  | queued
  | running (doing : SessionOp) (left : List SessionOp)
  | ended
  | dropped
  deriving DecidableEq, Repr

namespace Thread

def isRunning : Thread → Bool
  | running _ _ => true
  | _ => false

/-- No thread uses the session for this call, now or later. -/
def isOver : Thread → Bool
  | ended => true
  | dropped => true
  | _ => false

def ofOps : List SessionOp → Thread
  | [] => ended
  | doing :: left => running doing left

def drop : Thread → Thread
  | queued => dropped
  | thread => thread

end Thread

/-- A call of `run_in_executor` with the future that the event loop has for it. One on a pooled
session is made by a task that has just acquired the session's lock. -/
structure Call where
  caller : ℕ
  session : Option SessionKey
  work : Work
  thread : Thread := .queued
  done : Bool := false
  /-- `_release_after_inflight` runs when the future is done. -/
  releaseAfter : Bool := false
  /-- How often the lock was released for this acquisition. -/
  releases : ℕ := 0
  deriving DecidableEq, Repr

/-- The task that waits for the call gives it up: a queued call is taken off the queue, one that
runs goes on. -/
def Call.abandon (call : Call) : Call := { call with done := true, thread := call.thread.drop }

structure PooledSession where
  locked : Bool := false
  everConnected : Bool := false
  inflight : Option ℕ := none
  deriving DecidableEq, Repr

/-- The await at which a task stands. `suspend` is in its loop with the keys that are left, on its
own or for `close`. -/
inductive AsyncTask where
  /-- `run_on_device`: `entry.lock.acquire()` -/
  | acquiring (key : SessionKey)
  /-- `run_on_device`: `asyncio.shield(fut)` -/
  | shielding (key : SessionKey) (fut : ℕ)
  /-- `run_on_device` of a disabled pool, `probe_login`: `run_in_executor` -/
  | disposing (fut : ℕ)
  /-- `suspend`: `wait_for(asyncio.shield(inflight))` -/
  | settling (closing : Bool) (key : SessionKey) (fut : ℕ) (rest : List SessionKey)
  /-- `suspend`: `async with entry.lock` -/
  | entering (closing : Bool) (key : SessionKey) (rest : List SessionKey)
  /-- `suspend`: `run_in_executor` of the disconnect -/
  | disconnecting (closing : Bool) (key : SessionKey) (fut : ℕ) (rest : List SessionKey)
  | finished
  deriving DecidableEq, Repr

structure DeviceSessionPool where
  enabled : Bool
  maxWorkers : ℕ
  /-- The keys of `_sessions` in the order of their creation. -/
  keys : List SessionKey := []
  entry : SessionKey → PooledSession := fun _ => {}
  closed : Bool := false
  shutDown : Bool := false
  calls : List Call := []
  tasks : List AsyncTask := []

namespace DeviceSessionPool

/-- `DeviceSessionPool(max_workers=…, enabled=…)` -/
def new (enabled : Bool) (maxWorkers : ℕ) : DeviceSessionPool := { enabled, maxWorkers }

variable (s : DeviceSessionPool)

def modifyEntry (key : SessionKey) (f : PooledSession → PooledSession) : DeviceSessionPool :=
  { s with entry := Function.update s.entry key (f (s.entry key)) }

def modifyCall (fut : ℕ) (f : Call → Call) : DeviceSessionPool :=
  { s with calls := s.calls.modify fut f }

def setTask (t : ℕ) (task : AsyncTask) : DeviceSessionPool :=
  { s with tasks := s.tasks.set t task }

def addTask (task : AsyncTask) : DeviceSessionPool := { s with tasks := s.tasks ++ [task] }

def isDone (fut : ℕ) : Bool := s.calls[fut]?.any Call.done

/-- `lock.release()`, counted for the acquisition it belongs to. -/
def release (key : SessionKey) (fut : ℕ) : DeviceSessionPool :=
  (s.modifyEntry key fun entry => { entry with locked := false }).modifyCall fut fun call =>
    { call with releases := call.releases + 1 }

def setInflight (key : SessionKey) (inflight : Option ℕ) : DeviceSessionPool :=
  s.modifyEntry key fun entry => { entry with inflight := inflight }

/-- The lock is acquired and a function handed to the executor. One that is shut down takes no
more calls. -/
def lockAndSubmit (t : ℕ) (key : SessionKey) (work : Work) : DeviceSessionPool :=
  let call : Call := ⟨t, some key, work, if s.shutDown then .dropped else .queued, s.shutDown,
    false, 0⟩
  { s.modifyEntry key (fun entry => { entry with locked := true }) with calls := s.calls ++ [call] }

/-- A session whose key is not there yet stands in `entry` as a new one. -/
def getOrCreateEntry (key : SessionKey) : DeviceSessionPool :=
  if key ∈ s.keys then s else { s with keys := s.keys ++ [key] }

/-- `run_on_device` from the acquired lock to the shield. -/
def beginUse (t : ℕ) (key : SessionKey) : DeviceSessionPool :=
  let fut := s.calls.length
  if s.shutDown then
    (((s.lockAndSubmit t key .run).setInflight key none).release key fut).setTask t .finished
  else
    ((s.lockAndSubmit t key .run).setInflight key (some fut)).setTask t (.shielding key fut)

/-- `run_on_device` after the shield, with the future done. -/
def endUse (t : ℕ) (key : SessionKey) (fut : ℕ) : DeviceSessionPool :=
  ((s.setInflight key none).release key fut).setTask t .finished

/-- `run_on_device` cancelled before the future is done: the release is left to a callback. -/
def detach (t fut : ℕ) : DeviceSessionPool :=
  (s.modifyCall fut fun call => { call with releaseAfter := true }).setTask t .finished

/-- `executor.shutdown(wait=False, cancel_futures=True)` -/
def shutdownExecutor : DeviceSessionPool :=
  { s with
    shutDown := true
    calls := s.calls.map fun call => { call with thread := call.thread.drop } }

/-- The first await of `suspend` for a session. -/
def suspendPoint (closing : Bool) (key : SessionKey) (rest : List SessionKey) : AsyncTask :=
  match (s.entry key).inflight with
  | some fut => if s.isDone fut then .entering closing key rest else .settling closing key fut rest
  | none => .entering closing key rest

/-- The loop of `suspend` from its head. `close` shuts the executor down after it. -/
def suspendFrom (t : ℕ) (closing : Bool) : List SessionKey → DeviceSessionPool
  | key :: rest => s.setTask t (s.suspendPoint closing key rest)
  | [] =>
    if closing then (s.setTask t .finished).shutdownExecutor else s.setTask t .finished

/-- `suspend` from the acquired lock to the disconnect. An executor that is shut down raises, which
is logged. -/
def beginDisconnect (t : ℕ) (closing : Bool) (key : SessionKey) (rest : List SessionKey) :
    DeviceSessionPool :=
  let fut := s.calls.length
  if s.shutDown then
    ((s.lockAndSubmit t key .disconnect).release key fut).suspendFrom t closing rest
  else (s.lockAndSubmit t key .disconnect).setTask t (.disconnecting closing key fut rest)

/-- `suspend` after the disconnect, with the future done. One that was cancelled ends the task. -/
def endDisconnect (t : ℕ) (closing : Bool) (key : SessionKey) (fut : ℕ) (rest : List SessionKey) :
    DeviceSessionPool :=
  if s.calls[fut]?.any fun call => call.thread = .dropped then
    (s.release key fut).setTask t .finished
  else (s.release key fut).suspendFrom t closing rest

/-- A session that is used once and never pooled. -/
def dispose (work : Work) : DeviceSessionPool :=
  if s.shutDown then s
  else
    { s.addTask (.disposing s.calls.length) with
      calls := s.calls ++ [⟨s.tasks.length, none, work, .queued, false, false, 0⟩] }

def runOnDevice (key : SessionKey) : DeviceSessionPool :=
  if s.enabled then (s.getOrCreateEntry key).addTask (.acquiring key) else s.dispose .runDisposable

def suspend (closing : Bool) : DeviceSessionPool :=
  (s.addTask .finished).suspendFrom s.tasks.length closing s.keys

def close : DeviceSessionPool :=
  if s.closed then s else { s with closed := true }.suspend true

/-- The event loop goes on with a task whose await is over. -/
def resume (t : ℕ) : AsyncTask → Option DeviceSessionPool
  | .acquiring key => if (s.entry key).locked then none else some (s.beginUse t key)
  | .shielding key fut => if s.isDone fut then some (s.endUse t key fut) else none
  | .disposing fut => if s.isDone fut then some (s.setTask t .finished) else none
  | .settling closing key fut rest =>
    if s.isDone fut then some (s.setTask t (.entering closing key rest)) else none
  | .entering closing key rest =>
    if (s.entry key).locked then none else some (s.beginDisconnect t closing key rest)
  | .disconnecting closing key fut rest =>
    if s.isDone fut then some (s.endDisconnect t closing key fut rest) else none
  | .finished => none

/-- A task is cancelled. Behind the shield the call goes on and keeps the lock; while it settles,
`suspend` takes no notice; the future of a disconnect is cancelled with the task. -/
def cancel (t : ℕ) : AsyncTask → Option DeviceSessionPool
  | .acquiring _ => some (s.setTask t .finished)
  | .shielding key fut =>
    if s.isDone fut then some (s.endUse t key fut) else some (s.detach t fut)
  | .disposing fut => some ((s.modifyCall fut Call.abandon).setTask t .finished)
  | .settling closing key _ rest => some (s.setTask t (.entering closing key rest))
  | .entering _ _ _ => some (s.setTask t .finished)
  | .disconnecting _ key fut _ =>
    some (((s.modifyCall fut Call.abandon).release key fut).setTask t .finished)
  | .finished => none

/-- The grace time of an operation in flight has run out. -/
def graceOver (t : ℕ) : AsyncTask → Option DeviceSessionPool
  | .settling closing key _ rest => some (s.setTask t (.entering closing key rest))
  | _ => none

def running : ℕ := s.calls.countP fun call => call.thread.isRunning

/-- A worker of the executor takes a call off the queue. -/
def start (fut : ℕ) (alive : Bool) (call : Call) : Option DeviceSessionPool :=
  if call.thread = .queued ∧ s.running < s.maxWorkers then
    let everConnected := call.session.any fun key => (s.entry key).everConnected
    some (s.modifyCall fut fun call =>
      { call with thread := .ofOps (call.work.ops alive everConnected) })
  else none

/-- What a thread is doing with its session returns or raises. -/
def advance (fut : ℕ) (ok : Bool) (call : Call) : Option DeviceSessionPool :=
  match call.thread with
  | .running doing left =>
    let s' := s.modifyCall fut fun call =>
      { call with thread := .ofOps (if ok then left else call.work.cleanup doing) }
    match call.session, ok && decide (doing = .connect) with
    | some key, true => some (s'.modifyEntry key fun entry => { entry with everConnected := true })
    | _, _ => some s'
  | _ => none

/-- The event loop is told that a call is over. -/
def notify (fut : ℕ) (call : Call) : Option DeviceSessionPool :=
  if call.thread.isOver && !call.done then
    some (s.modifyCall fut fun call => { call with done := true })
  else none

def releaseAfterInflight (fut : ℕ) (call : Call) : Option DeviceSessionPool :=
  match call.session with
  | some key =>
    if call.done && call.releaseAfter then
      let s' := if (s.entry key).inflight = some fut then s.setInflight key none else s
      some ((s'.modifyCall fut fun call => { call with releaseAfter := false }).release key fut)
    else none
  | none => none

end DeviceSessionPool

/-- Calls of the pool, and what the event loop, the executor and a clock do in between. -/
inductive Move where
  | runOnDevice (key : SessionKey)
  | probeLogin
  | suspend
  | close
  | resume (t : ℕ)
  | cancel (t : ℕ)
  | graceOver (t : ℕ)
  | start (fut : ℕ) (alive : Bool)
  | advance (fut : ℕ) (ok : Bool)
  | notify (fut : ℕ)
  | releaseAfterInflight (fut : ℕ)
  deriving DecidableEq, Repr

open DeviceSessionPool in
def step (s : DeviceSessionPool) : Move → Option DeviceSessionPool
  | .runOnDevice key => some (s.runOnDevice key)
  | .probeLogin => some (s.dispose .probe)
  | .suspend => some (s.suspend false)
  | .close => some s.close
  | .resume t => s.tasks[t]?.bind (s.resume t)
  | .cancel t => s.tasks[t]?.bind (s.cancel t)
  | .graceOver t => s.tasks[t]?.bind (s.graceOver t)
  | .start fut alive => s.calls[fut]?.bind (s.start fut alive)
  | .advance fut ok => s.calls[fut]?.bind (s.advance fut ok)
  | .notify fut => s.calls[fut]?.bind (s.notify fut)
  | .releaseAfterInflight fut => s.calls[fut]?.bind (s.releaseAfterInflight fut)

/-- No task is cancelled while a thread is at the disconnect that the task waits for. -/
def sparesDisconnect (s : DeviceSessionPool) : Move → Bool
  | .cancel t =>
    match s.tasks[t]? with
    | some (.disconnecting _ _ fut _) => !s.calls[fut]?.any fun call => call.thread.isRunning
    | _ => true
  | _ => true

/-- The event loop has nothing left to do. -/
def DeviceSessionPool.Idle (s : DeviceSessionPool) : Prop :=
  ∀ n, step s (.resume n) = none ∧ step s (.notify n) = none ∧
    step s (.releaseAfterInflight n) = none

/-- A pooled session has one user at a time. -/
structure OneUser (s : DeviceSessionPool) : Prop where
  single : ∀ (i j : ℕ) (call call' : Call), s.calls[i]? = some call → s.calls[j]? = some call' →
    call.session ≠ none → call.session = call'.session →
    call.thread.isRunning = true → call'.thread.isRunning = true → i = j
  once : ∀ call ∈ s.calls, call.releases ≤ 1
  after : ∀ call ∈ s.calls, call.releases ≠ 0 → call.thread.isOver = true
  followed : s.Idle → ∀ call ∈ s.calls, call.session ≠ none → call.thread.isOver = true →
    call.releases = 1

end Manus.Netmiko
