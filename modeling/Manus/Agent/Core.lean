import Manus.Agent.Envelope
import Manus.Lib.Steps
import Manus.Lib.Table
import Mathlib.Algebra.GroupWithZero.Nat

/-! # The agent

An agent opens a request, remembers its id until the request expires, takes a slot of
the gate and runs the handler that the request names. A coroutine function runs in the
task of the request; a plain function runs in a thread, which goes on when the task is
cancelled or times out.
-/

namespace Manus.Agent

variable {F : Type}

inductive HandlerKind where
  /-- `inspect.iscoroutinefunction(func)` -/
  | coroutine
  | plain
  deriving DecidableEq, Repr

structure AgentConfig where
  agentId : String
  secret : String
  maxConcurrency : ℕ
  registry : String → Option HandlerKind

/-- `HANDLER_NAME_PATTERN.fullmatch(name)` -/
def isHandlerName (name : String) : Bool :=
  match name.toList with
  | [] => false
  | c :: cs => c.isAlpha && cs.length ≤ 63 && cs.all fun c => c.isAlphanum || c ∈ ['_', '.', '-']

inductive TaskStage where
  /-- In the queue of the gate. -/
  | waiting
  /-- It has a slot, and the handler has not begun. -/
  | granted
  | inCoroutine
  | onThread
  /-- Awaiting what the plain function returned. -/
  | inAwaitable
  | over
  deriving DecidableEq, Repr

inductive ThreadStage where
  | idle
  | running
  /-- The function has returned, an awaitable or not; the callback has still to run. -/
  | returned (awaitable : Bool)
  | finished (awaitable : Bool)
  deriving DecidableEq, Repr

/-- What a request asks for, and when it was accepted. -/
structure Ticket (F : Type) where
  commandId : String
  expiresAt : ℤ
  acceptedAt : ℤ
  handler : String
  params : List (String × JsonValue (Number F))
  inputs : List (String × JsonValue (Number F))

structure Request (F : Type) extends Ticket F where
  kind : HandlerKind
  task : TaskStage := .waiting
  thread : ThreadStage := .idle
  taken : Bool := false
  releases : ℕ := 0
  /-- When its handler began, every time that it did. -/
  starts : List ℤ := []

/-- The body of the handler is in progress. -/
def Request.inProgress (r : Request F) : Bool :=
  r.task == .inCoroutine || r.thread == .running || r.task == .inAwaitable

/-- The request has a slot. -/
def Request.holds (r : Request F) : Bool := r.taken && r.releases == 0

structure AgentState (F : Type) where
  /-- In milliseconds. -/
  clock : ℕ := 0
  messages : List (SealedMessage F) := []
  seen : List (String × ℤ) := []
  free : ℕ
  requests : List (Request F) := []

namespace AgentState

variable (s : AgentState F)

/-- How often a handler has begun for a command id. -/
def executions (commandId : String) : ℕ :=
  ((s.requests.filter fun r => r.commandId == commandId).map fun r => r.starts.length).sum

/-- `int(self._clock())` -/
def now : ℤ := (s.clock / 1000 : ℕ)

/-- `_forget_expired` -/
def forgetExpired : AgentState F := { s with seen := s.seen.filter fun entry => s.now ≤ entry.2 }

end AgentState

inductive Rejection where
  | malformed
  | unauthenticated
  | replay
  deriving DecidableEq, Repr

section Core

variable (floats : Floats F) (config : AgentConfig)

/-- `_execute` up to the gate; any other payload is answered with an error. -/
def execute (s : AgentState F) (commandId : String) (opened : OpenedMessage F) : AgentState F :=
  match opened.payload.lookup "handler", opened.payload.lookup "params",
    opened.payload.lookup "inputs" with
  | some (.str name), some (.obj params), some (.obj inputs) =>
    if isHandlerName name then
      match config.registry name with
      | none => s
      | some kind =>
        { s with requests := s.requests ++ [{
            commandId, expiresAt := opened.expiresAt, acceptedAt := s.now, handler := name
            params, inputs, kind }] }
    else s
  | _, _, _ => s

/-- `handle`, up to the gate. A sealed command id is a text. -/
def handle (s : AgentState F) (envelope : JsonValue (Number F)) :
    AgentState F × Option Rejection :=
  match envelope with
  | .obj fields =>
    match openEnvelope floats s.messages fields config.secret config.agentId .request s.now with
    | .error _ => (s, some .unauthenticated)
    | .ok opened =>
      let s := s.forgetExpired
      match opened.commandId with
      | .str commandId =>
        if commandId ∈ s.seen.map Prod.fst then (s, some .replay)
        else
          let s := { s with seen := s.seen ++ [(commandId, opened.expiresAt)] }
          (execute config s commandId opened, none)
      | _ => (s, none)
  | _ => (s, some .malformed)

end Core

section Turns

inductive Turn where
  | acquire
  /-- The request times out or is cancelled in the queue. -/
  | leaveQueue
  /-- The task is cancelled between the grant of its slot and its next step. -/
  | giveBack
  | start
  /-- `run_in_executor` raises. -/
  | refuseThread
  /-- The coroutine returns, raises, or ends after a cancellation. -/
  | coroutineEnds
  /-- The task times out or is cancelled, and the thread goes on. -/
  | abandon
  | threadReturns (awaitable : Bool)
  /-- `_thread_finished` -/
  | threadFinished
  /-- The task sees that the function has returned; the callback may have run or not. -/
  | resume
  | awaitableEnds
  deriving DecidableEq, Repr

namespace Request

variable (r : Request F)

def grant : Request F := { r with task := .granted, taken := true }

/-- `self._gate.release()` for the request. -/
def giveBack : Request F := { r with releases := r.releases + 1 }

def goTo (task : TaskStage) : Request F := { r with task }

/-- The handler begins, in the task or in a thread. -/
def begin (now : ℤ) : Request F :=
  match r.kind with
  | .coroutine => { r with task := .inCoroutine, starts := r.starts ++ [now] }
  | .plain => { r with task := .onThread, thread := .running, starts := r.starts ++ [now] }

/-- The request and the free slots after a turn. -/
def turn (now : ℤ) (free : ℕ) : Turn → Option (Request F × ℕ)
  | .acquire => if r.task = .waiting ∧ 0 < free then some (r.grant, free - 1) else none
  | .leaveQueue => if r.task = .waiting then some (r.goTo .over, free) else none
  | .giveBack => if r.task = .granted then some ((r.goTo .over).giveBack, free + 1) else none
  | .start => if r.task = .granted then some (r.begin now, free) else none
  | .refuseThread =>
    if r.task = .granted ∧ r.kind = .plain then some (r.goTo .over, free) else none
  | .coroutineEnds =>
    -- the slot is given back in the `finally` block, with no other step in between
    if r.task = .inCoroutine then some ((r.goTo .over).giveBack, free + 1) else none
  | .abandon => if r.task = .onThread then some (r.goTo .over, free) else none
  | .threadReturns awaitable =>
    if r.thread = .running then some ({ r with thread := .returned awaitable }, free) else none
  | .threadFinished =>
    match r.thread with
    | .returned awaitable => some ({ r with thread := .finished awaitable }.giveBack, free + 1)
    | _ => none
  | .resume =>
    match r.task, r.thread with
    | .onThread, .returned awaitable | .onThread, .finished awaitable =>
      some (r.goTo (if awaitable then .inAwaitable else .over), free)
    | _, _ => none
  | .awaitableEnds => if r.task = .inAwaitable then some (r.goTo .over, free) else none

end Request

end Turns

/-- What the clock, the holders of secrets and the network do, and what happens to a request. -/
inductive Move (F : Type) where
  | wait (ms : ℕ)
  | sealMessage (payload : JsonValue (Number F)) (secret agentId commandId : String)
      (direction : Direction) (ttlSeconds now : ℤ) (nonce ct : List UInt8)
  | handle (envelope : JsonValue (Number F))
  | turn (request : ℕ) (what : Turn)

section Steps

variable (floats : Floats F) (config : AgentConfig)

def step (s : AgentState F) : Move F → Option (AgentState F)
  | .wait ms => some { s with clock := s.clock + ms }
  | .sealMessage payload secret agentId commandId direction ttlSeconds now nonce ct =>
    match Agent.sealMessage payload secret agentId commandId direction ttlSeconds now nonce ct with
    | .error _ => some s
    | .ok m => some { s with messages := s.messages ++ [m] }
  | .handle envelope => some (handle floats config s envelope).1
  | .turn i what => do
    let r ← s.requests[i]?
    let (r, free) ← r.turn s.now s.free what
    return { s with requests := s.requests.set i r, free }

variable {floats config} {s s' : AgentState F} {move : Move F}

theorem step_cases (h : step floats config s move = some s') :
    (∃ ms, s' = { s with clock := s.clock + ms }) ∨
    (∃ messages, s' = { s with messages := s.messages ++ messages }) ∨
    (∃ envelope, s' = (handle floats config s envelope).1) ∨
    ∃ i what r r' free, move = .turn i what ∧ s.requests[i]? = some r ∧
      r.turn s.now s.free what = some (r', free) ∧
      s' = { s with requests := s.requests.set i r', free } := by
  cases move with
  | wait ms => exact .inl ⟨ms, (Option.some.inj h).symm⟩
  | sealMessage payload secret agentId commandId direction ttlSeconds now nonce ct =>
    simp only [step] at h
    split at h
    · cases h
      exact .inr (.inl ⟨[], by rw [List.append_nil]⟩)
    · cases h
      exact .inr (.inl ⟨_, rfl⟩)
  | handle envelope => exact .inr (.inr (.inl ⟨envelope, (Option.some.inj h).symm⟩))
  | turn i what =>
    obtain ⟨r, hr, hrest⟩ := Option.bind_eq_some_iff.mp h
    obtain ⟨⟨r', free⟩, hturn, hs'⟩ := Option.bind_eq_some_iff.mp hrest
    exact .inr (.inr (.inr ⟨i, what, r, r', free, rfl, hr, hturn, (Option.some.inj hs').symm⟩))

variable (config)

def AgentConfig.initial : AgentState F := { free := config.maxConcurrency }

end Steps

end Manus.Agent
