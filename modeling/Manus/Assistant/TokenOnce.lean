import Manus.Lib.KeyStore
import Manus.Lib.Steps
import Manus.Runs.Repository

/-! # Starting a run the user confirmed

A proposal of the assistant is a signed token with a random id. Posting it starts a
run, with the id claimed in Redis before the start, kept when the run was dispatched
and freed when the start was refused. Times are in milliseconds.
-/

namespace Manus.Assistant

/-- `TOKEN_TTL_SECONDS` -/
def tokenTtl : ℕ := 600000

/-- `_IN_FLIGHT_SECONDS` -/
def inFlightTtl : ℕ := 60000

/-- `_USED_SECONDS` -/
def usedTtl : ℕ := tokenTtl + 60000

/-- `_KEY_PREFIX` -/
def keyPrefix : String := "manus-ai-workflow-token:"

/-- The value under a claimed id. -/
inductive ClaimValue where
  | pending
  | used
  deriving DecidableEq, Repr

abbrev ClaimStore := KeyStore String ClaimValue

def key (tokenId : String) : String := keyPrefix ++ tokenId

section Store

variable (redis : ClaimStore) (now : ℕ) (tokenId : String) (reply : CommandReply)

/-- `claim`: whether the id is taken now; nothing when the store is unavailable. -/
def claim : ClaimStore × Option Bool :=
  reply.run redis (redis.setNx now (key tokenId) .pending inFlightTtl)

/-- `confirm`; an error of the store is only logged. -/
def confirm : ClaimStore :=
  (reply.run redis (redis.set now (key tokenId) .used usedTtl, ())).1

/-- `release`; an error of the store is only logged. -/
def release : ClaimStore := (reply.run redis (redis.delete (key tokenId), ())).1

end Store

/-- What a token says, but for the inputs and the devices of the run. -/
structure WorkflowRunGrant where
  userId : ℕ
  workflowId : ℕ
  stamp : String
  tokenId : String
  expiresAt : ℕ
  deriving DecidableEq, Repr

/-- `verify_run_token` of a token that was issued; any other has no valid signature. -/
def verifyRunToken (grant : WorkflowRunGrant) (userId now : ℕ) : Option WorkflowRunGrant :=
  if grant.userId ≠ userId ∨ now ≥ grant.expiresAt then none else some grant

/-- Where a call of `_start` is. -/
inductive Stage where
  /-- The token is valid; the devices, the rights and the stamp are being checked. -/
  | verified
  | claimed
  | created
  | dispatched
  /-- The dispatch has raised. -/
  | failing
  | started
  /-- An exception is on its way to the handler that releases the claim. -/
  | raising
  | confirmed
  | ended
  deriving DecidableEq, Repr

structure Start where
  grant : WorkflowRunGrant
  stage : Stage := .verified
  claimedAt : ℕ := 0
  runId : Option ℕ := none
  deriving DecidableEq, Repr

/-- The call is between its claim and the end of it. -/
def Start.goesOn (start : Start) : Bool :=
  start.stage ∉ [.verified, .confirmed, .ended]

/-- A run made from a token, with the time at which the engine accepted it. -/
structure TokenRun where
  tokenId : String
  status : RunStatus := .pending
  acceptedAt : Option ℕ := none
  executed : Bool := false
  deriving DecidableEq, Repr

/-- The engine has executed the run, or will when it gets to it. -/
def TokenRun.alive (run : TokenRun) : Bool :=
  run.executed || (run.acceptedAt.isSome && run.status == .pending)

structure ConfirmSystem where
  now : ℕ := 0
  redis : ClaimStore := fun _ => none
  issued : List WorkflowRunGrant := []
  starts : List Start := []
  runs : List TokenRun := []

namespace ConfirmSystem

variable (s : ConfirmSystem)

def setRedis (redis : ClaimStore) : ConfirmSystem := { s with redis }

def setStart (i : ℕ) (start : Start) : ConfirmSystem := { s with starts := s.starts.set i start }

def setStage (i : ℕ) (start : Start) (stage : Stage) : ConfirmSystem :=
  s.setStart i { start with stage }

def addRun (tokenId : String) : ConfirmSystem := { s with runs := s.runs ++ [{ tokenId }] }

def modifyRun (runId : Option ℕ) (f : TokenRun → TokenRun) : ConfirmSystem :=
  match runId with
  | none => s
  | some r => { s with runs := s.runs.modify r f }

def runOf (start : Start) : Option TokenRun := start.runId.bind fun r => s.runs[r]?

end ConfirmSystem

/-- What users, workers, the clock and the engine do. -/
inductive Move where
  | wait (ms : ℕ)
  | issue (userId workflowId : ℕ) (stamp tokenId : String)
  | post (userId token : ℕ)
  | refuse (start : ℕ)
  | claim (start : ℕ) (reply : CommandReply)
  | create (start : ℕ)
  /-- Something outside the dispatch raises. -/
  | raise (start : ℕ)
  /-- `run_no_wait` returns, or raises before or after the engine has accepted the run. -/
  | dispatch (start : ℕ) (accepted raised : Bool)
  | record (start : ℕ) (ok : Bool)
  | markFailed (start : ℕ) (ok : Bool)
  | release (start : ℕ) (reply : CommandReply)
  | confirm (start : ℕ) (reply : CommandReply)
  | crash (start : ℕ)
  /-- The engine delivers a run and the worker takes it. -/
  | take (run : ℕ)
  deriving DecidableEq, Repr

def TokenRun.fail (run : TokenRun) : TokenRun :=
  if run.status ∈ terminalRunStatuses then run else { run with status := .failed }

def step (s : ConfirmSystem) : Move → Option ConfirmSystem
  | .wait ms => some { s with now := s.now + ms }
  | .issue userId workflowId stamp tokenId =>
    -- the ids are random, so none comes up twice
    if tokenId ∈ s.issued.map WorkflowRunGrant.tokenId then none
    else some { s with
      issued := s.issued ++ [⟨userId, workflowId, stamp, tokenId, s.now + tokenTtl⟩] }
  | .post userId token => do
    match verifyRunToken (← s.issued[token]?) userId s.now with
    | none => return s
    | some grant => return { s with starts := s.starts ++ [{ grant }] }
  | .refuse i => do
    let start ← s.starts[i]?
    if start.stage = .verified then return s.setStage i start .ended else none
  | .claim i reply => do
    let start ← s.starts[i]?
    if start.stage = .verified then
      match claim s.redis s.now start.grant.tokenId reply with
      | (redis, some true) =>
        return (s.setRedis redis).setStart i { start with stage := .claimed, claimedAt := s.now }
      | (redis, _) => return (s.setRedis redis).setStage i start .ended
    else none
  | .create i => do
    let start ← s.starts[i]?
    if start.stage = .claimed then
      return (s.addRun start.grant.tokenId).setStart i
        { start with stage := .created, runId := some s.runs.length }
    else none
  | .raise i => do
    let start ← s.starts[i]?
    if start.stage ∈ [.claimed, .created, .started] then return s.setStage i start .raising
    else none
  | .dispatch i accepted raised => do
    let start ← s.starts[i]?
    if start.stage = .created ∧ (accepted ∨ raised) then
      let s := if accepted then s.modifyRun start.runId fun run =>
        { run with acceptedAt := some s.now } else s
      return s.setStage i start (if raised then .failing else .dispatched)
    else none
  | .record i ok => do
    let start ← s.starts[i]?
    if start.stage = .dispatched then
      return s.setStage i start (if ok then .started else .failing)
    else none
  | .markFailed i ok => do
    let start ← s.starts[i]?
    if start.stage = .failing then
      let s := if ok then s.modifyRun start.runId TokenRun.fail else s
      return s.setStage i start .raising
    else none
  | .release i reply => do
    let start ← s.starts[i]?
    if start.stage = .raising then
      return (s.setRedis (release s.redis start.grant.tokenId reply)).setStage i start .ended
    else none
  | .confirm i reply => do
    let start ← s.starts[i]?
    if start.stage = .started then
      return (s.setRedis (confirm s.redis s.now start.grant.tokenId reply)).setStage i start
        .confirmed
    else none
  | .crash i => do
    let start ← s.starts[i]?
    if start.goesOn then return s.setStage i start .ended else none
  | .take r => do
    let run ← s.runs[r]?
    if run.acceptedAt.isSome ∧ run.status = .pending then
      return s.modifyRun (some r) fun run => { run with status := .running, executed := true }
    else none

/-- At most one run made from a token was dispatched while the token was valid and executed. -/
def OneRunPerToken (s : ConfirmSystem) : Prop :=
  ∀ grant ∈ s.issued, ∀ (r r' : ℕ) (run run' : TokenRun) (t t' : ℕ),
    s.runs[r]? = some run → s.runs[r']? = some run' →
    run.tokenId = grant.tokenId → run'.tokenId = grant.tokenId →
    run.acceptedAt = some t → run'.acceptedAt = some t' →
    t < grant.expiresAt → t' < grant.expiresAt →
    run.executed = true → run'.executed = true → r = r'

/-- No claim lapses and is taken again while the start it was made for goes on, no confirmation is
lost, and a start that ends without one has left no run the engine executes. -/
def settlesInTime (s : ConfirmSystem) : Move → Bool
  | .claim i _ =>
    s.starts[i]?.all fun start => (s.redis.get s.now (key start.grant.tokenId)).isSome ||
      s.starts.all fun other => other.grant.tokenId != start.grant.tokenId || !other.goesOn
  | .confirm _ reply => reply != .failed false
  | .release i _ | .crash i => s.starts[i]?.all fun start =>
      (s.runOf start).all fun run => !run.alive
  | _ => true

end Manus.Assistant
