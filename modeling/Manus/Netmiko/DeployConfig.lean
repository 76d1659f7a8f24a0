import Manus.Context.AttributePath
import Manus.Lib.Regex

/-! # Deploying commands in config mode

The commands of a deploy are sent one after another in config mode, up to the first one that
the device refuses. Devices with a candidate configuration get a commit or, after a refusal,
a rollback; then config mode is left. Every call on the connection can raise, and three exits
lead from there to the next user of the pooled session.
-/

namespace Manus.DeployConfig

section OutputCheck

variable (isWord : Char → Bool)

open Regex in
/-- `\s*` at the start of a line. -/
def lineBlank (r : Regex) : Regex := concat [lineStart, many (char isPySpace), r]

open Regex in
/-- A line that begins with a percent sign. -/
def percent (r : Regex) : Regex :=
  lineBlank (concat [char (· == '%'), many (char isPySpace), r])

open Regex in
/-- `word\b` -/
def whole (r : Regex) : Regex := seq r (wordBoundary isWord)

open Regex in
/-- `_CLI_ERRORS`, without regard to case. -/
def cliErrors : List (String × Regex) :=
  [("invalid_input", percent (word "invalid input detected")),
    ("invalid_input", percent (seq (word "invalid ")
      (whole isWord (oneOf [word "input", word "command"])))),
    ("incomplete_command", percent (word "incomplete command")),
    ("ambiguous_command", percent (word "ambiguous command")),
    ("unknown_command", percent (seq (oneOf [word "unknown", word "unrecognized"])
      (word " command"))),
    ("unknown_command", lineBlank (whole isWord (word "unknown command"))),
    ("syntax_error", lineBlank (whole isWord (word "syntax error while parsing"))),
    ("syntax_error", lineBlank (seq (optional (word "error: "))
      (whole isWord (word "syntax error")))),
    ("authorization_failed", lineBlank (whole isWord (word "command authorization failed"))),
    ("authorization_failed", percent (whole isWord (word "authorization failed"))),
    ("access_denied", percent (whole isWord (word "access denied"))),
    ("bad_value", percent (seq (word "bad ")
      (whole isWord (oneOf [word "ip address", word "mask", word "hostname"]))))]

open Regex in
/-- `_COMMIT_ERRORS` -/
def commitErrors : List (String × Regex) :=
  [("commit_failed", word "failed to commit"), ("commit_failed", word "commit failed"),
    ("commit_failed", lineBlank (seq (word "error: ")
      (oneOf [word "configuration check-out failed", word "commit failed"])))]

/-- The label of the first marker that is found. -/
def findError (markers : List (String × Regex)) (output : String) : Option String :=
  (markers.find? fun marker => marker.2.found none output.toList).map Prod.fst

def findCliError (output : String) : Option String := findError (cliErrors isWord) output

def findCommitError (output : String) : Option String := findError commitErrors output

end OutputCheck

section Connection

inductive Raised where
  | valueError (message : String)
  | configInvalid (message : String)
  | other (message : String)
  deriving DecidableEq

def Raised.message : Raised → String
  | valueError message | configInvalid message | other message => message

abbrev Answer := Except Raised String

/-- What the connection of one device answers during a deploy: each kind of call, and the commands
by their place. -/
structure Connection where
  configMode : Answer
  send : ℕ → Answer
  writeReturn : ℕ → Answer
  readPrompt : ℕ → Answer
  commit : Answer
  exitConfigMode : ℕ → Answer
  saveConfig : Answer
  /-- Whether the transport is still connected when the next operation asks. -/
  isAlive : Bool

/-- What has been done with the session, and the prompts that were confirmed. -/
structure Session where
  inConfig : Bool := false
  sent : List String := []
  commits : ℕ := 0
  rollbacks : ℕ := 0
  exits : ℕ := 0
  confirmed : List String := []

variable (isWord : Char → Bool) (c : Connection) (deviceType : String)

/-- `_is_awaiting_answer`: the last line is an open prompt. -/
def isAwaitingAnswer (output : String) : Bool :=
  let lastLine := ((output.toList.reverse.dropWhile isPySpace).takeWhile (· ≠ '\n')).reverse
  let lowered := lastLine.map Char.toLower
  decide ("[confirm]".toList <:+: lowered) || decide ("destination filename".toList <:+: lowered)

/-- `_send_command_confirming` for the command at a place. -/
def sendCommandConfirming (i : ℕ) : Except Raised (String × Bool) := do
  let output ← c.send i
  if isAwaitingAnswer output then
    let _ ← c.writeReturn i
    let more ← c.readPrompt i
    return (output ++ more, true)
  else return (output, false)

inductive Ending where
  | finished
  | rejected (index : ℕ)
  | raised (e : Raised)

/-- The walk: what the device answered, the prompts confirmed and the commands sent. -/
structure Walk where
  outputs : List String
  confirmed : List String
  sent : List String
  ending : Ending

/-- The loop of `_send_config_set_confirming`, from a place on. -/
def sendCommands : ℕ → List String → Walk
  | _, [] => ⟨[], [], [], .finished⟩
  | i, command :: commands =>
    match sendCommandConfirming c i with
    | .error e => ⟨[], [], [command], .raised e⟩
    | .ok (text, wasConfirmed) =>
      let confirmed := if wasConfirmed then [command] else []
      if (findCliError isWord text).isSome then ⟨[text], confirmed, [command], .rejected i⟩
      else
        let rest := sendCommands (i + 1) commands
        ⟨text :: rest.outputs, confirmed ++ rest.confirmed, command :: rest.sent, rest.ending⟩

/-- `device_type.removesuffix("_ssh")` -/
def driver : String :=
  if deviceType.endsWith "_ssh" then (deviceType.dropEnd 4).toString else deviceType

def isCommitModel : Bool := driver deviceType ∈ ["cisco_xr", "juniper_junos", "juniper"]

/-- `_commit_if_needed` -/
def commitIfNeeded (s : Session) : Answer × Session :=
  if isCommitModel deviceType = false then (.ok "", s)
  else
    let s := { s with commits := s.commits + 1 }
    match c.commit with
    | .error (.valueError _) =>
      (.error (.configInvalid "commit refused (commit_failed)"), s)
    | .error e => (.error e, s)
    | .ok output =>
      match (findCliError isWord output).or (findCommitError output) with
      | some label => (.error (.configInvalid s!"commit refused ({label})"), s)
      | none => (.ok output, s)

/-- `_discard_candidate`, which raises nothing. -/
def discardCandidate (s : Session) : Session :=
  if driver deviceType ∈ ["juniper_junos", "juniper"] then
    { s with rollbacks := s.rollbacks + 1 }
  else s

/-- `exit_config_mode()` -/
def exitConfigMode (s : Session) : Answer × Session :=
  match c.exitConfigMode s.exits with
  | .ok text => (.ok text, { s with inConfig := false, exits := s.exits + 1 })
  | .error e => (.error e, { s with exits := s.exits + 1 })

end Connection

section Deploy

structure DeployResult where
  success : Bool
  configOutput : String := ""
  saveOutput : Option String := none
  error : Option String := none
  confirmedPrompts : List String := []

variable (isWord : Char → Bool) (c : Connection) (deviceType : String) (commands : List String)

/-- Config mode is left, and what that prints is added to the output. -/
def leaveWith (output : String) (index : Option ℕ) (s : Session) :
    Except Raised (String × Option ℕ) × Session :=
  match exitConfigMode c s with
  | (.error e, s) => (.error e, s)
  | (.ok left, s) => (.ok (output ++ left, index), s)

/-- All commands were sent: the commit, where there is one, and config mode is left. -/
def commitAndLeave (output : String) (s : Session) :
    Except Raised (String × Option ℕ) × Session :=
  match commitIfNeeded isWord c deviceType s with
  | (.error e, s) => (.error e, s)
  | (.ok committed, s) => leaveWith c (output ++ committed) none s

/-- What follows the walk over the commands, by its ending. -/
def afterCommands (entered : String) (walk : Walk) (s : Session) :
    Except Raised (String × Option ℕ) × Session :=
  let s := { s with inConfig := true, sent := s.sent ++ walk.sent }
  let output := "\n".intercalate (entered :: walk.outputs)
  match walk.ending with
  | .raised e => (.error e, s)
  | .rejected index =>
    leaveWith c output (some index)
      (discardCandidate deviceType { s with confirmed := walk.confirmed })
  | .finished => commitAndLeave isWord c deviceType output { s with confirmed := walk.confirmed }

/-- The `try` block: the output, and the index of a command that was refused. -/
def deployBody (s : Session) : Except Raised (String × Option ℕ) × Session :=
  match c.configMode with
  | .error e => (.error e, s)
  | .ok entered => afterCommands isWord c deviceType entered (sendCommands isWord c 0 commands) s

/-- `_NETMIKO_REJECTION`: the command that the text of an exception names. -/
def namedCommand (text : List Char) : Option (List Char) :=
  let start := "at command: ".toList
  let stop := ", matched error:".toList
  (text.tails.find? fun rest => start.isPrefixOf rest && decide (stop <:+: rest)).bind fun rest =>
    let rest := rest.drop start.length
    (rest.inits.find? fun command => stop.isPrefixOf (rest.drop command.length))

/-- `_command_index` -/
def commandIndex (text : String) : Option ℕ :=
  (namedCommand text.toList).bind fun named =>
    commands.findIdx? fun command => pyStrip command.toList = pyStrip named

/-- `_config_rejected` -/
def configRejected (index : Option ℕ) (label output : String) (confirmed : List String) :
    DeployResult :=
  let place := match index with
    | some index => s!"command {index + 1} of {commands.length}"
    | none => "a command"
  { success := false
    configOutput := output
    error := some s!"The device rejected {place} ({label}); the remaining commands were not sent"
    confirmedPrompts := confirmed }

/-- The end of both `except` branches: a candidate is discarded, and leaving config mode is
tried. -/
def leaveAfterFailure (s : Session) : Session :=
  (exitConfigMode c (discardCandidate deviceType s)).2

/-- `deploy_config` in config mode, with prompts confirmed and errors of the device looked for. -/
def deployConfig (s : Session) : DeployResult × Session :=
  match deployBody isWord c deviceType commands s with
  | (.ok (output, some index), s) =>
    (configRejected commands (some index) ((findCliError isWord output).getD "unknown") output
      s.confirmed, s)
  | (.ok (output, none), s) =>
    ({ success := true, configOutput := output, confirmedPrompts := s.confirmed }, s)
  | (.error (.configInvalid message), s) =>
    (configRejected commands (commandIndex commands message) "refused" "" s.confirmed,
      leaveAfterFailure c deviceType s)
  | (.error e, s) =>
    ({ success := false, error := some e.message }, leaveAfterFailure c deviceType s)

/-- What `NetmikoService.deploy_config` runs on the session. -/
def deploy (host : String) (writeConfig : Bool) (s : Session) : DeployResult × Session :=
  let (result, s) := deployConfig isWord c deviceType commands s
  if result.success = false ∨ writeConfig = false then (result, s)
  else
    match c.saveConfig with
    | .ok saved => ({ result with saveOutput := some saved }, s)
    | .error e =>
      ({ success := false
         configOutput := result.configOutput
         confirmedPrompts := result.confirmedPrompts
         error := some (s!"Failed to save running-config to startup-config on {host}: " ++
          e.message) }, s)

/-- `run_on_device` for the next operation: a session that is not alive is connected anew. -/
def nextStartsInConfig (s : Session) : Bool := c.isAlive && s.inConfig

end Deploy

end Manus.DeployConfig
