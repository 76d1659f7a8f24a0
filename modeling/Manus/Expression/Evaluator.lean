import Manus.Expression.Parser
import Manus.Expression.Lookup

/-! # Evaluation of attribute expressions

An expression is evaluated against one device, both sides of `and` and `or`
included. A regex question is looked up; one without an answer is put on record
and reads as false.
-/

namespace Manus.Expression

section Regex

/-- A question to the regex runner: text, pattern and mode. -/
abbrev RegexKey := String × String × String

inductive RegexAnswer where
  | found (b : Bool)
  | invalid
  | stopped
  deriving DecidableEq

/-- The answers there are; a strict lookup raises where the runner could not answer. -/
structure RegexLookup where
  results : RegexKey → Option RegexAnswer := fun _ => none
  strict : Bool := true

/-- A computation that may raise, over the questions on record as pending. -/
abbrev Evaluation := StateT (Finset RegexKey) (Except PyException)

def invalidRegex : PyException :=
  .regexUnavailable "invalid_regular_expression" "a regular expression in the route is not valid"

def stoppedRegex : PyException :=
  .regexUnavailable "regular_expression_stopped"
    "a regular expression in the route used too much time or memory"

def RegexLookup.test (regex : RegexLookup) (key : RegexKey) : Evaluation Bool := fun pending =>
  match regex.results key with
  | none => .ok (false, insert key pending)
  | some (.found b) => .ok (b, pending)
  | some .invalid => if regex.strict then .error invalidRegex else .ok (false, pending)
  | some .stopped => if regex.strict then .error stoppedRegex else .ok (false, pending)

end Regex

section Evaluate

/-- `_STATE_FOR_FUNCTION`. -/
def stateForFunction : List (String × AttributeState) :=
  [("isAbsent", .absent), ("isNull", .null), ("isEmpty", .empty), ("exists", .present)]

variable (letters : TextCase) (device : DeviceContext) (defaultPath : String)
  (regex : RegexLookup) (error : Option ReportedError)

/-- A call on the value of its arguments. -/
def applyFunction (name : String) (value : Value) (args : List Value) : Evaluation Value := do
  match regexFunctions.lookup name with
  | some mode =>
    let text ← toText value
    let pattern ← toText (← argument args 0)
    match text, pattern with
    | some text, some pattern => return .bool (← regex.test (text, pattern, mode))
    | _, _ => return .bool false
  | none =>
    match functionSpec name with
    | none => throw (.keyError name)
    | some spec =>
      match spec.impl with
      | none => throw (.valueError (name ++ "() must be the first function in the chain"))
      | some impl => impl letters value args

/-- What a chain starts from, and whether its first call is answered with it. -/
def chainStart (path : String) (calls : List Call) : Except PyException (Value × Bool) := do
  let (state, text) ← resolveDeviceAttributeState device error path
  let subject := text.elim Value.none .text
  match calls with
  | [] => return (subject, false)
  | call :: _ =>
    if call.name = countFunction then
      let items ← countItems (← resolveDeviceAttributeRaw device error path)
      return (.number (Double.round items), true)
    else
      match stateForFunction.lookup call.name with
      | some wanted => return (.bool (state = wanted), true)
      | none => return (subject, false)

mutual

def exprValue : Expr → Evaluation Value
  | .mk subject calls => do
    let path := if subject = "" then defaultPath else subject
    let (value, answered) ← chainStart device error path calls
    match calls with
    | [] => return value
    | call :: calls =>
      if answered then callsValue calls value
      else do callsValue calls (← applyCall call value)

def callsValue : List Call → Value → Evaluation Value
  | [], value => return value
  | call :: calls, value => do callsValue calls (← applyCall call value)

/-- `_apply_call`. -/
def applyCall : Call → Value → Evaluation Value
  | .mk name args, value => do applyFunction letters regex name value (← argValues args)

def argValues : List Node → Evaluation (List Value)
  | [] => return []
  | arg :: args => return (← nodeValue arg) :: (← argValues args)

def nodeValue : Node → Evaluation Value
  | .literal value => return value
  | .expr e => exprValue e

end

/-- Whether the expression holds for the device. -/
def evaluate (e : Expr) : Evaluation Bool := do
  return toBool (← exprValue letters device defaultPath regex error e)

end Evaluate

end Manus.Expression
