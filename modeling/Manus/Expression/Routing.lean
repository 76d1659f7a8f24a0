import Mathlib.Data.Finset.Sort
import Mathlib.Data.Prod.Lex
import Mathlib.Data.String.Basic
import Manus.Expression.Crashes

/-! # Routing on an attribute

A step that sends every device to the outcome of the first route that matches it. The
regex questions of all routes are asked in rounds, in an isolated runner, before any
device is routed: each round evaluates all routes for all devices with the answers that
there are, and asks for those that were missing.
-/

namespace Manus.Expression

section Values

/-- `LEGACY_TOKENS`. -/
def legacyTokens : List (String × String) :=
  [("\x7babsent\x7d", "\x7b:isAbsent()\x7d"), ("\x7bnull\x7d", "\x7b:isNull()\x7d"),
    ("\x7bempty\x7d", "\x7b:isEmpty()\x7d"), ("\x7bexists\x7d", "\x7b:exists()\x7d")]

/-- Outcome names that the engine itself gives a meaning. -/
def reservedOutcomes : List String := ["success", "failure"]

/-- Why an outcome name cannot be used. -/
def outcomeProblem (outcome : String) (seen : List String) : Option String :=
  if outcome = "" then some "is required"
  else if outcome ∈ reservedOutcomes then some (reprText outcome ++ " is reserved")
  else if outcome ∈ seen then some (reprText outcome ++ " is used twice")
  else none

/-- `split_values` from one character on, with the depth of braces, the quote that is open and
whether a backslash came before, and the characters of the value so far. -/
def splitFrom : ℕ → Option Char → Bool → List Char → List Char → List (List Char)
  | _, _, _, current, [] => [pyStrip current.reverse]
  | depth, some quote, true, current, c :: text =>
    splitFrom depth (some quote) false (c :: current) text
  | depth, some quote, false, current, c :: text =>
    if c = '\\' then splitFrom depth (some quote) true (c :: current) text
    else if c = quote then splitFrom depth none false (c :: current) text
    else splitFrom depth (some quote) false (c :: current) text
  | depth, none, escaped, current, c :: text =>
    if depth ≠ 0 ∧ (c = '\'' ∨ c = '"') then splitFrom depth (some c) escaped (c :: current) text
    else if c = '{' then splitFrom (depth + 1) none escaped (c :: current) text
    else if c = '}' then splitFrom (depth - 1) none escaped (c :: current) text
    else if c = ',' ∧ depth = 0 then pyStrip current.reverse :: splitFrom 0 none escaped [] text
    else splitFrom depth none escaped (c :: current) text

def splitValues (raw : String) : List String :=
  ((splitFrom 0 none false [] raw.toList).filter (· ≠ [])).map String.ofList

/-- `str(value).strip()`. -/
def strippedStr (value : Json) : Except PyException String :=
  (strJson value).map fun text => String.ofList (pyStrip text.toList)

def rawValuesToList : Option Json → Except PyException (List String)
  | none | some .null => .ok []
  | some (.str text) => .ok (splitValues text)
  | some (.arr items) => (items.mapM strippedStr).map fun texts => texts.filter (· ≠ "")
  | some _ => .error (.valueError "values must be a list")

/-- An expression that the parser can have accepted. -/
abbrev RouteExpression := { e : Expr // e.WellFormed }

variable (letters : TextCase)

/-- `LEGACY_TOKENS.get(re.sub(r"\s+", "", value.lower()))`. -/
def legacyReplacement (value : String) : Option String :=
  legacyTokens.lookup (String.ofList ((letters.lower value).toList.filter fun c => !isPySpace c))

def classifyValues : List String → Except PyException (List String × List RouteExpression)
  | [] => .ok ([], [])
  | value :: values =>
    match legacyReplacement letters value with
    | some replacement =>
      .error (.valueError (reprText value ++ " was replaced by " ++ reprText replacement))
    | none =>
      if isExpression value then
        match h : parseExpression value with
        | .error message => .error (.valueError message)
        | .ok e => (classifyValues values).map fun r =>
          (r.1, ⟨e, parseExpression_wellFormed h⟩ :: r.2)
      else (classifyValues values).map fun r => (value :: r.1, r.2)

end Values

section Config

structure Route where
  outcome : String
  literals : List String
  expressions : List RouteExpression

structure RoutePlan where
  attributePath : String
  routes : List Route
  caseSensitive : Bool
  defaultOutcome : Option String

def defaultAttributePath : String := "device.network_driver"

def defaultRoutes : Json :=
  .arr [.obj [("outcome", .str "ios"), ("values", .arr [.str "cisco_ios", .str "ios"])],
    .obj [("outcome", .str "nxos"), ("values", .arr [.str "cisco_nxos", .str "nxos"])]]

/-- The `ValueError` of the step itself. -/
def stepError (message : String) : PyException := .valueError ("route-on-attribute: " ++ message)

/-- `str(value or default).strip()`. -/
def strippedOr (value : Option Json) (default : String) : Except PyException String :=
  match value with
  | some value => strippedStr (if value.truthy then value else .str default)
  | none => strippedStr (.str default)

variable (letters : TextCase)

def parseRoute (seen : List String) (index : ℕ) : Json → Except PyException Route
  | .obj fields => do
    let name := "routes[" ++ toString index ++ "]"
    let outcome ← strippedOr (fields.lookup "outcome") ""
    match outcomeProblem outcome seen with
    | some problem => throw (stepError (name ++ ".outcome " ++ problem))
    | none =>
      match rawValuesToList (fields.lookup "values") >>= classifyValues letters with
      | .ok (literals, expressions) => return { outcome, literals, expressions }
      | .error (.valueError message) => throw (stepError (name ++ ": " ++ message))
      | .error e => throw e
  | _ => .error (stepError ("routes[" ++ toString index ++ "] must be an object"))

def parseRoutesFrom (seen : List String) (index : ℕ) : List Json → Except PyException (List Route)
  | [] => .ok []
  | raw :: raws => do
    let route ← parseRoute letters seen index raw
    return route :: (← parseRoutesFrom (route.outcome :: seen) (index + 1) raws)

/-- `_parse_routes`. -/
def parseRoutes (config : Dict Json) : Except PyException (List Route) :=
  match (config.get? "routes").getD .null with
  | .null => parseList defaultRoutes
  | raw => parseList raw
where
  parseList : Json → Except PyException (List Route)
    | .arr (raw :: raws) => parseRoutesFrom letters [] 0 (raw :: raws)
    | _ => .error (stepError "at least one route is required")

/-- `_parse_case_sensitive`. -/
def parseCaseSensitive (config : Dict Json) : Bool :=
  match (config.get? "case_sensitive").getD (.bool false) with
  | .bool b => b
  | .str text => letters.lower (String.ofList (pyStrip text.toList)) ∈ ["1", "true", "yes", "on"]
  | value => value.truthy

def parseConfig (config : Dict Json) : Except PyException RoutePlan := do
  let attributePath ← strippedOr (config.get? "attribute_path") defaultAttributePath
  if attributePath = "" then throw (stepError "attribute_path is required")
  else
    let routes ← parseRoutes letters config
    let caseSensitive := parseCaseSensitive letters config
    let outcome ← strippedOr (config.get? "default_outcome") ""
    if outcome ∈ reservedOutcomes then
      throw (stepError ("default_outcome " ++ reprText outcome ++ " is reserved"))
    else
      return { attributePath, routes, caseSensitive,
               defaultOutcome := if outcome = "" then none else some outcome }

end Config

section Matching

variable (letters : TextCase) (occurredAt : DeviceError → String) (plan : RoutePlan)

def normalizeValue (value : String) : String :=
  if plan.caseSensitive then value else letters.casefold value

/-- Whether a route matches; every expression of it is evaluated. -/
def matchRoute (device : DeviceContext) (deviceValue : Option String) (regex : RegexLookup)
    (error : Option ReportedError) (route : Route) : Evaluation Bool := do
  let hits ← route.expressions.mapM fun e =>
    evaluate letters device plan.attributePath regex error e.1
  if hits.any id then return true
  else
    match deviceValue with
    | none => return false
    | some value =>
      let wanted := route.literals.map (normalizeValue letters plan)
      return decide (normalizeValue letters plan value ∈ wanted)

def latestError (device : DeviceContext) : Option ReportedError :=
  device.errors.getLast?.map fun error => ⟨error, occurredAt error⟩

def deviceInputs (device : DeviceContext) :
    Except PyException (Option ReportedError × AttributeState × Option String) := do
  let error := latestError occurredAt device
  let (state, resolved) ← resolveDeviceAttributeState device error plan.attributePath
  return (error, state, resolved)

/-- A lookup that only collects what there is to ask. -/
def collecting (answers : RegexKey → Option RegexAnswer) : RegexLookup :=
  { results := answers, strict := false }

/-- One round of collecting, for one device: every route is evaluated. -/
def collectDevice (regex : RegexLookup) (device : DeviceContext) : Evaluation Unit := do
  let (error, _, resolved) ← deviceInputs occurredAt plan device
  plan.routes.forM fun route => do
    let _ ← matchRoute letters plan device resolved regex error route

/-- The questions of a round that the answers leave open. -/
def collect (devices : Dict DeviceContext) (answers : RegexKey → Option RegexAnswer) :
    Except PyException (Finset RegexKey) :=
  (devices.values.forM (collectDevice letters occurredAt plan (collecting answers)) ∅).map Prod.snd

end Matching

section Runner

/-- What the isolated runner reports for a batch. -/
structure RegexOutcome where
  ok : Bool
  result : Json := .null
  error : Option String := none

/-- `BATCH_SIZE`. -/
def batchSize : ℕ := 500

def readAnswer : Json → RegexAnswer
  | .bool b => .found b
  | .str "invalid" => .invalid
  | _ => .stopped

/-- `sorted(set(pending))`. -/
def sortKeys (pending : Finset RegexKey) : List RegexKey :=
  ((pending.image fun key => toLex (key.1, toLex key.2)).sort).map fun key =>
    ((ofLex key).1, ofLex (ofLex key).2)

variable (runRegex : List RegexKey → RegexOutcome)

def runnerFailed (outcome : RegexOutcome) : PyException :=
  .valueError <| match outcome.error with
    | none | some "" => "the regular expression runner returned no result"
    | some message => message

def askBatch (chunk : List RegexKey) : Except PyException (List (RegexKey × RegexAnswer)) :=
  let outcome := runRegex chunk
  match outcome.ok, outcome.result with
  | true, .arr answers =>
    if answers.length = chunk.length then .ok (chunk.zip (answers.map readAnswer))
    else .error (runnerFailed outcome)
  | _, _ => .error (runnerFailed outcome)

/-- The batches one after the other, each of at least one question. -/
def askBatches : ℕ → List RegexKey → Except PyException (List (RegexKey × RegexAnswer))
  | 0, _ | _, [] => .ok []
  | fuel + 1, keys => do
    let answers ← askBatch runRegex (keys.take batchSize)
    return answers ++ (← askBatches fuel (keys.drop batchSize))

/-- `resolve_regex_batch`. -/
def resolveRegexBatch (pending : Finset RegexKey) :
    Except PyException (RegexKey → Option RegexAnswer) :=
  let keys := sortKeys pending
  (askBatches runRegex keys.length keys).map fun answers key => answers.lookup key

end Runner

section Execute

inductive RouteError where
  | raised (e : PyException)
  | tooDeep (message : String)

/-- `_MAX_REGEX_PASSES`. -/
def maxRegexPasses : ℕ := 4

/-- The `ValueError` when the rounds do not come to an end. -/
def levelsDeep : RouteError :=
  .tooDeep ("route-on-attribute: regular expression results feed into each other more than " ++
    toString maxRegexPasses ++ " levels deep")

inductive Placement where
  | outcome (name : String)
  | failure (code message : String)
  deriving DecidableEq

structure RoutedDevice where
  state : AttributeState
  placement : Placement

variable (letters : TextCase) (occurredAt : DeviceError → String)
  (runRegex : List RegexKey → RegexOutcome) (plan : RoutePlan)

/-- `_answer_regex_questions` with so many passes left. -/
def answerRounds (devices : Dict DeviceContext) :
    ℕ → (RegexKey → Option RegexAnswer) → Except RouteError (RegexKey → Option RegexAnswer)
  | 0, answers => do
    let pending ← (collect letters occurredAt plan devices answers).mapError .raised
    if pending = ∅ then return answers else throw levelsDeep
  | passes + 1, answers => do
    let pending ← (collect letters occurredAt plan devices answers).mapError .raised
    if pending = ∅ then return answers
    else
      let more ← (resolveRegexBatch runRegex pending).mapError .raised
      answerRounds devices passes fun key => (more key).or (answers key)

def answerRegexQuestions (devices : Dict DeviceContext) :
    Except RouteError (RegexKey → Option RegexAnswer) :=
  answerRounds letters occurredAt runRegex plan devices maxRegexPasses fun _ => none

def firstMatch (device : DeviceContext) (deviceValue : Option String) (regex : RegexLookup)
    (error : Option ReportedError) : List Route → Evaluation (Option String)
  | [] => return none
  | route :: routes => do
    if ← matchRoute letters plan device deviceValue regex error route then
      return some route.outcome
    else firstMatch device deviceValue regex error routes

/-- Without a match a device goes to the default outcome, if there is one. -/
def defaultPlacement : Placement :=
  match plan.defaultOutcome with
  | some name => .outcome name
  | none => .failure "no_route_matched"
      "the attribute value matched no route and no default outcome is set"

/-- One turn of `_route_devices`. Questions on record from other devices do not matter. -/
def routeDevice (regex : RegexLookup) (device : DeviceContext) :
    Except PyException RoutedDevice := do
  let (error, state, resolved) ← deviceInputs occurredAt plan device
  match firstMatch letters plan device resolved regex error plan.routes ∅ with
  | .ok (some name, _) => return ⟨state, .outcome name⟩
  | .ok (none, _) => return ⟨state, defaultPlacement plan⟩
  | .error (.regexUnavailable code message) => return ⟨state, .failure code message⟩
  | .error e => throw e

/-- `_route_devices`: what becomes of every device, by its id. -/
def routeDevices (regex : RegexLookup) (devices : Dict DeviceContext) :
    Except PyException (List (String × RoutedDevice)) :=
  devices.entries.mapM fun entry => do
    return (entry.1, ← routeDevice letters occurredAt plan regex entry.2)

section Outcomes

variable (nodeId : String) (routed : List (String × RoutedDevice))

/-- `buckets[name]`. -/
def bucket (devices : Dict DeviceContext) (name : String) : Dict DeviceContext :=
  devices.restrict fun id => (routed.lookup id).any fun r => r.placement = .outcome name

/-- The devices that cannot be routed, marked as failed. -/
def unmatched (devices : Dict DeviceContext) : Dict DeviceContext :=
  .ofPairs <| devices.entries.filterMap fun entry =>
    match (routed.lookup entry.1).map RoutedDevice.placement with
    | some (.failure code message) =>
      some (entry.1, markDeviceFailed entry.2 nodeId "route-on-attribute" code message)
    | _ => none

def outcomeNames : List String :=
  let names := plan.routes.map Route.outcome
  match plan.defaultOutcome with
  | some name => if name ∈ names then names else names ++ [name]
  | none => names

def routedMetadata (context : WorkflowContext) : Dict Json :=
  let counts := (outcomeNames plan).map fun name =>
    (name, Json.int (bucket routed context.devices name).entries.length)
  let missing := (routed.filter fun r => r.2.state = .absent).map fun r => Json.str r.1
  ((context.metadata.insert (nodeId ++ ".attribute_path") (.str plan.attributePath)).insert
    (nodeId ++ ".routed_counts") (.obj counts)).insert
    (nodeId ++ ".missing_attribute_device_ids") (.arr missing)

/-- One outcome for every name, and one more for the devices that failed. -/
def outcomes (context : WorkflowContext) : List StepOutcome :=
  let metadata := routedMetadata plan nodeId routed context
  let failed := unmatched nodeId routed context.devices
  (outcomeNames plan).map (fun name =>
    ⟨name, { context with devices := bucket routed context.devices name, metadata }⟩) ++
  if failed.isEmpty then [] else [⟨"failure", { context with devices := failed, metadata }⟩]

end Outcomes

variable (config : Dict Json) (nodeId : String) (context : WorkflowContext)

def execute : Except RouteError (List StepOutcome) :=
  if context.devices.isEmpty then .ok [⟨"success", context⟩]
  else do
    let plan ← (parseConfig letters config).mapError .raised
    let answers ← answerRegexQuestions letters occurredAt runRegex plan context.devices
    let routed ← (routeDevices letters occurredAt plan { results := answers }
      context.devices).mapError .raised
    return outcomes plan nodeId routed context

end Execute

end Manus.Expression
