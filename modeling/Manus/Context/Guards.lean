import Manus.Context.Merge
import Manus.Lib.Digits

/-! # Capability guards

Before a step runs every device must carry what the step requires; after it
returned, its success path must carry what the step declares.
-/

namespace Manus

/-- The declared contract of a step. -/
structure StepCapabilitySpec where
  stepId : String
  requires : List Capability
  produces : List Capability
  consumes : List Capability
  requiresParsed : List String

def capabilitySpecFromPlugin (plugin : PluginDefinition) : StepCapabilitySpec :=
  ⟨plugin.id, plugin.requires, plugin.produces, plugin.consumes, plugin.requiresParsed⟩

/-- A broken contract, with the step and what is missing or left over. -/
inductive GuardError where
  | missingCapabilities (stepId : String) (missing : List Capability)
  | missingParsedKeys (stepId : String) (missing : List String)
  | newlyFailed (stepId : String) (deviceIds : List String)
  | missingProduces (stepId deviceId : String) (missing : List Capability)
  | leakedConsumes (stepId deviceId : String) (leaked : List Capability)
  deriving DecidableEq, Repr

/-- The outcome a step routes its healthy devices by, when it has one. -/
def successOutcome (outcomes : List StepOutcome) : Option WorkflowContext :=
  (outcomes.find? fun o => o.name == "success").map StepOutcome.context

def preStepGuard (spec : StepCapabilitySpec) (context : WorkflowContext) :
    Except GuardError Unit :=
  if context.devices.isEmpty then .ok ()
  else
    match spec.requires.filter fun c => !context.providesCapability c with
    | c :: cs => .error (.missingCapabilities spec.stepId (c :: cs))
    | [] =>
      match spec.requiresParsed.filter fun k => !context.providesParsedKey k with
      | k :: ks => .error (.missingParsedKeys spec.stepId (k :: ks))
      | [] => .ok ()

section EffectiveProduces

/-- `text.strip().lower() == word` for a lower-case ASCII word without a `k`, which is also the
lower case of the Kelvin sign. -/
def spells (word text : String) : Bool :=
  let chars := (text.toList.dropWhile isPySpace).reverse.dropWhile isPySpace
  chars.reverse.map Char.toLower == word.toList

/-- `str(value).strip().lower() == word`; only a string spells one of the words in use. -/
def Json.spells (word : String) : Json → Bool
  | .str s => Manus.spells word s
  | _ => false

def legacyAttributeKeys : List String :=
  ["mode", "destination_path", "fixed_value", "source_path", "pattern", "destination_template",
    "regex_flags"]

/-- Whether update-attribute writes on every device: one of its entries is in `fixed` mode, which
is also the mode of an entry that names none. -/
def updateAttributeHasGuaranteedWrite (config : Dict Json) : Bool :=
  let entries : List Json :=
    match config.get? "attributes" with
    | some (.arr items) => items
    | _ => if legacyAttributeKeys.any (· ∈ config.keys) then [.obj config.entries] else []
  entries.any fun entry =>
    match entry with
    | .obj fields => ((fields.lookup "mode").getD (.str "fixed")).spells "fixed"
    | _ => false

/-- `config.get("config_format") or "both"`. -/
def configFormat (config : Dict Json) : Json :=
  match config.get? "config_format" with
  | some v => if v.truthy then v else .str "both"
  | none => .str "both"

/-- What a step adds on its success path under this configuration. -/
def effectiveProduces (spec : StepCapabilitySpec) (stepType : String) (config : Dict Json) :
    List Capability :=
  if stepType = "get-device-configs" then
    if (configFormat config).spells "running" then [.runningConfig]
    else if (configFormat config).spells "startup" then [.startupConfig]
    else [.runningConfig, .startupConfig]
  else if stepType = "render-jinja-template" then [.parsed]
  else if stepType = "update-attribute" then
    if updateAttributeHasGuaranteedWrite config then [.attributes] else []
  else if stepType ∈ ["encrypt-attribute", "decrypt-attribute", "get-ise-tacacs-key",
      "add-to-ise", "run-command", "run-catalyst-center-command"] then []
  else spec.produces

end EffectiveProduces

/-- A step may not turn a healthy device into a failed one on its success path. -/
def assertNoNewlyFailedOnSuccess (stepId : String) (input : WorkflowContext)
    (outcomes : List StepOutcome) : Except GuardError Unit :=
  match successOutcome outcomes with
  | none => .ok ()
  | some success =>
    let newlyFailed := success.devices.entries.filter fun p =>
      p.2.status == .failed && (input.devices.get? p.1).any fun before => before.status != .failed
    match newlyFailed.map Prod.fst with
    | [] => .ok ()
    | ids => .error (.newlyFailed stepId ids)

/-- The check of one device on the success path. -/
def postStepGuardDevice (spec : StepCapabilitySpec) (produces : List Capability)
    (deviceId : String) (device : DeviceContext) : Except GuardError Unit :=
  match produces.filter (· ∉ device.capabilities) with
  | c :: cs => .error (.missingProduces spec.stepId deviceId (c :: cs))
  | [] =>
    match spec.consumes.filter (· ∈ device.capabilities) with
    | c :: cs => .error (.leakedConsumes spec.stepId deviceId (c :: cs))
    | [] => .ok ()

def postStepGuard (spec : StepCapabilitySpec) (input : WorkflowContext)
    (outcomes : List StepOutcome) (produces : List Capability) : Except GuardError Unit := do
  assertNoNewlyFailedOnSuccess spec.stepId input outcomes
  match successOutcome outcomes with
  | none => return ()
  | some success =>
    let touched := success.devices.entries.filter fun p => p.1 ∈ input.devices.keys
    touched.forM fun p => postStepGuardDevice spec produces p.1 p.2

end Manus
