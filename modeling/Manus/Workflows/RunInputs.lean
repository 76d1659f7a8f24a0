import Manus.Attributes.Defaults
import Manus.Lib.Dict
import Manus.Lib.Double
import Manus.Releases.Stamp

/-! # The inputs of a run

A workflow declares the inputs of its runs, each with a type and maybe a default. The
values that are supplied are checked and converted, what is left out gets its default,
and the result is what the run is stored with. Schedules and change requests supply what
they stored before.
-/

namespace Manus.RunInputs

open Defaults (stripText)

abbrev Value := JsonValue (Number Double)

section Attributes

inductive StaticAttributeType where
  | string
  | number
  | boolean
  | reference
  | secret
  deriving DecidableEq

inductive ReferenceKind where
  | inventory
  | credential
  deriving DecidableEq

/-- `StaticAttributeDef`; a default that is null is none. -/
structure StaticAttributeDef where
  name : String
  type : StaticAttributeType
  refKind : Option ReferenceKind
  default : Value
  required : Bool
  name_length : 1 ≤ name.length ∧ name.length ≤ 100
  ref_kind : refKind.isSome = true ↔ type = .reference
  secret_default : type = .secret → default = .null

def StaticAttributeType.text : StaticAttributeType → String
  | .string => "string"
  | .number => "number"
  | .boolean => "boolean"
  | .reference => "reference"
  | .secret => "secret"

/-- Whether the default has the type of the attribute. -/
def typeOk (attr : StaticAttributeDef) : Bool :=
  match attr.type, attr.default with
  | .string, .str _ => true
  | .number, .num _ => true
  | .boolean, .bool _ => true
  | .reference, .num (.int _) => attr.refKind = some .inventory
  | .reference, .str _ => attr.refKind = some .credential
  | _, _ => false

/-- One attribute of a workflow that is saved, after those with the names seen. -/
def validateStaticAttribute (seen : List String) (attr : StaticAttributeDef) :
    Except String (List String) :=
  if attr.name ∈ seen then .error ("Duplicate static attribute name: " ++ reprText attr.name)
  else
    match attr.default with
    | .null => .ok (attr.name :: seen)
    | _ =>
      if typeOk attr then .ok (attr.name :: seen)
      else .error ("Static attribute " ++ reprText attr.name ++ ": default does not match type '" ++
        attr.type.text ++ "'")

def validateStaticAttributes (attributes : List StaticAttributeDef) : Except String Unit :=
  (attributes.foldlM validateStaticAttribute []).map fun _ => ()

end Attributes

section Coercion

def sealedMarker : String := "__am_sealed__"

/-- `seal_secret(plaintext)`, given the tokens of the encryption. -/
def sealSecret (encrypt : String → String) (plaintext : String) : Value :=
  .obj [(sealedMarker, .bool true), ("v", .num (.int 2)), ("ct", .str (encrypt plaintext))]

def isSealedSecret : Value → Bool
  | .obj fields =>
    (match fields.lookup sealedMarker with
      | some (.bool b) => b
      | _ => false) && (fields.lookup "ct").isSome
  | _ => false

/-- The number that a text is. -/
def numberOfText (text : String) : Option (Number Double) :=
  if text.toList.any fun c => c ∈ ['.', 'e', 'E'] then
    (Double.ofText? (pyStrip text.toList)).map .float
  else (intOfText text.toList).map .int

def ReferenceKind.text : ReferenceKind → String
  | .inventory => "'inventory'"
  | .credential => "'credential'"

def positiveId (attr : StaticAttributeDef) (candidate : ℤ) : Except String Value :=
  if candidate ≤ 0 then .error (attr.name ++ ": expected a positive inventory id")
  else .ok (.num (.int candidate))

/-- What is kept of a reference, or the error that is reported. -/
def coerceReference (attr : StaticAttributeDef) (value : Value) : Except String Value :=
  match attr.refKind with
  | some .inventory =>
    match value with
    | .num (.int n) => positiveId attr n
    | .str text =>
      match intOfText text.toList with
      | some n => positiveId attr n
      | none => .error (attr.name ++ ": expected an inventory id")
    | _ => .error (attr.name ++ ": expected an inventory id")
  | some .credential =>
    match value with
    | .str text =>
      if stripText text = "" then .error (attr.name ++ ": expected a credential name")
      else .ok (.str (stripText text))
    | _ => .error (attr.name ++ ": expected a credential name")
  | none => .error (attr.name ++ ": unsupported ref_kind None")

/-- What is kept of a supplied value, or the error that is reported. -/
def coerce (sealer : String → Value) (attr : StaticAttributeDef) (value : Value) :
    Except String Value :=
  match attr.type with
  | .string =>
    match value with
    | .str text => .ok (.str text)
    | _ => .error (attr.name ++ ": expected a string")
  | .number =>
    match value with
    | .num n => .ok (.num n)
    | .str text =>
      match numberOfText text with
      | some n => .ok (.num n)
      | none => .error (attr.name ++ ": expected a number")
    | _ => .error (attr.name ++ ": expected a number")
  | .boolean =>
    match value with
    | .bool b => .ok (.bool b)
    | _ => .error (attr.name ++ ": expected a boolean")
  | .reference => coerceReference attr value
  | .secret =>
    if isSealedSecret value then .ok value
    else
      match value with
      | .str text =>
        if text = "" then .error (attr.name ++ ": expected a non-empty secret")
        else .ok (sealer text)
      | _ => .error (attr.name ++ ": expected a non-empty secret")

end Coercion

section Resolution

variable (sealer : String → Value)

def resolveAttribute (attr : StaticAttributeDef) : Option Value → Except String (Option Value)
  | some value => (coerce sealer attr value).map some
  | none =>
    match attr.default with
    | .null =>
      if attr.required then .error (attr.name ++ ": required, no value supplied and no default")
      else .ok none
    | default => .ok (some default)

/-- The values and the errors so far. -/
structure Resolved where
  values : Dict Value
  errors : List String

def Resolved.add (supplied : Dict Value) (resolved : Resolved) (attr : StaticAttributeDef) :
    Resolved :=
  match resolveAttribute sealer attr (supplied.get? attr.name) with
  | .ok (some value) => { resolved with values := resolved.values.insert attr.name value }
  | .ok none => resolved
  | .error e => { resolved with errors := resolved.errors ++ [e] }

def unknownInputs (attributes : List StaticAttributeDef) (supplied : Dict Value) : List String :=
  (supplied.keys.filter fun key => key ∉ attributes.map StaticAttributeDef.name).mergeSort
    fun a b => decide (a ≤ b)

def resolveWith (attributes : List StaticAttributeDef) (supplied : Dict Value) :
    Except String (Dict Value) :=
  if unknownInputs attributes supplied ≠ [] then
    .error ("Unknown run input(s) not declared on this workflow: " ++
      ", ".intercalate (unknownInputs attributes supplied))
  else
    let resolved := attributes.foldl (Resolved.add sealer supplied) ⟨∅, []⟩
    if resolved.errors ≠ [] then .error ("; ".intercalate resolved.errors)
    else .ok resolved.values

/-- `resolve_run_inputs` with the sealer that it has by default. -/
def resolveRunInputs (encrypt : String → String) (attributes : List StaticAttributeDef)
    (supplied : Dict Value) : Except String (Dict Value) :=
  resolveWith (sealSecret encrypt) attributes supplied

end Resolution

end Manus.RunInputs
