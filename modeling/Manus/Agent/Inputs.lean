import Manus.Expression.Resolvers

/-! # What is sent to an agent

A step that asks an agent selects values of a device by path. The configuration
is checked for paths that name a secret; when a request is built, each path is
resolved, and a value that holds a sealed secret or a value under a secret name is
refused. The check and the resolver split a path each in its own way. Every value
has a place among the bags of the device, and the place shows whether the two
agree.
-/

namespace Manus.Agent

open Expression

section Configuration

def stepId : String := "route-to-agent"

end Configuration

section Resolution

variable (device : DeviceContext)

end Resolution

section Values

mutual

def valueCount : Json → ℕ
  | .arr items => valueCountList items + 1
  | .obj fields => valueCountFields fields + 1
  | _ => 1

def valueCountList : List Json → ℕ
  | [] => 0
  | v :: vs => valueCount v + valueCountList vs

def valueCountFields : List (String × Json) → ℕ
  | [] => 0
  | (_, v) :: fields => valueCount v + valueCountFields fields

end

/-- An input that must not leave through this step. -/
inductive InputRefused where
  | sealedSecret (path : String)
  | secretKey (path key : String)
  deriving DecidableEq

def InputRefused.code : InputRefused → String
  | .sealedSecret _ => "source_sealed"
  | .secretKey _ _ => "source_secret"

def InputRefused.message : InputRefused → String
  | .sealedSecret path => "input " ++ reprText path ++
      " holds a sealed secret and cannot be sent to an agent"
  | .secretKey path key => "input " ++ reprText path ++
      " contains a value under the secret-looking key " ++ reprText key

end Values

section Scan

end Scan

section Places

/-- One step into a value: under a key of an object, or to an item of a list. -/
inductive PlaceStep where
  | key (key : String)
  | item (index : ℕ)
  deriving DecidableEq

def child : Json → PlaceStep → Option Json
  | value, .key key => value.get? key
  | .arr items, .item index => items[index]?
  | _, .item _ => none

/-- A place among the bags of a device: the name of the bag, or `parsed`, and steps into it. -/
structure Place where
  bag : String
  steps : List PlaceStep

def PlaceStep.name? : PlaceStep → Option String
  | .key k => some k
  | .item _ => none

def stepKeys (steps : List PlaceStep) : List String := steps.filterMap PlaceStep.name?

def Place.keys (place : Place) : List String := place.bag :: stepKeys place.steps

variable (device : DeviceContext)

def segmentKey : PathSegment → String
  | .key key => key
  | .filter key _ _ => key
  | .index key _ => key

end Places

section Provenance

variable {device : DeviceContext} {value v : Json}

end Provenance

section Withheld

variable {device : DeviceContext} {config attributes : Dict Json} {paths : List String}

end Withheld

section Examples

end Examples

end Manus.Agent
