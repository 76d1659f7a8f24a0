import Manus.Lib.Digits
import Manus.Lib.JsonNumber
import Manus.Lib.Places
import Mathlib.Algebra.GroupWithZero.Nat

/-! # Size cap of persisted outputs

Only the copy of a step's output that goes to the database is capped. A value above the
limit is replaced by a marker with its size, an object's large children first, and while
the whole is above its limit the largest values that are left are replaced as well.
-/

namespace Manus.OutputCap

open JsonValue (at? putAt)

/-- A persisted value; a float is given by its text. -/
abbrev Json := JsonValue (Number String)

section Sizes

def numberText : Number String → List Char
  | .int n => intText n
  | .float text => text.toList

mutual

/-- `_size(value)`: the length of the text without blanks, which is ASCII. -/
def size : Json → ℕ
  | .null => 4
  | .bool b => if b then 4 else 5
  | .num n => (numberText n).length
  | .str text => (stringText text).length
  | .arr items => 2 + sizeItems items
  | .obj fields => 2 + sizeFields fields

/-- The items and the commas between them. -/
def sizeItems : List Json → ℕ
  | [] => 0
  | item :: items => size item + (if items.isEmpty then 0 else 1) + sizeItems items

def sizeFields : List (String × Json) → ℕ
  | [] => 0
  | (key, value) :: fields =>
    (stringText key).length + 1 + size value + (if fields.isEmpty then 0 else 1) + sizeFields fields

end

mutual

/-- Whether an integer has more digits than can be written. -/
def hasLongInt : Json → Bool
  | .num (.int n) => maxStrDigits < (Nat.toDigits 10 n.natAbs).length
  | .arr items => hasLongIntItems items
  | .obj fields => hasLongIntFields fields
  | _ => false

def hasLongIntItems : List Json → Bool
  | [] => false
  | item :: items => hasLongInt item || hasLongIntItems items

def hasLongIntFields : List (String × Json) → Bool
  | [] => false
  | (_, value) :: fields => hasLongInt value || hasLongIntFields fields

end

end Sizes

section Markers

def truncatedKey : String := "__truncated__"

def marker (size : ℕ) : Json := .obj [(truncatedKey, .bool true), ("bytes", .num (.int size))]

/-- `bool(value)`. -/
def truthy : Json → Bool
  | .null => false
  | .bool b => b
  | .num (.int n) => n ≠ 0
  | .num (.float text) => text ≠ "0.0" ∧ text ≠ "-0.0"
  | .str text => text ≠ ""
  | .arr items => !items.isEmpty
  | .obj fields => !fields.isEmpty

def isMarker : Json → Bool
  | .obj fields => (fields.lookup truncatedKey).any truthy
  | _ => false

def shrinkChild (valueMax : ℕ) (child : Json) : Json :=
  if valueMax < size child then marker (size child) else child

/-- What `_shrink` leaves of a value of the given size. -/
def shrink (valueMax valueSize : ℕ) : Json → Json
  | .obj fields =>
    let children : Json := .obj (fields.map fun field => (field.1, shrinkChild valueMax field.2))
    if size children ≤ valueMax then children else marker valueSize
  | _ => marker valueSize

end Markers

section Slots

/-- The places of the values of a mapping. -/
def mappingSlots (place : List String) : Option Json → List (List String)
  | some (.obj fields) => fields.map fun field => place ++ [field.1]
  | _ => []

def bagSlots (place : List String) : Option Json → List (List String)
  | some (.obj bags) => bags.flatMap fun bag => mappingSlots (place ++ [bag.1]) (some bag.2)
  | _ => []

def deviceSlots (place : List String) : Json → List (List String)
  | .obj fields =>
    mappingSlots (place ++ ["parsed"]) (fields.lookup "parsed") ++
      bagSlots (place ++ ["attribute_bags"]) (fields.lookup "attribute_bags")
  | _ => []

/-- `_slots(context)`: the places of the values that may be replaced. -/
def contextSlots (place : List String) : Json → List (List String)
  | .obj context =>
    mappingSlots (place ++ ["metadata"]) (context.lookup "metadata") ++
      match context.lookup "devices" with
      | some (.obj devices) =>
        devices.flatMap fun device => deviceSlots (place ++ ["devices", device.1]) device.2
      | _ => []
  | _ => []

def slots : Json → List (List String)
  | .obj persisted => persisted.flatMap fun outcome => contextSlots [outcome.1] outcome.2
  | _ => []

end Slots

section Passes

/-- A place and the size of what is there. -/
structure Sized where
  size : ℕ
  place : List String

/-- The places that hold no marker, with the sizes. -/
def sizedPlaces (places : List (List String)) (persisted : Json) : List Sized :=
  places.filterMap fun place =>
    match at? place persisted with
    | some value => if isMarker value then none else some ⟨size value, place⟩
    | none => none

def shrinkAt (valueMax : ℕ) (persisted : Json) (sized : Sized) : Json :=
  if valueMax < sized.size then
    match at? sized.place persisted with
    | some value => putAt (shrink valueMax sized.size value) sized.place persisted
    | none => persisted
  else persisted

/-- `remaining`, the largest first. -/
def remaining (sized : List Sized) (persisted : Json) : List Sized :=
  ((sizedPlaces (sized.map Sized.place) persisted).mergeSort
    fun a b => decide (a.size ≤ b.size)).reverse

def replaceLargest (totalMax : ℕ) : List Sized → Json → Json
  | [], persisted => persisted
  | sized :: rest, persisted =>
    if totalMax < size persisted then
      replaceLargest totalMax rest (putAt (marker sized.size) sized.place persisted)
    else persisted

def cappedOutput (valueMax totalMax : ℕ) (persisted : Json) : Json :=
  let sized := sizedPlaces (slots persisted) persisted
  let shrunk := sized.foldl (shrinkAt valueMax) persisted
  replaceLargest totalMax (remaining sized shrunk) shrunk

inductive DumpError where
  | valueError (message : String)

/-- Every value is written at least once, and an integer with too many digits cannot be. -/
def capPersistedOutput (valueMax totalMax : ℕ) (persisted : List (String × Json)) :
    Except DumpError Json :=
  if hasLongInt (.obj persisted) then
    .error (.valueError "Exceeds the limit (4300 digits) for integer string conversion")
  else .ok (cappedOutput valueMax totalMax (.obj persisted))

end Passes

end Manus.OutputCap
