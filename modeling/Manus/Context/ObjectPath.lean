import Manus.Lib.JsonNumber
import Manus.Lib.Walk
import Manus.Expression.Functions

/-! # Paths in documents

A path leads through the objects and the lists of a document. What a segment means depends
on the value it is applied to: in a list it is a position, in an object a key or a selector
of an item of the list at a key. A write makes the objects that are missing and never
extends a list.
-/

namespace Manus.ObjectPath

open Expression (PyException digitLimitMessage strInt)

/-- A document; a float is given by its `repr`. -/
abbrev Document := JsonValue (Number String)

section Digits

def invalidLiteralMessage (text : List Char) : String :=
  "invalid literal for int() with base 10: " ++
    String.ofList ((reprText (String.ofList text)).toList.take 200)

/-- `int(text)` of a text of digits. -/
def intOfDigits (text : List Char) : Except PyException ℕ :=
  if maxStrDigits < (text.takeWhile isDecimal).length then .error (.valueError digitLimitMessage)
  else if text.all isDecimal then .ok ((unsignedValue text).getD 0)
  else .error (.valueError (invalidLiteralMessage text))

end Digits

section Segments

/-- The groups that one of the two segment patterns matches. -/
inductive SegmentMatch where
  | filter (key : String) (field : List Char) (value : String)
  | index (key : String) (digits : List Char)

def matchSegment (segment : List Char) : Option SegmentMatch :=
  (selectorOf segment).bind fun parts =>
    match parts.2.dropWhile (· ≠ '=') with
    | _ :: value =>
      if parts.2.takeWhile (· ≠ '=') = [] then none
      else some (.filter (String.ofList parts.1) (parts.2.takeWhile (· ≠ '='))
        (String.ofList value))
    | [] =>
      if parts.2 ≠ [] ∧ parts.2.all isDecimal then some (.index (String.ofList parts.1) parts.2)
      else none

/-- `key[field=value]` or `key[n]`. -/
inductive ListSegment where
  | filter (key : String) (field : List Char) (value : String)
  | index (key : String) (position : ℕ)

def ListSegment.key : ListSegment → String
  | .filter key _ _ => key
  | .index key _ => key

def ListSegment.describe : ListSegment → String
  | .filter _ field value => String.ofList field ++ "=" ++ value
  | .index _ position => "index " ++ toString position

def listSegment (segment : List Char) : Except PyException (Option ListSegment) :=
  match matchSegment segment with
  | some (.filter key field value) => .ok (some (.filter key field value))
  | some (.index key digits) => (intOfDigits digits).map fun index => some (.index key index)
  | none => .ok none

def cleanedSegments (path : List Char) : List (List Char) :=
  (splitPathSegments 0 [] (pyStrip path)).filter (· ≠ [])

def splitPath (path : List Char) : Except PyException (List (List Char)) :=
  if cleanedSegments path = [] then .error (.valueError "path must not be empty")
  else .ok (cleanedSegments path)

def segmentKey (segment : List Char) : Except PyException String :=
  (listSegment segment).map fun selector =>
    match selector with
    | some selector => selector.key
    | none => String.ofList segment

def topLevelKey (path : List Char) : Except PyException String := do
  segmentKey ((← splitPath path).headD [])

end Segments

section Reading

/-- `str(value)` of a scalar; null, lists and objects have no text. -/
def scalarText : Document → Except PyException (Option String)
  | .bool b => .ok (some (if b then "True" else "False"))
  | .num (.int n) => (strInt n).map some
  | .num (.float text) => .ok (some text)
  | .str text => .ok (some text)
  | _ => .ok none

/-- Whether an item is the one a filter looks for. -/
def matchesFilter (read : Document → Except PyException Document) (value : String) :
    Document → Except PyException Bool
  | .obj fields => do
    let text ← scalarText (← read (.obj fields))
    return text == some value
  | _ => .ok false

def findFilteredIndex (read : Document → Except PyException Document) (value : String) :
    List Document → Except PyException (Option ℕ)
  | [] => .ok none
  | item :: items => do
    if ← matchesFilter read value item then return some 0
    else return (← findFilteredIndex read value items).map (· + 1)

abbrev FieldReader := List Char → Document → Except PyException Document

/-- `selector.find(items)`, given how the field of an item is read. -/
def ListSegment.find (readField : FieldReader) (items : List Document) :
    ListSegment → Except PyException (Option ℕ)
  | .filter _ field value => findFilteredIndex (readField field) value items
  | .index _ position => .ok (if position < items.length then some position else none)

def readStep (readField : FieldReader) (segment : List Char) :
    Document → Except PyException (Option Document)
  | .arr items =>
    if isDigitText segment then (intOfDigits segment).map fun index => items[index]? else .ok none
  | .obj fields => do
    match ← listSegment segment with
    | some selector =>
      match fields.lookup selector.key with
      | some (.arr items) =>
        return (← selector.find readField items).bind fun index => items[index]?
      | _ => return none
    | none => return fields.lookup (String.ofList segment)
  | _ => .ok none

def readSegments (readField : FieldReader) (segments : List (List Char)) (document : Document) :
    Except PyException Document :=
  (walk (readStep readField) segments document).map fun found => found.getD .null

/-- `get_at_path` for the field of a filter, whose segments have no brackets. -/
def getAtField (field : List Char) (item : Document) : Except PyException Document := do
  readSegments (fun _ _ => .ok .null) (← splitPath field) item

def getAtPath (document : Document) (path : List Char) : Except PyException Document := do
  readSegments getAtField (← splitPath path) document

end Reading

section Writing

def pathError {α : Type} (path : List Char) (text : String) : Except PyException α :=
  .error (.valueError ("path " ++ reprText (String.ofList path) ++ ": " ++ text))

def outOfRangeText (index length : ℕ) : String :=
  "index " ++ toString index ++ " out of range for list of length " ++ toString length

/-- A place in a container: an item of a list, a field of an object, or an item of the list that
a field of an object holds. -/
inductive Slot where
  | item (items : List Document) (index : ℕ)
  | field (fields : List (String × Document)) (key : String)
  | selected (fields : List (String × Document)) (key : String) (items : List Document)
    (index : ℕ)

/-- What is at a place; null for what is not there. -/
def Slot.value : Slot → Document
  | .item items index => (items[index]?).getD .null
  | .field fields key => (fields.lookup key).getD .null
  | .selected _ _ items index => (items[index]?).getD .null

/-- The container with another value at the place. -/
def Slot.put (value : Document) : Slot → Document
  | .item items index => .arr (items.set index value)
  | .field fields key => .obj (Dict.insertEntry key value fields)
  | .selected fields key items index =>
    .obj (Dict.insertEntry key (.arr (items.set index value)) fields)

def stepDown (path : List Char) : Document → Except PyException Document
  | .obj fields => .ok (.obj fields)
  | .arr items => .ok (.arr items)
  | .null => .ok (.obj [])
  | .str "" => .ok (.obj [])
  | _ => pathError path "cannot create a nested value under an existing non-empty scalar"

def locateFiltered (path : List Char) (fields : List (String × Document))
    (selector : ListSegment) : Except PyException Slot :=
  match fields.lookup selector.key with
  | some (.arr existing) => do
    match ← selector.find getAtField existing with
    | some index => return .selected fields selector.key existing index
    | none =>
      match selector with
      | .index _ position => pathError path (outOfRangeText position existing.length)
      | .filter key _ _ =>
        pathError path ("no item in " ++ reprText key ++ " where " ++ selector.describe)
  | _ => pathError path (reprText selector.key ++ " is not a list, cannot select by " ++
      selector.describe)

/-- The place that a segment of a write leads to. -/
def locate (path segment : List Char) : Document → Except PyException Slot
  | .obj fields => do
    match ← listSegment segment with
    | some selector => locateFiltered path fields selector
    | none => return .field fields (String.ofList segment)
  | .arr items =>
    if isDigitText segment then do
      let index ← intOfDigits segment
      if index < items.length then return .item items index
      else pathError path (outOfRangeText index items.length)
    else pathError path (reprText (String.ofList segment) ++ " is not a valid list index")
  | _ => pathError path "cannot traverse into a non-container value"

def writeSegments (path : List Char) (value : Document) :
    List (List Char) → Document → Except PyException Document
  | [], _ => .ok value
  | segment :: rest, cursor => do
    let slot ← locate path segment cursor
    if rest = [] then return slot.put value
    else
      let child ← stepDown path slot.value
      return slot.put (← writeSegments path value rest child)

def setAtPath (document : List (String × Document)) (path : List Char) (value : Document) :
    Except PyException Document := do
  writeSegments path value (← splitPath path) (.obj document)

end Writing

end Manus.ObjectPath
