import Manus.Lib.Dict
import Mathlib.Data.Int.Notation

/-! # Canvas nodes and edges

A workflow is stored as the JSON of its canvas: nodes with an id and a `data`
object, edges that leave a node by an outcome handle. Only the parts that the
engine reads are kept.
-/

namespace Manus

/-- A text that counts as given. -/
def given (text : Option String) : Option String := text.filter (· ≠ "")

/-- A JSON value, as stored in a workflow definition or carried by a context. -/
inductive Json where
  | null
  | bool (b : Bool)
  | int (n : ℤ)
  | str (s : String)
  | arr (items : List Json)
  | obj (fields : List (String × Json))

namespace Json

/-- Python truthiness. -/
def truthy : Json → Bool
  | null => false
  | bool b => b
  | int n => n ≠ 0
  | str s => s ≠ ""
  | arr items => !items.isEmpty
  | obj fields => !fields.isEmpty

/-- `value.get(key)` of an object; any other value has no such key. -/
def get? (key : String) : Json → Option Json
  | obj fields => fields.lookup key
  | _ => none

/-- Booleans count as the integers 0 and 1 in comparisons. -/
def asInt? : Json → Option ℤ
  | bool b => some (if b then 1 else 0)
  | int n => some n
  | _ => none

mutual

/-- Python `==`: objects compare without regard to the order of their keys. -/
def pyEq : Json → Json → Bool
  | null, null => true
  | bool b, v => v.asInt? == some (if b then 1 else 0)
  | int n, v => v.asInt? == some n
  | str s, str t => s == t
  | arr xs, arr ys => pyEqList xs ys
  | obj xs, obj ys => xs.length == ys.length && pyEqFields xs ys
  | _, _ => false

def pyEqList : List Json → List Json → Bool
  | [], [] => true
  | x :: xs, y :: ys => pyEq x y && pyEqList xs ys
  | _, _ => false

def pyEqFields : List (String × Json) → List (String × Json) → Bool
  | [], _ => true
  | (k, x) :: xs, ys =>
    (match ys.lookup k with
      | some y => pyEq x y
      | none => false) && pyEqFields xs ys

end

theorem pyEq_asInt {a b : Json} {n : ℤ} (ha : a.asInt? = some n) :
    pyEq a b = true ↔ b.asInt? = some n := by
  cases a <;> simp_all [asInt?, pyEq]

mutual

/-- Structural equality is decidable. -/
def decEq : (v w : Json) → Decidable (v = w)
  | null, w => match w with
    | null => isTrue rfl
    | bool _ | int _ | str _ | arr _ | obj _ => isFalse nofun
  | bool b, w => match w with
    | bool b' => decidable_of_iff (b = b') (by simp)
    | null | int _ | str _ | arr _ | obj _ => isFalse nofun
  | int n, w => match w with
    | int n' => decidable_of_iff (n = n') (by simp)
    | null | bool _ | str _ | arr _ | obj _ => isFalse nofun
  | str s, w => match w with
    | str s' => decidable_of_iff (s = s') (by simp)
    | null | bool _ | int _ | arr _ | obj _ => isFalse nofun
  | arr items, w => match w with
    | arr items' => match decEqList items items' with
      | isTrue h => isTrue (congrArg arr h)
      | isFalse h => isFalse fun he => h (arr.inj he)
    | null | bool _ | int _ | str _ | obj _ => isFalse nofun
  | obj fields, w => match w with
    | obj fields' => match decEqFields fields fields' with
      | isTrue h => isTrue (congrArg obj h)
      | isFalse h => isFalse fun he => h (obj.inj he)
    | null | bool _ | int _ | str _ | arr _ => isFalse nofun

def decEqList : (vs ws : List Json) → Decidable (vs = ws)
  | [], [] => isTrue rfl
  | [], _ :: _ | _ :: _, [] => isFalse nofun
  | v :: vs, w :: ws => match decEq v w, decEqList vs ws with
    | isTrue h, isTrue h' => isTrue (h ▸ h' ▸ rfl)
    | isFalse h, _ => isFalse fun he => h (List.cons.inj he).1
    | _, isFalse h => isFalse fun he => h (List.cons.inj he).2

def decEqFields : (vs ws : List (String × Json)) → Decidable (vs = ws)
  | [], [] => isTrue rfl
  | [], _ :: _ | _ :: _, [] => isFalse nofun
  | (k, v) :: vs, (k', w) :: ws =>
    if hk : k = k' then match decEq v w, decEqFields vs ws with
      | isTrue h, isTrue h' => isTrue (hk ▸ h ▸ h' ▸ rfl)
      | isFalse h, _ => isFalse fun he => h (Prod.mk.inj (List.cons.inj he).1).2
      | _, isFalse h => isFalse fun he => h (List.cons.inj he).2
    else isFalse fun he => hk (Prod.mk.inj (List.cons.inj he).1).1

end

instance : DecidableEq Json := decEq

end Json

/-- The `data` object of a canvas node. -/
structure NodeData where
  kind : Option String := none
  title : Option String := none
  disabled : Bool := false
  pluginConfig : Dict Json := ∅
  deriving DecidableEq

structure CanvasNode where
  id : String
  data : NodeData
  deriving DecidableEq

structure CanvasEdge where
  source : String
  target : String
  sourceHandle : Option String := none
  targetHandle : Option String := none
  deriving DecidableEq

/-- `edge.get("sourceHandle") or "success"`. -/
def CanvasEdge.outcomeName (e : CanvasEdge) : String :=
  match e.sourceHandle with
  | none => "success"
  | some h => if h = "" then "success" else h

/-- The step type of a node, `unknown` when the canvas names none. -/
def CanvasNode.stepType (n : CanvasNode) : String := n.data.kind.getD "unknown"

/-- A workflow definition as the engine reads it. -/
structure Canvas where
  nodes : List CanvasNode
  edges : List CanvasEdge
  deriving DecidableEq

end Manus
