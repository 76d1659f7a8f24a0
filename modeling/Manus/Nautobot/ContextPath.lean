import Manus.Context.ObjectPath
import Manus.Expression.Lookup
import Manus.Lib.Holes

/-! # Paths with placeholders

A path of a config context may name attributes of the device in braces. Their values are put in
as text before the path is split, so a value must not add a level or close a filter. Whether a
placeholder stands in a filter is told by the brackets of the path before it.
-/

namespace Manus.ConfigContext

open Holes
open Expression (PyException)

def stepId : String := "update-config-context"

section Placeholders

/-- A character of the path, or the key of a placeholder. -/
abbrev Piece := Char ⊕ List Char

def isPathKeyChar (c : Char) : Bool := c.isAlphanum || c == '_' || c == '.' || c == '-'

/-- The key of a placeholder at the start of a text. -/
def placeholderAt : List Char → Option (List Char)
  | '{' :: text =>
    let key := text.takeWhile isPathKeyChar
    if key ≠ [] ∧ (text.dropWhile isPathKeyChar).head? = some '}' then some key else none
  | _ => none

/-- What `_PATH_PLACEHOLDER` finds, with the characters of a placeholder that are still to be
passed. -/
def piecesFrom : ℕ → List Char → List Piece
  | _, [] => []
  | skip + 1, _ :: text => piecesFrom skip text
  | 0, c :: text =>
    match placeholderAt (c :: text) with
    | none => .inl c :: piecesFrom 0 text
    | some key => .inr key :: piecesFrom (key.length + 1) text

def piecesOf (path : List Char) : List Piece := piecesFrom 0 path

end Placeholders

section Rendering

variable (device : DeviceContext)

/-- The text that a placeholder resolves to. -/
def resolvedText (key : List Char) : Except PyException (List Char) :=
  (Expression.resolveDeviceAttribute device none key).map fun value =>
    pyStrip (value.getD "").toList

/-- What a message says about a placeholder. -/
def placeholderMessage (key : List Char) (what : String) : PyException :=
  .valueError (stepId ++ ": path placeholder \x7b" ++ String.ofList key ++ "\x7d " ++ what)

/-- `_substitute` -/
def substitutePlaceholder (insideFilter : Bool) (key : List Char) :
    Except PyException (List Char) :=
  let owner := " for '" ++ device.name ++ "'"
  (resolvedText device key).bind fun text =>
    if text = [] then .error (placeholderMessage key ("did not resolve to a value" ++ owner))
    else if String.ofList text = redactedPlaceholder then
      .error (placeholderMessage key ("is a secret" ++ owner ++ " and can't be used in a path"))
    else if '.' ∈ text ∧ insideFilter = false then
      .error (placeholderMessage key ("resolved to a value containing a dot" ++ owner ++
        "; outside a [field=value] filter that would add a path level"))
    else if '[' ∈ text ∨ ']' ∈ text then
      .error (placeholderMessage key ("resolved to a value containing brackets" ++ owner ++
        ", which a path filter can't hold"))
    else .ok text

/-- The substitution, with the numbers of brackets that were opened and closed before. -/
def renderPieces : ℕ → ℕ → List Piece → Except PyException (List Char)
  | _, _, [] => .ok []
  | opened, closed, .inl c :: pieces =>
    (renderPieces (if c = '[' then opened + 1 else opened) (if c = ']' then closed + 1 else closed)
      pieces).map (c :: ·)
  | opened, closed, .inr key :: pieces =>
    (substitutePlaceholder device (decide (closed < opened)) key).bind fun text =>
      (renderPieces opened closed pieces).map (text ++ ·)

/-- `_render_path` -/
def renderPath (device : Option DeviceContext) (path : List Char) :
    Except PyException (List Char) :=
  if (piecesOf path).all Sum.isLeft then .ok path
  else match device with
    | none => .error (.valueError (stepId ++ ": path placeholders need a workflow device " ++
        "(use device_identifier.mode = from_context)"))
    | some device => renderPieces device 0 0 (piecesOf path)

end Rendering

end Manus.ConfigContext
