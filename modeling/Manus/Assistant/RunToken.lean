import Manus.Children.StartWorkflow
import Manus.Lib.Base64
import Manus.Lib.CodePoints
import Manus.Lib.JsonRead

/-! # The confirmation of a proposed run

A proposal is signed with who made it, the released workflow, the inputs and the devices. The
confirmation starts what the token says, for the same user and before it expires. The MAC is
ideal: the tag of a body is only known once the body has been signed.
-/

namespace Manus.RunToken

/-- What `verify_run_token` raises. -/
inductive Raised where
  | invalidRunToken
  | overflow
  deriving DecidableEq, Repr

def tokenTtlSeconds : ℤ := 600

def maxTokenChars : ℕ := 16384

structure ProposedDevice where
  ip : String
  name : Option String
  inInventory : Bool
  networkDriver : Option String
  platform : Option String
  deriving DecidableEq, Repr

structure WorkflowRunGrant (F : Type) where
  userId : ℤ
  workflowId : ℤ
  runInputs : List (String × JsonValue (Number F))
  devices : List ProposedDevice
  stamp : String
  tokenId : String
  expiresAt : F

/-- The tags of bodies, of 32 bytes each. -/
structure Mac where
  tag : List UInt8 → List UInt8
  length_tag : ∀ body, (tag body).length = 32

/-- The floats as they are read, converted, compared and counted up. -/
structure Clock {F : Type} (floats : Floats F) extends FloatReader floats where
  plus : F → ℤ → F
  le : F → F → Bool
  toFloat : JsonValue (Number F) → Except Raised F
  toFloat_float : ∀ x, toFloat (.num (.float x)) = .ok x

/-- One call of `issue_run_token`, with the time and the random id that it uses. -/
structure IssueCall (F : Type) where
  userId : ℤ
  workflowId : ℤ
  runInputs : List (String × JsonValue (Number F))
  devices : List ProposedDevice
  stamp : String
  now : F
  tokenId : String
  tokenId_ne : tokenId ≠ ""

section Encoding

/-- `base64.urlsafe_b64encode(raw)` -/
def urlsafeB64encode (raw : List UInt8) : List Char :=
  b64Chars raw ++ padding (b64Chars raw).length

/-- `base64.urlsafe_b64decode(raw)` -/
def urlsafeB64decode (text : List Char) : Option (List UInt8) := decodeFrom 0 0 0 text

def asciiByte (c : Char) : UInt8 := UInt8.ofNat c.toNat

/-- `text.encode("ascii")` of a text in ASCII. -/
def asciiBytes (text : List Char) : List UInt8 := text.map asciiByte

/-- The characters of a text in ASCII. -/
def ascii? (text : List CodePoint) : Option (List Char) :=
  (chars? text).bind fun cs => if cs.all fun c => c.toNat < 128 then some cs else none

/-- `text.encode("ascii", "replace")` -/
def asciiReplaced (text : List CodePoint) : List UInt8 :=
  text.map fun
    | .char c => if c.toNat < 128 then asciiByte c else asciiByte '?'
    | .surrogate _ => asciiByte '?'

end Encoding

section Issue

variable {F : Type} {floats : Floats F}

def optionalText : Option String → JsonValue (Number F)
  | some text => .str text
  | none => .null

def deviceJson (d : ProposedDevice) : JsonValue (Number F) :=
  .obj [("i", .str d.ip), ("n", optionalText d.name), ("v", .bool d.inInventory),
    ("r", optionalText d.networkDriver), ("p", optionalText d.platform)]

variable (clock : Clock floats) (mac : Mac) (call : IssueCall F)

def expiresAt : F := clock.plus call.now tokenTtlSeconds

def payload : JsonValue (Number F) :=
  .obj [("u", .num (.int call.userId)), ("w", .num (.int call.workflowId)),
    ("i", .obj call.runInputs), ("d", .arr (call.devices.map deviceJson)), ("s", .str call.stamp),
    ("j", .str call.tokenId), ("x", .num (.float (expiresAt clock call)))]

/-- `json.dumps(payload, sort_keys=True, separators=(",", ":"))` -/
def body : List Char := (payload clock call).dumps floats.numberText

def encoded : List Char := urlsafeB64encode (utf8Encode (body clock call))

def signature : List Char := urlsafeB64encode (mac.tag (asciiBytes (encoded clock call)))

/-- The token and its expiry; nothing when an integer has too many digits to be written. -/
def issueRunToken : Option (List CodePoint × F) :=
  if (payload clock call).allReadable clock.numbers then
    some (ofChars (encoded clock call ++ '.' :: signature clock mac call), expiresAt clock call)
  else none

/-- What has been signed in the calls. -/
def signedBodies (calls : List (IssueCall F)) : List (List UInt8) :=
  calls.filterMap fun call =>
    (issueRunToken clock mac call).map fun _ => asciiBytes (encoded clock call)

end Issue

section Verify

variable {F : Type} {floats : Floats F}

/-- `payload[key]` -/
def item (value : JsonValue (Number F)) (key : String) : Except Raised (JsonValue (Number F)) :=
  match value with
  | .obj fields =>
    match fields.reverse.lookup key with
    | some v => .ok v
    | none => .error .invalidRunToken
  | _ => .error .invalidRunToken

/-- `_text` -/
def text : JsonValue (Number F) → Except Raised String
  | .str s => if s = "" then .error .invalidRunToken else .ok s
  | _ => .error .invalidRunToken

def textOrNone : JsonValue (Number F) → Except Raised (Option String)
  | .str s => .ok (some s)
  | .null => .ok none
  | _ => .error .invalidRunToken

def boolean : JsonValue (Number F) → Except Raised Bool
  | .bool b => .ok b
  | _ => .error .invalidRunToken

/-- `str(value)` -/
def strOf (floats : Floats F) : JsonValue (Number F) → String
  | .str s => s
  | value => Children.reprValue floats value

/-- `int(value)` -/
def intOf (floats : Floats F) (value : JsonValue (Number F)) : Except Raised ℤ :=
  (Releases.int floats value).mapError fun _ => .invalidRunToken

/-- `_device` -/
def device (floats : Floats F) (raw : JsonValue (Number F)) : Except Raised ProposedDevice := do
  let name ← textOrNone (← item raw "n")
  let networkDriver ← textOrNone (← item raw "r")
  let platform ← textOrNone (← item raw "p")
  let inInventory ← boolean (← item raw "v")
  let ip := strOf floats (← item raw "i")
  return { ip, name, inInventory, networkDriver, platform }

/-- `tuple(_device(d) for d in value)`: the keys of an object and the characters of a text are no
devices. -/
def devicesOf (floats : Floats F) : JsonValue (Number F) → Except Raised (List ProposedDevice)
  | .arr items => items.mapM (device floats)
  | .obj fields => if fields.isEmpty then .ok [] else .error .invalidRunToken
  | .str s => if s = "" then .ok [] else .error .invalidRunToken
  | _ => .error .invalidRunToken

def inputsOf : JsonValue (Number F) → Except Raised (List (String × JsonValue (Number F)))
  | .obj fields => .ok fields
  | _ => .error .invalidRunToken

def grantOf (clock : Clock floats) (value : JsonValue (Number F)) :
    Except Raised (WorkflowRunGrant F) := do
  let runInputs ← inputsOf (← item value "i")
  let userId ← intOf floats (← item value "u")
  let workflowId ← intOf floats (← item value "w")
  let devices ← devicesOf floats (← item value "d")
  let stamp ← text (← item value "s")
  let tokenId ← text (← item value "j")
  let expiresAt ← clock.toFloat (← item value "x")
  return { userId, workflowId, runInputs, devices, stamp, tokenId, expiresAt }

/-- `json.loads(raw)` of bytes in UTF-8. -/
def loadsBytes (clock : Clock floats) (raw : List UInt8) : Except Raised (JsonValue (Number F)) :=
  match (utf8Decode raw).bind (JsonValue.loads clock.numbers) with
  | some value => .ok value
  | none => .error .invalidRunToken

def decodeText (text : List CodePoint) : Except Raised (List UInt8) :=
  match (ascii? text).bind urlsafeB64decode with
  | some raw => .ok raw
  | none => .error .invalidRunToken

/-- The tag is the one of the body, and the body has been signed. -/
def macAccepts (mac : Mac) (signed : List (List UInt8)) (given body : List UInt8) : Bool :=
  given = mac.tag body && body ∈ signed

def verifyRunToken (clock : Clock floats) (mac : Mac) (signed : List (List UInt8))
    (token : List CodePoint) (userId : ℤ) (now : F) : Except Raised (WorkflowRunGrant F) :=
  if maxTokenChars < token.length then .error .invalidRunToken
  else
    match token.splitOn (.char '.') with
    | [encoded, signature] => do
      let given ← decodeText signature
      if macAccepts mac signed given (asciiReplaced encoded) then
        let grant ← grantOf clock (← loadsBytes clock (← decodeText encoded))
        if grant.userId ≠ userId ∨ clock.le grant.expiresAt now then .error .invalidRunToken
        else .ok grant
      else .error .invalidRunToken
    | _ => .error .invalidRunToken

end Verify

end Manus.RunToken
