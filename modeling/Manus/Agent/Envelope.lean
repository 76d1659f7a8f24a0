import Manus.Lib.Base64
import Manus.Lib.JsonNumber

/-! # Messages between the application and an agent

A message is a JSON header, a nonce and a ciphertext. The header is authenticated with
the payload under a key of the secret, the direction and the agent. Encryption is
ideal: what decrypts under a key has been encrypted under it, with the same header.
-/

namespace Manus.Agent

inductive Direction where
  | request
  | response
  deriving DecidableEq, Repr

def Direction.text : Direction → String
  | request => "request"
  | response => "response"

/-- `EnvelopeError` and the two kinds of it that have a class of their own. -/
inductive EnvelopeError where
  | error (message : String)
  | expired (message : String)
  | payload (message : String)
  deriving DecidableEq, Repr

def minAgentSecretLength : ℕ := 32

def maxClockSkewSeconds : ℤ := 60

def headerFields : List String := ["v", "agent_id", "command_id", "direction", "iat", "exp"]

section Messages

variable {F : Type} (floats : Floats F)

/-- The key that is derived from a secret, one for each info. -/
structure MessageKey where
  secret : String
  info : String
  deriving DecidableEq, Repr

/-- `_message_key` -/
def messageKey (secret : String) (direction : Direction) (agentId : String) : MessageKey :=
  ⟨secret, "manus-agent/v1/" ++ direction.text ++ "/" ++ agentId⟩

/-- A message that a holder of a secret has sealed. -/
structure SealedMessage (F : Type) where
  secret : String
  agentId : String
  commandId : String
  direction : Direction
  issuedAt : ℤ
  expiresAt : ℤ
  payload : JsonValue (Number F)
  nonce : List UInt8
  ct : List UInt8

/-- `_aad`: the text of the header. -/
def aad (fields : List (String × JsonValue (Number F))) : List Char :=
  (JsonValue.obj (headerFields.map fun name => (name, (fields.lookup name).getD .null))).dumps
    floats.numberText

def SealedMessage.header (m : SealedMessage F) : List (String × JsonValue (Number F)) :=
  [("v", .num (.int 1)), ("agent_id", .str m.agentId), ("command_id", .str m.commandId),
    ("direction", .str m.direction.text), ("iat", .num (.int m.issuedAt)),
    ("exp", .num (.int m.expiresAt))]

def SealedMessage.envelope (m : SealedMessage F) : List (String × JsonValue (Number F)) :=
  m.header ++ [("nonce", .str (b64Encode m.nonce)), ("ct", .str (b64Encode m.ct))]

def SealedMessage.key (m : SealedMessage F) : MessageKey :=
  messageKey m.secret m.direction m.agentId

/-- `seal`, with the ciphertext that the encryption makes of the payload. -/
def sealMessage (payload : JsonValue (Number F)) (secret agentId commandId : String)
    (direction : Direction) (ttlSeconds now : ℤ) (nonce ct : List UInt8) :
    Except EnvelopeError (SealedMessage F) :=
  if agentId = "" ∨ commandId = "" then .error (.error "agent_id and command_id are required")
  else if ttlSeconds < 1 then .error (.error "ttl_seconds must be positive")
  else if secret.length < minAgentSecretLength then
    .error (.error "agent secret must be at least 32 characters")
  else .ok ⟨secret, agentId, commandId, direction, now, now + ttlSeconds, payload, nonce, ct⟩

/-- Decryption of what has been sealed; of anything else it fails. -/
def decrypt (messages : List (SealedMessage F)) (key : MessageKey) (nonce ct : List UInt8)
    (header : List Char) : Option (JsonValue (Number F)) :=
  (messages.find? fun m => m.key == key && m.nonce == nonce && m.ct == ct &&
    aad floats m.header == header).map SealedMessage.payload

structure OpenedMessage (F : Type) where
  commandId : JsonValue (Number F)
  issuedAt : ℤ
  expiresAt : ℤ
  payload : List (String × JsonValue (Number F))

/-- `_b64d` -/
def b64Field : Option (JsonValue (Number F)) → Except EnvelopeError (List UInt8)
  | some (.str text) =>
    match b64Decode text with
    | some bytes => .ok bytes
    | none => .error (.error "malformed message: bad base64 field")
  | _ => .error (.error "malformed message: bad base64 field")

/-- `value == text`. -/
def isText (text : String) : Option (JsonValue (Number F)) → Bool
  | some (.str text') => text' == text
  | _ => false

/-- `open_envelope`, of an object. -/
def openEnvelope (messages : List (SealedMessage F))
    (envelope : List (String × JsonValue (Number F))) (secret expectedAgentId : String)
    (expectedDirection : Direction) (now : ℤ) : Except EnvelopeError (OpenedMessage F) :=
  if !((envelope.lookup "v").any (JsonValue.eqInt floats 1)) then
    .error (.error "unsupported protocol version")
  else if (headerFields ++ ["nonce", "ct"]).any fun name => (envelope.lookup name).isNone then
    .error (.error "malformed message: missing field")
  else
    match envelope.lookup "iat", envelope.lookup "exp" with
    | some (.num (.int iat)), some (.num (.int exp)) =>
      if !isText expectedDirection.text (envelope.lookup "direction") then
        .error (.error "unexpected message direction")
      else if !isText expectedAgentId (envelope.lookup "agent_id") then
        .error (.error "message is for a different agent")
      else if exp < now then .error (.expired "message expired")
      else if iat > now + maxClockSkewSeconds then
        .error (.error "message issued in the future (check clock synchronisation)")
      else if secret.length < minAgentSecretLength then
        .error (.error "agent secret must be at least 32 characters")
      else do
        let nonce ← b64Field (envelope.lookup "nonce")
        let ct ← b64Field (envelope.lookup "ct")
        let key := messageKey secret expectedDirection expectedAgentId
        match decrypt floats messages key nonce ct (aad floats envelope) with
        | none =>
          .error (.error "message authentication failed (wrong secret or tampered data)")
        | some (.obj payload) =>
          .ok ⟨(envelope.lookup "command_id").getD .null, iat, exp, payload⟩
        | some _ => .error (.payload "payload must be a JSON object")
    | _, _ => .error (.error "malformed message: bad timestamps")

end Messages

end Manus.Agent
