import Manus.Context.Guards
import Manus.Lib.Base64
import Manus.Lib.CodePoints
import Manus.Lib.Digits

/-! # Values that are encrypted under a passphrase

A token has six fields: the version of the envelope, the algorithm, the number of iterations, the
salt, the nonce and the ciphertext. Key derivation and encryption are ideal: keys from different
passphrases, salts or iterations are different, and what decrypts has been encrypted under the
same key with the same nonce.
-/

namespace Manus.PassphraseCipher

/-- The messages of `PassphraseCipherError`. -/
inductive PassphraseCipherError where
  | required
  | tooShort
  | unsupportedAlgorithm (value : List CodePoint)
  | malformedToken
  | iterationsOutOfRange
  | badBase64
  | algorithmMismatch
  | decryptionFailed
  deriving DecidableEq

inductive Raised where
  | cipherError (error : PassphraseCipherError)
  | valueError
  | unicodeEncodeError
  | unicodeDecodeError
  | overflowError
  deriving DecidableEq

def minSharedSecretLength : ℕ := 12

def PassphraseCipherError.message (pyRepr : List CodePoint → String) :
    PassphraseCipherError → String
  | required => "passphrase is required"
  | tooShort => s!"passphrase must be at least {minSharedSecretLength} characters"
  | unsupportedAlgorithm value => "unsupported algorithm: " ++ pyRepr value
  | malformedToken =>
    "unsupported or malformed token (values from an older version must be encrypted again)"
  | iterationsOutOfRange => "malformed token: iteration count out of range"
  | badBase64 => "malformed token: bad base64 segment"
  | algorithmMismatch => "algorithm mismatch: token was encrypted with a different algorithm"
  | decryptionFailed => "decryption failed: wrong shared secret or corrupted value"

def kdfIterationsFloor : ℕ := 600000

def kdfIterationsCeiling : ℕ := 5000000

section Texts

def literal (text : String) : List CodePoint := ofChars text.toList

def isSpacePoint : CodePoint → Bool
  | .char c => isPySpace c
  | .surrogate _ => false

/-- `text.strip()` -/
def strip (text : List CodePoint) : List CodePoint :=
  ((text.dropWhile isSpacePoint).reverse.dropWhile isSpacePoint).reverse

/-- `text.lower()`, for comparisons with texts without a `k`: no other letter of these is the
lower case of a letter outside ASCII. -/
def lowerPoint : CodePoint → CodePoint
  | .char c => .char c.toLower
  | point => point

/-- `text.encode("utf-8")` -/
def encode (text : List CodePoint) : Except Raised (List UInt8) :=
  match chars? text with
  | some cs => .ok (utf8Encode cs)
  | none => .error .unicodeEncodeError

/-- `text.isdigit()` -/
def isDigits (text : List CodePoint) : Bool := (chars? text).elim false isDigitText

/-- The number that digits spell, if `int` reads them. -/
def countOf (text : List CodePoint) : Option ℕ :=
  (chars? text).bind fun cs => if cs.length ≤ maxStrDigits then unsignedValue cs else none

/-- `int(text)` of digits. -/
def intOfDigits (text : List CodePoint) : Except Raised ℕ :=
  match countOf text with
  | some n => .ok n
  | none => .error .valueError

end Texts

section Token

def envelopeVersion : List CodePoint := literal "AM2"

def defaultAlgorithm : List CodePoint := literal "aes-256-gcm"

def normalizeAlgorithm : Option (List CodePoint) → Except Raised (List CodePoint)
  | none => .ok defaultAlgorithm
  | some value =>
    let candidate := (strip value).map lowerPoint
    if candidate = [] then .ok defaultAlgorithm
    else if candidate = defaultAlgorithm then .ok candidate
    else .error (.cipherError (.unsupportedAlgorithm value))

/-- The algorithm that the caller names, if any, is that of the token. -/
def checkAlgorithm (algorithm : Option (List CodePoint)) (tokenAlgo : List CodePoint) :
    Except Raised Unit :=
  match algorithm with
  | none => .ok ()
  | some value => do
    let expected ← normalizeAlgorithm (some value)
    if expected = tokenAlgo then .ok () else .error (.cipherError .algorithmMismatch)

/-- The fields of a token behind its version. -/
structure Fields where
  algorithm : List CodePoint
  iterations : ℕ
  salt : List CodePoint
  nonce : List CodePoint
  ciphertext : List CodePoint

/-- `_split` -/
def split (token : List CodePoint) : Except Raised Fields :=
  match (strip token).splitOn (.char '.') with
  | [version, algorithm, count, salt, nonce, ciphertext] =>
    if version = envelopeVersion then
      if isDigits count then do
        let iterations ← intOfDigits count
        if kdfIterationsFloor ≤ iterations ∧ iterations ≤ kdfIterationsCeiling then
          .ok { algorithm, iterations, salt, nonce, ciphertext }
        else .error (.cipherError .iterationsOutOfRange)
      else .error (.cipherError .iterationsOutOfRange)
    else .error (.cipherError .malformedToken)
  | _ => .error (.cipherError .malformedToken)

/-- The bytes that a base64 text holds. -/
def bytesOf (text : List CodePoint) : Option (List UInt8) :=
  (chars? text).bind fun cs => b64Decode (String.ofList cs)

/-- `_b64d` -/
def b64d (text : List CodePoint) : Except Raised (List UInt8) :=
  match bytesOf text with
  | some raw => .ok raw
  | none => .error (.cipherError .badBase64)

/-- `_b64e` -/
def b64e (raw : List UInt8) : List CodePoint := ofChars (b64Chars raw)

def requireStrongPassphrase (passphrase : List CodePoint) : Except Raised Unit :=
  if passphrase = [] then .error (.cipherError .required)
  else if passphrase.length < minSharedSecretLength then .error (.cipherError .tooShort)
  else .ok ()

end Token

/-- Key derivation and authenticated encryption. -/
structure IdealCipher (K : Type) where
  derive : List UInt8 → List UInt8 → ℕ → K
  encrypt : K → List UInt8 → List UInt8 → List UInt8
  derive_injective : ∀ {secret salt n secret' salt' n'},
    derive secret salt n = derive secret' salt' n' → secret = secret' ∧ salt = salt' ∧ n = n'
  encrypt_injective : ∀ k nonce, Function.Injective (encrypt k nonce)

/-- What was encrypted under a key. -/
structure Sealed (K : Type) where
  key : K
  nonce : List UInt8
  message : List UInt8

/-- One call of `encrypt_with_passphrase`, with the nonce that it draws and the number of
iterations in the settings. -/
structure EncryptCall where
  plaintext : List CodePoint
  passphrase : List CodePoint
  algorithm : Option (List CodePoint)
  salt : List UInt8
  nonce : List UInt8
  iterations : ℕ
  nonce_length : nonce.length = 12
  iterations_range : kdfIterationsFloor ≤ iterations ∧ iterations ≤ kdfIterationsCeiling

section Functions

variable {K : Type} [DecidableEq K] (cipher : IdealCipher K)

/-- `_derive_key` -/
def deriveKey (passphrase : List CodePoint) (salt : List UInt8) (iterations : ℕ) :
    Except Raised K :=
  (encode passphrase).map fun secret => cipher.derive secret salt iterations

/-- The most bytes that are encrypted at once. -/
def maxMessageBytes : ℕ := 2 ^ 31 - 1

/-- The token, and what was encrypted for it. -/
def encryptWithPassphrase (call : EncryptCall) : Except Raised (List CodePoint × Sealed K) := do
  requireStrongPassphrase call.passphrase
  let algo ← normalizeAlgorithm call.algorithm
  let key ← deriveKey cipher call.passphrase call.salt call.iterations
  let message ← encode call.plaintext
  if message.length > maxMessageBytes then .error .overflowError
  else .ok ([CodePoint.char '.'].intercalate [envelopeVersion, algo,
      ofChars (Nat.toDigits 10 call.iterations), b64e call.salt, b64e call.nonce,
      b64e (cipher.encrypt key call.nonce message)],
    { key, nonce := call.nonce, message })

def history (calls : List EncryptCall) : List (Sealed K) :=
  calls.filterMap fun call => (encryptWithPassphrase cipher call).toOption.map Prod.snd

/-- The lengths of a nonce that are refused. -/
def NonceRefused (nonce : List UInt8) : Prop := nonce.length < 8 ∨ 128 < nonce.length

instance (nonce : List UInt8) : Decidable (NonceRefused nonce) :=
  inferInstanceAs (Decidable (_ ∨ _))

/-- `AESGCM(key).decrypt(nonce, ciphertext, None)` -/
def openSealed (log : List (Sealed K)) (key : K) (nonce ciphertext : List UInt8) :
    Except Raised (List UInt8) :=
  if NonceRefused nonce then .error .valueError
  else
    match log.find? fun s =>
      s.key = key ∧ s.nonce = nonce ∧ cipher.encrypt key nonce s.message = ciphertext with
    | some s => .ok s.message
    | none => .error (.cipherError .decryptionFailed)

/-- `plaintext.decode("utf-8")` -/
def decode (message : List UInt8) : Except Raised (List CodePoint) :=
  match utf8Decode message with
  | some cs => .ok (ofChars cs)
  | none => .error .unicodeDecodeError

def decryptWithPassphrase (log : List (Sealed K)) (token passphrase : List CodePoint)
    (algorithm : Option (List CodePoint)) : Except Raised (List CodePoint) := do
  requireStrongPassphrase passphrase
  let fields ← split token
  let tokenAlgo ← normalizeAlgorithm (some fields.algorithm)
  checkAlgorithm algorithm tokenAlgo
  let salt ← b64d fields.salt
  let nonce ← b64d fields.nonce
  let ciphertext ← b64d fields.ciphertext
  let key ← deriveKey cipher passphrase salt fields.iterations
  let message ← openSealed cipher log key nonce ciphertext
  decode message

end Functions

end Manus.PassphraseCipher
