import Manus.Lib.JsonNumber
import Manus.Secrets.Patterns
import Manus.Secrets.Redaction

/-! # The redactor of the assistant

A redactor replaces secrets by tokens and puts them back. Expressions of the template
language are masked first; then private keys, the known secrets and what the patterns
capture are replaced, one after another. In structured data whole values become tokens,
and a token may only be restored under a key where its secret was found.
-/

namespace Manus.Redaction

section Texts

/-- `text.find(needle)`. -/
def find (needle : List Char) : List Char → Option ℕ
  | [] => if needle.isEmpty then some 0 else none
  | c :: text =>
    if needle.isPrefixOf (c :: text) then some 0 else (find needle text).map (· + 1)

/-- The stretches that `text.replace(word, ...)` replaces, from a position on. -/
def occurrencesOf (word : List Char) : ℕ → ℕ → List Char → List (ℕ × ℕ)
  | _, _, [] => []
  | skip + 1, position, _ :: text => occurrencesOf word skip (position + 1) text
  | 0, position, c :: text =>
    if word.isPrefixOf (c :: text) then
      (position, position + word.length) :: occurrencesOf word (word.length - 1) (position + 1) text
    else occurrencesOf word 0 (position + 1) text

/-- `_JINJA_PAIRS` -/
def jinjaPairs : List (List Char × List Char) :=
  [(['{', '{'], ['}', '}']), (['{', '%'], ['%', '}']), (['{', '#'], ['#', '}'])]

/-- `_jinja_spans`, from a position on. An opener without a closer is not looked for any more. -/
def jinjaSpansFrom : List (List Char × List Char) → ℕ → ℕ → List Char → List (ℕ × ℕ)
  | _, _, _, [] => []
  | pairs, skip + 1, position, _ :: text => jinjaSpansFrom pairs skip (position + 1) text
  | pairs, 0, position, c :: text =>
    match pairs.find? fun pair => pair.1.isPrefixOf (c :: text) with
    | none => jinjaSpansFrom pairs 0 (position + 1) text
    | some pair =>
      match find pair.2 (text.drop 1) with
      | none => jinjaSpansFrom (pairs.erase pair) 0 (position + 1) text
      | some length =>
        (position, position + (length + 4)) ::
          jinjaSpansFrom pairs (length + 3) (position + 1) text

def jinjaSpans (text : List Char) : List (ℕ × ℕ) := jinjaSpansFrom jinjaPairs 0 0 text

def pemBegin : List Char := "-----BEGIN ".toList

def pemEnd : List Char := "PRIVATE KEY-----".toList

/-- `_private_key_spans`, from a position on. -/
def privateKeySpansFrom : ℕ → ℕ → List Char → List (ℕ × ℕ)
  | _, _, [] => []
  | skip + 1, position, _ :: text => privateKeySpansFrom skip (position + 1) text
  | 0, position, c :: text =>
    let text' := c :: text
    if pemBegin.isPrefixOf text' then
      match find "-----".toList (text'.drop pemBegin.length) with
      | none => []
      | some length =>
        let headerEnd := pemBegin.length + length
        if "PRIVATE KEY".toList.isSuffixOf (text'.take headerEnd) then
          match find "-----END ".toList (text'.drop headerEnd) with
          | none => []
          | some length =>
            let endMarker := headerEnd + length
            match find pemEnd (text'.drop endMarker) with
            | none => []
            | some length =>
              let stop := endMarker + length + pemEnd.length
              (position, position + stop) :: privateKeySpansFrom (stop - 1) (position + 1) text
        else privateKeySpansFrom (pemBegin.length - 1) (position + 1) text
    else privateKeySpansFrom 0 (position + 1) text

def privateKeySpans (text : List Char) : List (ℕ × ℕ) := privateKeySpansFrom 0 0 text

end Texts

section Masks

/-- `_SENTINEL_OPEN` -/
def sentinelOpen : Char := Char.ofNat 0xe000

/-- `_SENTINEL_CLOSE` -/
def sentinelClose : Char := Char.ofNat 0xe001

theorem sentinelClose_endsNumber : EndsNumber [sentinelClose] := ⟨_, _, rfl, by decide⟩

/-- `_UNMASK` -/
def placeholders : Matcher Char := numbered [sentinelOpen] [sentinelClose] sentinelClose_endsNumber

def placeholder (index : ℕ) : List Char :=
  sentinelOpen :: (Nat.toDigits 10 index ++ [sentinelClose])

def placeholderIndex (text : List Char) : Option ℕ := unsignedValue ((text.drop 1).dropLast)

/-- `_mask`, from a position and with the index of the next placeholder. -/
def maskFrom (position index : ℕ) : List (ℕ × ℕ) → List Char → List Char × List (List Char)
  | [], text => (text, [])
  | (start, stop) :: spans, text =>
    let rest := text.drop (start - position)
    let (masked, saved) := maskFrom stop (index + 1) spans (rest.drop (stop - start))
    (text.take (start - position) ++ (placeholder index ++ masked),
      rest.take (stop - start) :: saved)

def mask (text : List Char) : List Char × List (List Char) := maskFrom 0 0 (jinjaSpans text) text

/-- What a piece of a masked text stands for. -/
def unmaskPiece (saved : List (List Char)) : Char ⊕ List Char → List Char
  | .inl c => [c]
  | .inr text => ((placeholderIndex text).bind fun index => saved[index]?).getD text

/-- `_unmask`; without saved expressions it finds none. -/
def unmask (saved : List (List Char)) (text : List Char) : List Char :=
  (placeholders.pieces text).flatMap (unmaskPiece saved)

/-- Some number between sentinels is too long for `int`. -/
def unmaskFails (saved : List (List Char)) (text : List Char) : Bool :=
  !saved.isEmpty && (placeholders.pieces text).any fun
    | .inl _ => false
    | .inr text => maxStrDigits < text.length - 2

end Masks

section Tokens

theorem underscores_endsNumber : EndsNumber ['_', '_'] := ⟨_, _, rfl, by decide⟩

/-- What tokens begin with. -/
def tokenOpening : List Char := ['_', '_', 'S', 'E', 'C', 'R', 'E', 'T', '_']

/-- `_TOKEN` -/
def tokens : Matcher Char := numbered tokenOpening ['_', '_'] underscores_endsNumber

def tokenText (number : ℕ) : List Char := tokenOpening ++ (Nat.toDigits 10 number ++ ['_', '_'])

variable {F : Type}

/-- What is known of a token: the secret, the scopes and keys it was found under, and the object it
stands for, if it stands for one. -/
structure TokenEntry (floats : Floats F) where
  secret : List Char
  origins : List (Option String × String)
  object : Option (JsonValue (Number F))
  spells : ∀ value ∈ object, secret = value.dumpsSpaced floats.numberText

inductive Event where
  /-- A secret of a text was replaced. -/
  | replaced (secret : List Char)
  /-- A secret was found in structured data. -/
  | found (scope key : Option String) (secret : List Char)
  deriving DecidableEq

variable (floats : Floats F)

/-- The entries are the tables by token and by secret: the entry at index `i` has token `i + 1`. -/
structure Redactor where
  maxChars : ℕ := 1000000
  spent : ℕ := 0
  known : List (List Char) := []
  entries : List (TokenEntry floats) := []
  activeKey : Option String := none
  activeScope : Option String := none
  /-- What was done so far; no function of the redactor looks at it. -/
  log : List Event := []

variable {floats}

def TokenEntry.addOrigin (e : TokenEntry floats) (origin : Option String × String) :
    TokenEntry floats :=
  if origin ∈ e.origins then e else { e with origins := e.origins ++ [origin] }

/-- `self._object_by_token.setdefault(token, value)`, at the token of the text of the value. -/
def TokenEntry.setObject (e : TokenEntry floats) (value : JsonValue (Number F)) :
    TokenEntry floats :=
  if h : e.object = none ∧ e.secret = value.dumpsSpaced floats.numberText then
    { e with object := some value, spells := fun _ hv => Option.some.inj hv ▸ h.2 }
  else e

/-- The entry of a token, where the first entry has the given number. -/
def entryFrom (token : List Char) : ℕ → List (TokenEntry floats) → Option (TokenEntry floats)
  | _, [] => none
  | number, e :: entries =>
    if token = tokenText number then some e else entryFrom token (number + 1) entries

namespace Redactor

variable (s : Redactor floats)

def entryOf (token : List Char) : Option (TokenEntry floats) := entryFrom token 1 s.entries

def note (event : Event) : Redactor floats := { s with log := s.log ++ [event] }

/-- Where the entry of a secret is or will be. -/
def indexOf (secret : List Char) : ℕ := s.entries.findIdx fun e => e.secret == secret

/-- `_token_for`, with the number of the token. -/
def tokenFor (secret : List Char) : Redactor floats × ℕ :=
  let index := s.indexOf secret
  let entries := if index < s.entries.length then s.entries else
    s.entries ++ [{ secret, origins := [], object := none, spells := nofun }]
  let entries := match s.activeKey with
    | none => entries
    | some key => entries.modify index fun e => e.addOrigin (s.activeScope, key)
  ({ s with entries }, index + 1)

/-- Put tokens in the place of stretches of a text, which begins at a position. -/
def substitute : Redactor floats → List Char → ℕ → List (ℕ × ℕ) → List Char →
    Redactor floats × List Char
  | s, before, _, [], text => (s, before ++ text)
  | s, before, position, (start, stop) :: spans, text =>
    let before := before ++ text.take (start - position)
    let text := text.drop (start - position)
    let value := text.take (stop - start)
    let (s, number) := s.tokenFor value
    substitute (s.note (.replaced value)) (before ++ tokenText number) stop spans
      (text.drop (stop - start))

end Redactor

/-- `_replace` leaves a value alone that holds an expression or is a token. -/
def isReplaced (text : List Char) (span : ℕ × ℕ) : Bool :=
  let value := (text.drop span.1).take (span.2 - span.1)
  !value.contains sentinelOpen && tokens.length value != some value.length

/-- What the stages of the redaction replace in a text, one stage after another. -/
def stages (isWord : Char → Bool) (known : List (List Char)) :
    List (List Char → List (ℕ × ℕ)) :=
  privateKeySpans :: known.map (fun value => occurrencesOf value 0 0) ++
    (patterns isWord).map fun pattern text =>
      (pattern.2.captures 0 0 none text).filter (isReplaced text)

inductive RedactError where
  /-- `RedactionBudgetExceeded` -/
  | budgetExceeded
  | valueError
  deriving DecidableEq, Repr

/-- A piece of a text, with tokens in place of secrets, as it was. -/
def Redactor.restorePiece (s : Redactor floats) : Char ⊕ List Char → List Char
  | .inl c => [c]
  | .inr token => ((s.entryOf token).map TokenEntry.secret).getD token

/-- `restore`, of a text from anywhere. -/
def Redactor.restore (s : Redactor floats) (text : List Char) : List Char :=
  (tokens.pieces text).flatMap s.restorePiece

end Tokens

section Redact

variable {F : Type} {floats : Floats F} (isWord : Char → Bool)

/-- One stage of the redaction of a masked text. -/
def applyStage (state : Redactor floats × List Char) (stage : List Char → List (ℕ × ℕ)) :
    Redactor floats × List Char :=
  Redactor.substitute state.1 [] 0 (stage state.2) state.2

/-- `redact` -/
def redact (s : Redactor floats) (text : List Char) :
    Except RedactError (Redactor floats × List Char) :=
  let s := { s with spent := s.spent + text.length }
  if s.maxChars < s.spent then .error .budgetExceeded
  else
    let (masked, saved) := mask text
    let (s, redacted) := (stages isWord s.known).foldl applyStage (s, masked)
    if unmaskFails saved redacted then .error .valueError else .ok (s, unmask saved redacted)

end Redact

section Data

variable {F : Type} {floats : Floats F} (isWord : Char → Bool)

/-- `is_sealed_secret` -/
def isSealed : JsonValue (Number F) → Bool
  | .obj fields =>
    (match fields.lookup sealedMarker with
      | some (.bool true) => true
      | _ => false) && (fields.lookup "ct").isSome
  | _ => false

def tokenValue (number : ℕ) : JsonValue (Number F) := .str (String.ofList (tokenText number))

/-- What some events say was replaced. -/
def replacedValues (log : List Event) : List (List Char) :=
  log.filterMap fun
    | .replaced secret => some secret
    | _ => none

namespace Redactor

variable (s : Redactor floats)

/-- Secrets were found under a key. -/
def noteFound (key : Option String) (secrets : List (List Char)) : Redactor floats :=
  { s with log := s.log ++ secrets.map (.found s.activeScope key) }

/-- `_redact_under` -/
def redactUnder (text : List Char) (key : Option String) :
    Except RedactError (Redactor floats × List Char) :=
  match redact isWord { s with activeKey := key } text with
  | .error e => .error e
  | .ok (s', redacted) =>
    let found := replacedValues (s'.log.drop s.log.length)
    .ok (({ s' with activeKey := none } : Redactor floats).noteFound key found, redacted)

/-- `_token_under` -/
def tokenUnder (secret : List Char) (key : Option String) : Redactor floats × ℕ :=
  let (s, number) := ({ s with activeKey := key } : Redactor floats).tokenFor secret
  (({ s with activeKey := none } : Redactor floats).noteFound key [secret], number)

/-- `_object_token` -/
def objectToken (value : JsonValue (Number F)) (key : Option String) :
    Redactor floats × JsonValue (Number F) :=
  let (s, number) := s.tokenUnder (value.dumpsSpaced floats.numberText) key
  ({ s with entries := s.entries.modify (number - 1) fun e => e.setObject value },
    tokenValue number)

/-- The text of a secret field becomes a token. -/
def textToken (text name : String) : Redactor floats × JsonValue (Number F) :=
  let (s, number) := s.tokenUnder text.toList (some name)
  (s, tokenValue number)

end Redactor

/-- A value under a secret name that becomes a token as a whole. -/
def isWholeSecret (name : String) : JsonValue (Number F) → Bool
  | .arr (_ :: _) | .obj (_ :: _) => keyIsSecretName name
  | _ => false

/-- The text of a secret field that has one. -/
def secretText (name : String) : JsonValue (Number F) → Option String
  | .str text => if keyIsSecretName name && text != "" then some text else none
  | _ => none

mutual

/-- `_tokenize` -/
def tokenizeValue (s : Redactor floats) (key : Option String) :
    JsonValue (Number F) → Except RedactError (Redactor floats × JsonValue (Number F))
  | .obj fields =>
    if isSealed (.obj fields) then .ok (s.objectToken (.obj fields) key)
    else do
      let (s, fields) ← tokenizeFields s fields
      return (s, .obj fields)
  | .arr items => do
    let (s, items) ← tokenizeItems s key items
    return (s, .arr items)
  | .str text => do
    let (s, redacted) ← s.redactUnder isWord text.toList key
    return (s, .str (String.ofList redacted))
  | value => .ok (s, value)

def tokenizeItems (s : Redactor floats) (key : Option String) :
    List (JsonValue (Number F)) → Except RedactError (Redactor floats × List (JsonValue (Number F)))
  | [] => .ok (s, [])
  | item :: items => do
    let (s, item) ← tokenizeValue s key item
    let (s, items) ← tokenizeItems s key items
    return (s, item :: items)

/-- `_tokenize_entry`, of each entry. -/
def tokenizeFields (s : Redactor floats) :
    List (String × JsonValue (Number F)) →
      Except RedactError (Redactor floats × List (String × JsonValue (Number F)))
  | [] => .ok (s, [])
  | (name, item) :: fields =>
    let entry :=
      if isWholeSecret name item then .ok (s.objectToken item (some name))
      else
        match secretText name item with
        | some text => .ok (s.textToken text name)
        | none => tokenizeValue s (some name) item
    do
      let (s, item) ← entry
      let (s, fields) ← tokenizeFields s fields
      return (s, (name, item) :: fields)

end

/-- `tokenize_data` -/
def tokenizeData (s : Redactor floats) (data : JsonValue (Number F)) (scope : Option String) :
    Except RedactError (Redactor floats × JsonValue (Number F)) := do
  let (s, data) ← tokenizeValue isWord { s with activeScope := scope } none data
  return ({ s with activeScope := none }, data)

/-- `SecretRelocationError` -/
structure SecretRelocationError where
  token : List Char
  key : Option String
  scope : Option String
  deriving DecidableEq, Repr

namespace Redactor

variable (s : Redactor floats) (scope : Option String)

/-- `_check_origin` raises no error. -/
def mayRestore (key : Option String) (token : List Char) : Bool :=
  match s.entryOf token with
  | none => true
  | some e => e.origins.isEmpty || key.any fun key => (scope, key) ∈ e.origins

/-- The token of a piece, if it may not be restored. -/
def refused (key : Option String) : Char ⊕ List Char → Option (List Char)
  | .inl _ => none
  | .inr token => if s.mayRestore scope key token then none else some token

/-- `restore`, of a text under a key, with a check of every token. -/
def restoreText (key : Option String) (text : List Char) :
    Except SecretRelocationError (List Char) :=
  match (tokens.pieces text).filterMap (s.refused scope key) with
  | token :: _ => .error ⟨token, key, scope⟩
  | [] => .ok (s.restore text)

mutual

/-- `restore_data` -/
def restoreData (key : Option String) :
    JsonValue (Number F) → Except SecretRelocationError (JsonValue (Number F))
  | .str text =>
    match (s.entryOf text.toList).bind TokenEntry.object with
    | some value =>
      if s.mayRestore scope key text.toList then .ok value else .error ⟨text.toList, key, scope⟩
    | none => do
      let restored ← s.restoreText scope key text.toList
      return .str (String.ofList restored)
  | .obj fields => do
    let fields ← restoreFields fields
    return .obj fields
  | .arr items => do
    let items ← restoreItems key items
    return .arr items
  | value => .ok value

def restoreItems (key : Option String) :
    List (JsonValue (Number F)) → Except SecretRelocationError (List (JsonValue (Number F)))
  | [] => .ok []
  | item :: items => do
    let item ← restoreData key item
    let items ← restoreItems key items
    return item :: items

def restoreFields :
    List (String × JsonValue (Number F)) →
      Except SecretRelocationError (List (String × JsonValue (Number F)))
  | [] => .ok []
  | (name, item) :: fields => do
    let item ← restoreData (some name) item
    let fields ← restoreFields fields
    return (name, item) :: fields

end

end Redactor

end Data

end Manus.Redaction
