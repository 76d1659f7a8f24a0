import Manus.Lib.Except
import Manus.Lib.Words
import Manus.Secrets.PassphraseCipher
import Mathlib.Data.List.TakeWhile

/-! # Passphrase tokens

An issued token is decrypted to its plaintext. Any other text is decrypted to what was encrypted
under the same passphrase, or is refused with the error of the module, unless the number of
iterations is written in digits that are no number, or the nonce or the passphrase is one that
the libraries refuse.
-/

namespace Manus.PassphraseCipher

section Texts

variable {text : List CodePoint} {p : CodePoint → Bool}

theorem dropWhile_of_none (h : ∀ c ∈ text, p c = false) : text.dropWhile p = text := by
  cases text with
  | nil => rfl
  | cons c text => exact List.dropWhile_cons_of_neg (by simp [h c List.mem_cons_self])

theorem strip_of_noSpace (h : ∀ c ∈ text, isSpacePoint c = false) : strip text = text := by
  have hreverse : ∀ c ∈ text.reverse, isSpacePoint c = false :=
    fun c hc => h c (List.mem_reverse.mp hc)
  rw [strip, dropWhile_of_none h, dropWhile_of_none hreverse, List.reverse_reverse]

def FieldPoint (point : CodePoint) : Prop := isSpacePoint point = false ∧ point ≠ .char '.'

instance (point : CodePoint) : Decidable (FieldPoint point) :=
  inferInstanceAs (Decidable (_ ∧ _))

theorem fieldPoint_b64e {raw : List UInt8} {point : CodePoint} (h : point ∈ b64e raw) :
    FieldPoint point := by
  have hall : ∀ n < 64, FieldPoint (.char (base64Char n)) := by decide
  obtain ⟨c, hc, rfl⟩ := List.mem_map.mp h
  obtain ⟨n, hn, rfl⟩ := b64Chars_letters raw c hc
  exact hall n hn

theorem fieldPoint_toDigits {n : ℕ} {point : CodePoint} (h : point ∈ ofChars (Nat.toDigits 10 n)) :
    FieldPoint point := by
  obtain ⟨c, hc, rfl⟩ := List.mem_map.mp h
  obtain ⟨hlow, hhigh⟩ : 48 ≤ c.toNat ∧ c.toNat ≤ 57 := by
    simpa [Char.isDigit, UInt32.le_iff_toNat_le] using
      Nat.isDigit_of_mem_toDigits (by decide) (by decide) hc
  constructor
  · simp only [isSpacePoint, isPySpace]
    simp
    omega
  · rintro ⟨⟩
    revert hlow
    decide

theorem splitOn_token {fields : List (List CodePoint)} (hne : fields ≠ [])
    (h : ∀ field ∈ fields, ∀ c ∈ field, FieldPoint c) :
    (strip ([CodePoint.char '.'].intercalate fields)).splitOn (.char '.') = fields := by
  have hspace : ∀ c ∈ [CodePoint.char '.'].intercalate fields, isSpacePoint c = false := by
    intro c hc
    rcases mem_intercalate hc with rfl | ⟨field, hfield, hc⟩
    · rfl
    · exact (h field hfield c hc).1
  rw [strip_of_noSpace hspace]
  exact List.splitOn_intercalate _ (fun field hfield hdot => (h field hfield _ hdot).2 rfl) hne

end Texts

section Fields

variable {value algo text : List CodePoint} {raw : List UInt8}

theorem normalizeAlgorithm_eq_ok {value : Option (List CodePoint)}
    (h : normalizeAlgorithm value = .ok algo) : algo = defaultAlgorithm := by
  cases value with
  | none =>
    cases h
    rfl
  | some value =>
    simp only [normalizeAlgorithm] at h
    split at h
    · cases h
      rfl
    · split at h
      case isTrue hdefault =>
        cases h
        exact hdefault
      · cases h

def NamesAlgorithm (value : List CodePoint) : Prop :=
  (strip value).map lowerPoint = [] ∨ (strip value).map lowerPoint = defaultAlgorithm

instance (value : List CodePoint) : Decidable (NamesAlgorithm value) :=
  inferInstanceAs (Decidable (_ ∨ _))

theorem namesAlgorithm_default : NamesAlgorithm defaultAlgorithm := by
  decide +kernel

theorem normalizeAlgorithm_of_names (h : NamesAlgorithm value) :
    normalizeAlgorithm (some value) = .ok defaultAlgorithm := by
  rcases h with h | h
  · simp [normalizeAlgorithm, h]
  · simp only [normalizeAlgorithm, h, if_true]
    rw [if_neg (by decide)]

theorem normalizeAlgorithm_of_not_names (h : ¬ NamesAlgorithm value) :
    normalizeAlgorithm (some value) = .error (.cipherError (.unsupportedAlgorithm value)) := by
  rw [NamesAlgorithm, not_or] at h
  simp only [normalizeAlgorithm, if_neg h.1, if_neg h.2]

theorem bytesOf_b64e (raw : List UInt8) : bytesOf (b64e raw) = some raw := by
  rw [bytesOf, b64e, chars?_ofChars, Option.bind_some]
  exact b64Decode_b64Encode raw

theorem b64d_of_some (h : bytesOf text = some raw) : b64d text = .ok raw := by
  rw [b64d, h]

theorem b64d_of_none (h : bytesOf text = none) : b64d text = .error (.cipherError .badBase64) := by
  rw [b64d, h]

/-- The digits that `int` does not read: not all of them are decimal, or there are too many. -/
def UnreadCount (count : List CodePoint) : Prop :=
  ∃ cs, count = ofChars cs ∧ isDigitText cs = true ∧
    (maxStrDigits < cs.length ∨ ∃ c ∈ cs, isDecimal c = false)

theorem unreadCount_iff {count : List CodePoint} :
    UnreadCount count ↔ isDigits count = true ∧ countOf count = none := by
  constructor
  · rintro ⟨cs, rfl, hdigits, hunread⟩
    rw [isDigits, countOf, chars?_ofChars]
    refine ⟨hdigits, ?_⟩
    rw [Option.bind_some]
    rcases hunread with hlong | ⟨c, hc, hdecimal⟩
    · exact if_neg hlong.not_ge
    · have hnone : unsignedValue cs = none := by
        rw [← Option.not_isSome_iff_eq_none, unsignedValue_of_isDigitText hdigits]
        intro hall
        rw [hall c hc] at hdecimal
        cases hdecimal
      rw [hnone, ite_self]
  · rintro ⟨hdigits, hnone⟩
    cases hcs : chars? count with
    | none =>
      rw [isDigits, hcs] at hdigits
      cases hdigits
    | some cs =>
      rw [isDigits, hcs] at hdigits
      rw [countOf, hcs, Option.bind_some] at hnone
      refine ⟨cs, chars?_eq_some.mp hcs, hdigits, ?_⟩
      by_cases hlong : cs.length ≤ maxStrDigits
      · right
        rw [if_pos hlong, ← Option.not_isSome_iff_eq_none,
          unsignedValue_of_isDigitText hdigits] at hnone
        push Not at hnone
        obtain ⟨c, hc, hdecimal⟩ := hnone
        exact ⟨c, hc, Bool.eq_false_iff.mpr hdecimal⟩
      · exact Or.inl (Nat.lt_of_not_le hlong)

theorem isDigits_toDigits (n : ℕ) : isDigits (ofChars (Nat.toDigits 10 n)) = true := by
  have hne : Nat.toDigits 10 n ≠ [] := List.ne_nil_of_length_pos Nat.length_toDigits_pos
  rw [isDigits, chars?_ofChars]
  change isDigitText _ = true
  rw [isDigitText, decide_eq_true hne, Bool.true_and, List.all_eq_true]
  intro c hc
  have hdigit := Nat.isDigit_of_mem_toDigits (by decide) (by decide) hc
  rw [isDecimal, decimalDigit?_of_isDigit hdigit]
  rfl

theorem countOf_toDigits {n : ℕ} (h : n ≤ kdfIterationsCeiling) :
    countOf (ofChars (Nat.toDigits 10 n)) = some n := by
  have hlt : n < 10 ^ 7 := h.trans_lt (by decide)
  have hlength : (Nat.toDigits 10 n).length ≤ 7 :=
    (Nat.length_toDigits_le_iff (by decide) (by decide)).mpr hlt
  rw [countOf, chars?_ofChars, Option.bind_some, if_pos (hlength.trans (by decide)),
    unsignedValue_toDigits]

end Fields

section Parts

structure Parts where
  algorithm : List CodePoint
  count : List CodePoint
  salt : List CodePoint
  nonce : List CodePoint
  ciphertext : List CodePoint

def HasParts (token : List CodePoint) (parts : Parts) : Prop :=
  (strip token).splitOn (.char '.') =
    [envelopeVersion, parts.algorithm, parts.count, parts.salt, parts.nonce, parts.ciphertext]

structure PassesChecks (parts : Parts) (algorithm : Option (List CodePoint)) (n : ℕ)
    (salt nonce ciphertext : List UInt8) : Prop where
  digits : isDigits parts.count = true
  count : countOf parts.count = some n
  range : kdfIterationsFloor ≤ n ∧ n ≤ kdfIterationsCeiling
  names : NamesAlgorithm parts.algorithm
  expected : ∀ value, algorithm = some value → NamesAlgorithm value
  salt : bytesOf parts.salt = some salt
  nonce : bytesOf parts.nonce = some nonce
  ciphertext : bytesOf parts.ciphertext = some ciphertext

variable {token : List CodePoint} {parts : Parts} {n : ℕ}

theorem split_of_noParts (h : ∀ parts, ¬ HasParts token parts) :
    split token = .error (.cipherError .malformedToken) := by
  rw [split]
  split
  case h_1 version algorithm count salt nonce ciphertext hsplit =>
    refine if_neg ?_
    rintro rfl
    exact h ⟨algorithm, count, salt, nonce, ciphertext⟩ hsplit
  case h_2 => rfl

theorem split_of_noDigits (h : HasParts token parts) (hdigits : isDigits parts.count = false) :
    split token = .error (.cipherError .iterationsOutOfRange) := by
  rw [split, h]
  simp [hdigits]

theorem split_of_unread (h : HasParts token parts) (hunread : UnreadCount parts.count) :
    split token = .error .valueError := by
  obtain ⟨hdigits, hnone⟩ := unreadCount_iff.mp hunread
  rw [split, h]
  simp only [if_true, hdigits, intOfDigits, hnone]
  rfl

theorem split_of_count (h : HasParts token parts) (hdigits : isDigits parts.count = true)
    (hcount : countOf parts.count = some n) :
    split token = if kdfIterationsFloor ≤ n ∧ n ≤ kdfIterationsCeiling then
      .ok ⟨parts.algorithm, n, parts.salt, parts.nonce, parts.ciphertext⟩
      else .error (.cipherError .iterationsOutOfRange) := by
  rw [split, h]
  simp only [if_true, hdigits, intOfDigits, hcount]
  rfl

theorem checkAlgorithm_of_names {algorithm : Option (List CodePoint)}
    (h : ∀ value, algorithm = some value → NamesAlgorithm value) :
    checkAlgorithm algorithm defaultAlgorithm = .ok () := by
  cases algorithm with
  | none => rfl
  | some value =>
    rw [checkAlgorithm, normalizeAlgorithm_of_names (h value rfl)]
    rfl

theorem checkAlgorithm_of_not_names {value : List CodePoint} (h : ¬ NamesAlgorithm value) :
    checkAlgorithm (some value) defaultAlgorithm =
      .error (.cipherError (.unsupportedAlgorithm value)) := by
  rw [checkAlgorithm, normalizeAlgorithm_of_not_names h]
  rfl

end Parts

section Decrypt

variable {K : Type} [DecidableEq K] {cipher : IdealCipher K} {log : List (Sealed K)}
  {token passphrase : List CodePoint} {algorithm : Option (List CodePoint)} {parts : Parts} {n : ℕ}
  {salt nonce ciphertext : List UInt8}

theorem requireStrong_of_le (h : minSharedSecretLength ≤ passphrase.length) :
    requireStrongPassphrase passphrase = .ok () := by
  have hne : passphrase ≠ [] := List.ne_nil_of_length_pos (Nat.lt_of_lt_of_le (by decide) h)
  rw [requireStrongPassphrase, if_neg hne, if_neg h.not_gt]

theorem decrypt_of_checks (cipher : IdealCipher K) (log : List (Sealed K))
    (hstrong : minSharedSecretLength ≤ passphrase.length)
    (hparts : HasParts token parts) (h : PassesChecks parts algorithm n salt nonce ciphertext) :
    decryptWithPassphrase cipher log token passphrase algorithm =
      deriveKey cipher passphrase salt n >>= fun key =>
        openSealed cipher log key nonce ciphertext >>= decode := by
  have hsplit := split_of_count hparts h.digits h.count
  rw [if_pos h.range] at hsplit
  rw [decryptWithPassphrase, requireStrong_of_le hstrong, hsplit]
  simp only [bind, Except.bind, normalizeAlgorithm_of_names h.names,
    checkAlgorithm_of_names h.expected, b64d_of_some h.salt, b64d_of_some h.nonce,
    b64d_of_some h.ciphertext]

theorem decrypt_of_split_error {r : Raised} (hstrong : minSharedSecretLength ≤ passphrase.length)
    (h : split token = .error r) :
    decryptWithPassphrase cipher log token passphrase algorithm = .error r := by
  rw [decryptWithPassphrase, requireStrong_of_le hstrong, h]
  rfl

/-- A check of the module that fails raises the error of the module. -/
theorem decrypt_of_failed_check (cipher : IdealCipher K) (log : List (Sealed K))
    (hstrong : minSharedSecretLength ≤ passphrase.length) (hparts : HasParts token parts)
    (hread : ¬ UnreadCount parts.count)
    (h : ∀ n salt nonce ciphertext, ¬ PassesChecks parts algorithm n salt nonce ciphertext) :
    ∃ e, decryptWithPassphrase cipher log token passphrase algorithm =
      .error (.cipherError e) := by
  cases hdigits : isDigits parts.count with
  | false => exact ⟨_, decrypt_of_split_error hstrong (split_of_noDigits hparts hdigits)⟩
  | true =>
    obtain ⟨n, hcount⟩ : ∃ n, countOf parts.count = some n :=
      Option.ne_none_iff_exists'.mp fun hnone => hread (unreadCount_iff.mpr ⟨hdigits, hnone⟩)
    have hsplit := split_of_count hparts hdigits hcount
    by_cases hrange : kdfIterationsFloor ≤ n ∧ n ≤ kdfIterationsCeiling
    · rw [if_pos hrange] at hsplit
      rw [decryptWithPassphrase, requireStrong_of_le hstrong, hsplit]
      simp only [bind, Except.bind]
      by_cases hnames : NamesAlgorithm parts.algorithm
      · rw [normalizeAlgorithm_of_names hnames]
        by_cases hexpected : ∀ value, algorithm = some value → NamesAlgorithm value
        · simp only [checkAlgorithm_of_names hexpected]
          cases hsalt : bytesOf parts.salt with
          | none => exact ⟨_, by rw [b64d_of_none hsalt]⟩
          | some salt =>
            rw [b64d_of_some hsalt]
            cases hnonce : bytesOf parts.nonce with
            | none => exact ⟨_, by rw [b64d_of_none hnonce]⟩
            | some nonce =>
              rw [b64d_of_some hnonce]
              cases hct : bytesOf parts.ciphertext with
              | none => exact ⟨_, by rw [b64d_of_none hct]⟩
              | some ciphertext =>
                exact absurd ⟨hdigits, hcount, hrange, hnames, hexpected, hsalt, hnonce, hct⟩
                  (h n salt nonce ciphertext)
        · push Not at hexpected
          obtain ⟨value, rfl, hvalue⟩ := hexpected
          simp only [checkAlgorithm_of_not_names hvalue]
          exact ⟨_, rfl⟩
      · rw [normalizeAlgorithm_of_not_names hnames]
        exact ⟨_, rfl⟩
    · rw [if_neg hrange] at hsplit
      exact ⟨_, decrypt_of_split_error hstrong hsplit⟩

theorem openSealed_of_refused {key : K} (h : NonceRefused nonce) :
    openSealed cipher log key nonce ciphertext = .error .valueError := if_pos h

theorem openSealed_of_mem (cipher : IdealCipher K) {s : Sealed K} (hs : s ∈ log)
    (h : ¬ NonceRefused s.nonce) :
    openSealed cipher log s.key s.nonce (cipher.encrypt s.key s.nonce s.message) =
      .ok s.message := by
  rw [openSealed, if_neg h]
  split
  case h_1 s' hfind =>
    have hs' := List.find?_some hfind
    rw [decide_eq_true_eq] at hs'
    rw [cipher.encrypt_injective _ _ hs'.2.2]
  case h_2 hnone =>
    have hno := List.find?_eq_none.mp hnone s hs
    simp at hno

theorem openSealed_cases (cipher : IdealCipher K) (log : List (Sealed K)) (key : K)
    (ciphertext : List UInt8) (h : ¬ NonceRefused nonce) :
    (∃ s ∈ log, s.key = key ∧ openSealed cipher log key nonce ciphertext = .ok s.message) ∨
      openSealed cipher log key nonce ciphertext = .error (.cipherError .decryptionFailed) := by
  rw [openSealed, if_neg h]
  split
  case h_1 s hfind =>
    have hs := List.find?_some hfind
    rw [decide_eq_true_eq] at hs
    exact Or.inl ⟨s, List.mem_of_find?_eq_some hfind, hs.1, rfl⟩
  case h_2 => exact Or.inr rfl

end Decrypt

section Encrypt

variable {K : Type} {cipher : IdealCipher K} {call : EncryptCall}
  {calls : List EncryptCall} {out : List CodePoint × Sealed K}

def issued (cipher : IdealCipher K) (call : EncryptCall) (key : K) (message : List UInt8) :
    List CodePoint × Sealed K :=
  ([CodePoint.char '.'].intercalate [envelopeVersion, defaultAlgorithm,
      ofChars (Nat.toDigits 10 call.iterations), b64e call.salt, b64e call.nonce,
      b64e (cipher.encrypt key call.nonce message)],
    { key, nonce := call.nonce, message })

theorem encode_ofChars (cs : List Char) : encode (ofChars cs) = .ok (utf8Encode cs) := by
  rw [encode, chars?_ofChars]

theorem encode_eq_ok {text : List CodePoint} {bytes : List UInt8} :
    encode text = .ok bytes ↔ ∃ cs, text = ofChars cs ∧ utf8Encode cs = bytes := by
  constructor
  · intro h
    rw [encode] at h
    split at h
    case h_1 cs hcs =>
      cases h
      exact ⟨cs, chars?_eq_some.mp hcs, rfl⟩
    case h_2 => cases h
  · rintro ⟨cs, rfl, rfl⟩
    exact encode_ofChars cs

theorem encrypt_eq_ok : encryptWithPassphrase cipher call = .ok out ↔
    minSharedSecretLength ≤ call.passphrase.length ∧
    normalizeAlgorithm call.algorithm = .ok defaultAlgorithm ∧
    ∃ secret cs, call.passphrase = ofChars secret ∧ call.plaintext = ofChars cs ∧
      (utf8Encode cs).length ≤ maxMessageBytes ∧
      out = issued cipher call (cipher.derive (utf8Encode secret) call.salt call.iterations)
        (utf8Encode cs) := by
  constructor
  · intro h
    simp only [encryptWithPassphrase, deriveKey, bind_eq_ok, map_eq_ok] at h
    obtain ⟨⟨⟩, hstrong, algo, halgo, key, ⟨_, hsecret, rfl⟩, _, hmessage, h⟩ := h
    obtain ⟨secret, hpass, rfl⟩ := encode_eq_ok.mp hsecret
    obtain ⟨cs, hplain, rfl⟩ := encode_eq_ok.mp hmessage
    obtain ⟨hlength, h⟩ := ite_error_eq_ok.mp h
    cases h
    rw [requireStrongPassphrase, ite_error_eq_ok, ite_error_eq_ok] at hstrong
    obtain rfl := normalizeAlgorithm_eq_ok halgo
    exact ⟨Nat.le_of_not_lt hstrong.2.1, halgo, secret, cs, hpass, hplain,
      Nat.le_of_not_lt hlength, rfl⟩
  · rintro ⟨hstrong, halgo, secret, cs, hpass, hplain, hlength, rfl⟩
    have hkey : deriveKey cipher call.passphrase call.salt call.iterations =
        .ok (cipher.derive (utf8Encode secret) call.salt call.iterations) := by
      rw [deriveKey, hpass, encode_ofChars]
      rfl
    rw [encryptWithPassphrase, requireStrong_of_le hstrong, halgo, hkey, hplain, encode_ofChars]
    exact if_neg hlength.not_gt

theorem mem_history {s : Sealed K} :
    s ∈ history cipher calls ↔ ∃ call ∈ calls, ∃ token,
      encryptWithPassphrase cipher call = .ok (token, s) := by
  simp only [history, List.mem_filterMap, Option.map_eq_some_iff, toOption_eq_some]
  constructor
  · rintro ⟨call, hcall, out, hout, rfl⟩
    exact ⟨call, hcall, out.1, hout⟩
  · rintro ⟨call, hcall, token, hout⟩
    exact ⟨call, hcall, _, hout, rfl⟩

theorem hasParts_issued (cipher : IdealCipher K) (call : EncryptCall) (key : K)
    (message : List UInt8) : HasParts (issued cipher call key message).1
      ⟨defaultAlgorithm, ofChars (Nat.toDigits 10 call.iterations), b64e call.salt,
        b64e call.nonce, b64e (cipher.encrypt key call.nonce message)⟩ := by
  apply splitOn_token (List.cons_ne_nil _ _)
  have hversion : ∀ c ∈ envelopeVersion, FieldPoint c := by decide +kernel
  have hdefault : ∀ c ∈ defaultAlgorithm, FieldPoint c := by decide +kernel
  simp only [List.forall_mem_cons]
  exact ⟨hversion, hdefault, fun _ => fieldPoint_toDigits, fun _ => fieldPoint_b64e,
    fun _ => fieldPoint_b64e, fun _ => fieldPoint_b64e, List.forall_mem_nil _⟩

theorem passesChecks_issued (cipher : IdealCipher K) (call : EncryptCall) (key : K)
    (message : List UInt8) : PassesChecks
      ⟨defaultAlgorithm, ofChars (Nat.toDigits 10 call.iterations), b64e call.salt,
        b64e call.nonce, b64e (cipher.encrypt key call.nonce message)⟩ none call.iterations
      call.salt call.nonce (cipher.encrypt key call.nonce message) where
  digits := isDigits_toDigits _
  count := countOf_toDigits call.iterations_range.2
  range := call.iterations_range
  names := namesAlgorithm_default
  expected := by
    intro value h
    cases h
  salt := bytesOf_b64e _
  nonce := bytesOf_b64e _
  ciphertext := bytesOf_b64e _

theorem decrypt_issued [DecidableEq K] (hcall : call ∈ calls)
    (h : encryptWithPassphrase cipher call = .ok out) :
    decryptWithPassphrase cipher (history cipher calls) out.1 call.passphrase none =
      .ok call.plaintext := by
  have hmem : out.2 ∈ history cipher calls := mem_history.mpr ⟨call, hcall, out.1, h⟩
  obtain ⟨hstrong, -, secret, cs, hpass, hplain, -, rfl⟩ := encrypt_eq_ok.mp h
  have hnonce : ¬ NonceRefused call.nonce := by
    simp [NonceRefused, call.nonce_length]
  have hopen := openSealed_of_mem cipher hmem hnonce
  rw [decrypt_of_checks cipher _ hstrong (hasParts_issued cipher call _ _)
    (passesChecks_issued cipher call _ _), hpass, deriveKey, encode_ofChars]
  change (openSealed cipher _ _ _ _ >>= decode) = _
  simp only [issued] at hopen ⊢
  rw [hopen, hplain]
  change decode (utf8Encode cs) = _
  rw [decode, utf8Decode_utf8Encode]

end Encrypt

section Recovered

variable {K : Type} [DecidableEq K]

/-- A plaintext is returned that was encrypted under the passphrase, or the error of the module is
raised. -/
def EndsCleanly (cipher : IdealCipher K) (calls : List EncryptCall)
    (token passphrase : List CodePoint) (algorithm : Option (List CodePoint)) : Prop :=
  (∃ call ∈ calls, call.passphrase = passphrase ∧
    (∃ out, encryptWithPassphrase cipher call = .ok out) ∧
    decryptWithPassphrase cipher (history cipher calls) token passphrase algorithm =
      .ok call.plaintext) ∨
  ∃ e, decryptWithPassphrase cipher (history cipher calls) token passphrase algorithm =
    .error (.cipherError e)

/-- The count of iterations is in digits that are not read; or all is in order with the token but
for its nonce, or with the token but not with the passphrase. -/
def LibraryRaises (token passphrase : List CodePoint) (algorithm : Option (List CodePoint)) :
    Prop :=
  ∃ parts, HasParts token parts ∧ (UnreadCount parts.count ∨
    ∃ n salt nonce ciphertext, PassesChecks parts algorithm n salt nonce ciphertext ∧
      (chars? passphrase = none ∨ NonceRefused nonce))

variable {cipher : IdealCipher K} {calls : List EncryptCall} {token passphrase : List CodePoint}
  {algorithm : Option (List CodePoint)}

theorem encode_of_surrogate {text : List CodePoint} (h : chars? text = none) :
    encode text = .error .unicodeEncodeError := by
  rw [encode, h]

theorem decrypt_of_libraryRaises (hstrong : minSharedSecretLength ≤ passphrase.length)
    (h : LibraryRaises token passphrase algorithm) (cipher : IdealCipher K)
    (log : List (Sealed K)) :
    decryptWithPassphrase cipher log token passphrase algorithm = .error .valueError ∨
    decryptWithPassphrase cipher log token passphrase algorithm = .error .unicodeEncodeError := by
  obtain ⟨parts, hparts, hunread | ⟨n, salt, nonce, ciphertext, hchecks, hrefused⟩⟩ := h
  · exact Or.inl (decrypt_of_split_error hstrong (split_of_unread hparts hunread))
  · rw [decrypt_of_checks cipher log hstrong hparts hchecks, deriveKey]
    cases hpass : chars? passphrase with
    | none =>
      rw [encode_of_surrogate hpass]
      exact Or.inr rfl
    | some secret =>
      rcases hrefused with hsurrogate | hnonce
      · rw [hpass] at hsurrogate
        cases hsurrogate
      · obtain rfl := chars?_eq_some.mp hpass
        rw [encode_ofChars]
        change (openSealed cipher log _ nonce ciphertext >>= decode) = _ ∨ _
        rw [openSealed_of_refused hnonce]
        exact Or.inl rfl

theorem endsCleanly_of_checks {parts : Parts} {n : ℕ} {salt nonce ciphertext : List UInt8}
    (hstrong : minSharedSecretLength ≤ passphrase.length) (hparts : HasParts token parts)
    (hchecks : PassesChecks parts algorithm n salt nonce ciphertext) {secret : List Char}
    (hpass : passphrase = ofChars secret) (hnonce : ¬ NonceRefused nonce) :
    EndsCleanly cipher calls token passphrase algorithm := by
  have hdecrypt := decrypt_of_checks cipher (history cipher calls) hstrong hparts hchecks
  rw [hpass, deriveKey, encode_ofChars] at hdecrypt
  change _ = (openSealed cipher _ _ nonce ciphertext >>= decode) at hdecrypt
  rcases openSealed_cases cipher (history cipher calls)
    (cipher.derive (utf8Encode secret) salt n) ciphertext hnonce with ⟨s, hs, hkey, hopen⟩ | hopen
  · obtain ⟨call, hcall, token', hcalled⟩ := mem_history.mp hs
    obtain ⟨-, -, secret', cs, hpass', hplain, -, hout⟩ := encrypt_eq_ok.mp hcalled
    obtain rfl : s = _ := congrArg Prod.snd hout
    obtain rfl : secret' = secret := utf8Encode_injective (cipher.derive_injective hkey).1
    refine Or.inl ⟨call, hcall, hpass'.trans hpass.symm, ⟨_, hcalled⟩, ?_⟩
    rw [hpass, hdecrypt, hopen, hplain]
    change decode (utf8Encode cs) = _
    rw [decode, utf8Decode_utf8Encode]
  · right
    rw [hpass, hdecrypt, hopen]
    exact ⟨_, rfl⟩

theorem endsCleanly_iff (hstrong : minSharedSecretLength ≤ passphrase.length) :
    EndsCleanly cipher calls token passphrase algorithm ↔
      ¬ LibraryRaises token passphrase algorithm := by
  constructor
  · intro hclean hraises
    have hdecrypt := decrypt_of_libraryRaises hstrong hraises cipher (history cipher calls)
    rcases hclean with ⟨call, -, -, -, hok⟩ | ⟨e, herror⟩
    · rw [hok] at hdecrypt
      simp at hdecrypt
    · rw [herror] at hdecrypt
      simp at hdecrypt
  · intro h
    by_cases hparts : ∃ parts, HasParts token parts
    · obtain ⟨parts, hparts⟩ := hparts
      by_cases hread : UnreadCount parts.count
      · exact absurd ⟨parts, hparts, Or.inl hread⟩ h
      · by_cases hchecks : ∃ n salt nonce ciphertext,
          PassesChecks parts algorithm n salt nonce ciphertext
        · obtain ⟨n, salt, nonce, ciphertext, hchecks⟩ := hchecks
          have hfine : ¬ (chars? passphrase = none ∨ NonceRefused nonce) :=
            fun hbad => h ⟨parts, hparts, Or.inr ⟨n, salt, nonce, ciphertext, hchecks, hbad⟩⟩
          rw [not_or] at hfine
          obtain ⟨secret, hsecret⟩ := Option.ne_none_iff_exists'.mp hfine.1
          exact endsCleanly_of_checks hstrong hparts hchecks (chars?_eq_some.mp hsecret) hfine.2
        · push Not at hchecks
          exact Or.inr (decrypt_of_failed_check cipher _ hstrong hparts hread hchecks)
    · push Not at hparts
      exact Or.inr ⟨_, decrypt_of_split_error hstrong (split_of_noParts hparts)⟩

/-- A call that encrypts a plaintext without surrogates by default is decrypted to it exactly when
the passphrase has no surrogates either and the plaintext is not too long. All texts end cleanly
but those with which a library raises an error of its own. -/
theorem passphrase_tokens (cipher : IdealCipher K) (calls : List EncryptCall)
    (hstrong : minSharedSecretLength ≤ passphrase.length) :
    (∀ call ∈ calls, call.passphrase = passphrase → call.algorithm = some defaultAlgorithm →
      ∀ cs, call.plaintext = ofChars cs →
        ((∃ out, encryptWithPassphrase cipher call = .ok out ∧
          decryptWithPassphrase cipher (history cipher calls) out.1 passphrase none =
            .ok call.plaintext) ↔
          chars? passphrase ≠ none ∧ (utf8Encode cs).length ≤ maxMessageBytes)) ∧
    ∀ token algorithm, EndsCleanly cipher calls token passphrase algorithm ↔
      ¬ LibraryRaises token passphrase algorithm := by
  constructor
  · rintro call hcall rfl halgo cs hplain
    constructor
    · rintro ⟨out, hout, -⟩
      obtain ⟨-, -, secret, cs', hpass, hplain', hlength, -⟩ := encrypt_eq_ok.mp hout
      obtain rfl : cs' = cs := ofChars_injective (hplain'.symm.trans hplain)
      rw [hpass, chars?_ofChars]
      exact ⟨Option.some_ne_none _, hlength⟩
    · rintro ⟨hpass, hlength⟩
      obtain ⟨secret, hsecret⟩ := Option.ne_none_iff_exists'.mp hpass
      have hnormal : normalizeAlgorithm call.algorithm = .ok defaultAlgorithm := by
        rw [halgo]
        exact normalizeAlgorithm_of_names namesAlgorithm_default
      have hout := (@encrypt_eq_ok K cipher call _).mpr ⟨hstrong, hnormal, secret, cs,
        chars?_eq_some.mp hsecret, hplain, hlength, rfl⟩
      exact ⟨_, hout, decrypt_issued hcall hout⟩
  · exact fun token algorithm => endsCleanly_iff hstrong

def openCipher : IdealCipher (List UInt8 × List UInt8 × ℕ) where
  derive secret salt n := (secret, salt, n)
  encrypt _ _ message := message ++ List.replicate 16 0
  derive_injective h := by simpa using h
  encrypt_injective k nonce message message' h := List.append_cancel_right h

def samplePassphrase : List CodePoint := literal "test-passphrase-12"

/-- A call for the plaintext `hunter2`. -/
def sampleCall : EncryptCall where
  plaintext := literal "hunter2"
  passphrase := samplePassphrase
  algorithm := some defaultAlgorithm
  salt := List.replicate 16 1
  nonce := List.replicate 12 2
  iterations := 600000
  nonce_length := by decide
  iterations_range := by decide

theorem passphrase_tokens_hunter2 :
    (∃ out, encryptWithPassphrase openCipher sampleCall = .ok out ∧
      decryptWithPassphrase openCipher (history openCipher [sampleCall]) out.1 samplePassphrase
        none = .ok (literal "hunter2")) ∧
    EndsCleanly openCipher [sampleCall] (literal "not-a-token") samplePassphrase none := by
  have h := passphrase_tokens openCipher [sampleCall]
    (show minSharedSecretLength ≤ samplePassphrase.length by decide +kernel)
  constructor
  · refine (h.1 sampleCall List.mem_cons_self rfl rfl "hunter2".toList rfl).mpr ?_
    decide +kernel
  · refine (h.2 _ none).mpr ?_
    rintro ⟨parts, hparts, -⟩
    have hne : ((strip (literal "not-a-token")).splitOn (.char '.')).length ≠ 6 := by decide +kernel
    exact hne (congrArg List.length hparts)

/-- A superscript two is a digit, and `int` does not read it. -/
theorem superscript_count_raises :
    decryptWithPassphrase openCipher (history openCipher [])
      (literal "AM2.aes-256-gcm.².c2FsdA.bm9uY2U.Y3Q") samplePassphrase none =
        .error .valueError ∧
    ¬ EndsCleanly openCipher [] (literal "AM2.aes-256-gcm.².c2FsdA.bm9uY2U.Y3Q")
      samplePassphrase none := by
  have h : decryptWithPassphrase openCipher (history openCipher [])
      (literal "AM2.aes-256-gcm.².c2FsdA.bm9uY2U.Y3Q") samplePassphrase none =
        .error .valueError := by
    decide +kernel
  refine ⟨h, ?_⟩
  rintro (⟨call, hcall, -⟩ | ⟨e, herror⟩)
  · cases hcall
  · rw [h] at herror
    cases herror

end Recovered

end Manus.PassphraseCipher
