import Manus.Assistant.RunToken
import Manus.Lib.Except
import Manus.Lib.Words

/-! # Confirming what was proposed

An issued token gives back what was signed, for the same user and before it expires, unless it is
longer than what a confirmation may be. Nothing else is accepted but the token of an issued one
with its signature in another spelling.
-/

namespace Manus.RunToken

section Encoding

variable {text : List CodePoint} {cs : List Char} {raw : List UInt8}

def IsBase64Char (c : Char) : Prop := c = '=' ∨ ∃ n < 64, c = base64Char n

theorem isBase64Char_of_mem {c : Char} (h : c ∈ urlsafeB64encode raw) : IsBase64Char c := by
  rcases List.mem_append.mp h with h | h
  · obtain ⟨n, hn, rfl⟩ := b64Chars_letters raw c h
    exact Or.inr ⟨n, hn, rfl⟩
  · exact Or.inl (List.eq_of_mem_replicate h)

theorem IsBase64Char.spec {c : Char} (h : IsBase64Char c) :
    c.toNat < 128 ∧ c ≠ '.' ∧ c ≠ '?' := by
  have hall : ∀ n < 64, base64Char n ≠ '.' ∧ base64Char n ≠ '?' := by decide
  rcases h with rfl | ⟨n, hn, rfl⟩
  · decide
  · exact ⟨base64Char_ascii hn, hall n hn⟩

theorem urlsafeB64decode_encode (raw : List UInt8) :
    urlsafeB64decode (urlsafeB64encode raw) = some raw := decodeFrom_b64Chars raw

theorem length_b64Chars (raw : List UInt8) :
    (b64Chars raw).length + (4 - (b64Chars raw).length % 4) % 4 = 4 * ((raw.length + 2) / 3) := by
  induction raw using b64Chars.induct with
  | case1 => rfl
  | case2 a => simp [b64Chars]
  | case3 a b => simp [b64Chars]
  | case4 a b c raw ih =>
    simp only [b64Chars, List.length_cons]
    omega

theorem length_urlsafeB64encode (raw : List UInt8) :
    (urlsafeB64encode raw).length = 4 * ((raw.length + 2) / 3) := by
  rw [urlsafeB64encode, List.length_append, padding, List.length_replicate, length_b64Chars]

theorem ascii?_ofChars (h : ∀ c ∈ cs, c.toNat < 128) : ascii? (ofChars cs) = some cs := by
  rw [ascii?, chars?_ofChars, Option.bind_some]
  exact if_pos (List.all_eq_true.mpr fun c hc => decide_eq_true (h c hc))

theorem decodeText_encode (raw : List UInt8) :
    decodeText (ofChars (urlsafeB64encode raw)) = .ok raw := by
  rw [decodeText, ascii?_ofChars fun c hc => (isBase64Char_of_mem hc).spec.1, Option.bind_some,
    urlsafeB64decode_encode]

theorem asciiReplaced_ofChars (h : ∀ c ∈ cs, c.toNat < 128) :
    asciiReplaced (ofChars cs) = asciiBytes cs := by
  rw [asciiReplaced, ofChars, List.map_map, asciiBytes]
  exact List.map_congr_left fun c hc => if_pos (h c hc)

theorem asciiByte_injective {c d : Char} (hc : c.toNat < 128) (hd : d.toNat < 128)
    (h : asciiByte c = asciiByte d) : c = d := by
  have hnat := congrArg UInt8.toNat h
  rw [asciiByte, asciiByte, UInt8.toNat_ofNat', UInt8.toNat_ofNat', Nat.mod_eq_of_lt (by omega),
    Nat.mod_eq_of_lt (by omega)] at hnat
  exact Char.toNat_inj.mp hnat

theorem eq_of_asciiReplaced (hcs : ∀ c ∈ cs, IsBase64Char c)
    (h : asciiReplaced text = asciiBytes cs) : text = ofChars cs := by
  induction cs generalizing text with
  | nil => exact List.map_eq_nil_iff.mp h
  | cons c cs ih =>
    cases text with
    | nil => cases h
    | cons point text =>
      obtain ⟨hbyte, hrest⟩ := List.cons.inj h
      have hc := (hcs c List.mem_cons_self).spec
      have hquestion : asciiByte '?' ≠ asciiByte c :=
        fun heq => hc.2.2 (asciiByte_injective (by decide) hc.1 heq).symm
      rw [ih (fun d hd => hcs d (List.mem_cons_of_mem _ hd)) hrest]
      cases point with
      | surrogate offset => exact absurd hbyte hquestion
      | char d =>
        by_cases hd : d.toNat < 128
        · have hsame : asciiByte d = asciiByte c := (if_pos hd).symm.trans hbyte
          rw [asciiByte_injective hd hc.1 hsame]
          rfl
        · exact absurd ((if_neg hd).symm.trans hbyte) hquestion

end Encoding

section Payload

variable {F : Type} {floats : Floats F} {clock : Clock floats} {call : IssueCall F}

theorem sortKeys_payload (clock : Clock floats) (call : IssueCall F) :
    (payload clock call).sortKeys =
      .obj [("d", .arr (call.devices.map fun d => (deviceJson d).sortKeys)),
        ("i", (JsonValue.obj call.runInputs).sortKeys), ("j", .str call.tokenId),
        ("s", .str call.stamp), ("u", .num (.int call.userId)),
        ("w", .num (.int call.workflowId)), ("x", .num (.float (expiresAt clock call)))] := by
  simp only [payload, JsonValue.sortKeys, JsonValue.sortKeysFields_eq, List.map_cons, List.map_nil,
    JsonValue.sortKeysList_eq, List.map_map]
  simp [List.mergeSort, List.MergeSort.Internal.splitInTwo]

theorem sortKeys_deviceJson (d : ProposedDevice) :
    (deviceJson d : JsonValue (Number F)).sortKeys =
      .obj [("i", .str d.ip), ("n", optionalText d.name), ("p", optionalText d.platform),
        ("r", optionalText d.networkDriver), ("v", .bool d.inInventory)] := by
  have hoptional : ∀ text, (optionalText text : JsonValue (Number F)).sortKeys =
      optionalText text := by
    rintro (_ | text) <;> rfl
  simp only [deviceJson, JsonValue.sortKeys, JsonValue.sortKeysFields_eq, List.map_cons,
    List.map_nil, hoptional]
  simp [List.mergeSort, List.MergeSort.Internal.splitInTwo]

theorem textOrNone_optionalText (text : Option String) :
    textOrNone (optionalText text : JsonValue (Number F)) = .ok text := by
  cases text <;> rfl

theorem device_deviceJson (d : ProposedDevice) :
    device floats (deviceJson d).sortKeys = .ok d := by
  rw [sortKeys_deviceJson]
  simp [device, item, List.lookup_cons, textOrNone_optionalText, boolean, strOf, bind, Except.bind,
    pure, Except.pure]

theorem devicesOf_devices (devices : List ProposedDevice) :
    devicesOf floats (.arr (devices.map fun d => (deviceJson d).sortKeys)) = .ok devices := by
  rw [devicesOf]
  induction devices with
  | nil => rfl
  | cons d devices ih =>
    rw [List.map_cons, List.mapM_cons, device_deviceJson, ih]
    rfl

def grant (clock : Clock floats) (call : IssueCall F) : WorkflowRunGrant F where
  userId := call.userId
  workflowId := call.workflowId
  runInputs := (JsonValue.sortKeysFields call.runInputs).mergeSort fun a b => decide (a.1 ≤ b.1)
  devices := call.devices
  stamp := call.stamp
  tokenId := call.tokenId
  expiresAt := expiresAt clock call

theorem grantOf_payload (hstamp : call.stamp ≠ "") :
    grantOf clock (payload clock call).sortKeys = .ok (grant clock call) := by
  rw [sortKeys_payload, JsonValue.sortKeys]
  simp [grantOf, item, List.lookup_cons, inputsOf, intOf, Releases.int, Except.mapError,
    devicesOf_devices, text, hstamp, call.tokenId_ne, clock.toFloat_float, bind, Except.bind, pure,
    Except.pure, grant]

theorem grantOf_noStamp (hstamp : call.stamp = "") :
    grantOf clock (payload clock call).sortKeys = .error .invalidRunToken := by
  rw [sortKeys_payload, JsonValue.sortKeys]
  simp [grantOf, item, List.lookup_cons, inputsOf, intOf, Releases.int, Except.mapError,
    devicesOf_devices, text, hstamp, bind, Except.bind]

theorem loadsBytes_body (h : (payload clock call).allReadable clock.numbers = true) :
    loadsBytes clock (utf8Encode (body clock call)) = .ok (payload clock call).sortKeys := by
  rw [loadsBytes, utf8Decode_utf8Encode, Option.bind_some, body, JsonValue.loads_dumps h]

end Payload

section Verify

variable {F : Type} {floats : Floats F} {clock : Clock floats} {mac : Mac}
  {calls : List (IssueCall F)} {call : IssueCall F} {token sig : List CodePoint} {userId : ℤ}
  {now : F}

def Issues (clock : Clock floats) (call : IssueCall F) : Prop :=
  (payload clock call).allReadable clock.numbers = true

instance (clock : Clock floats) (call : IssueCall F) : Decidable (Issues clock call) :=
  inferInstanceAs (Decidable (_ = true))

theorem issueRunToken_of_issues (h : Issues clock call) : issueRunToken clock mac call =
    some (ofChars (encoded clock call ++ '.' :: signature clock mac call), expiresAt clock call) :=
  if_pos h

theorem issueRunToken_eq_some {out : List CodePoint × F}
    (h : issueRunToken clock mac call = some out) :
    Issues clock call ∧
      out = (ofChars (encoded clock call ++ '.' :: signature clock mac call),
        expiresAt clock call) := by
  rw [issueRunToken] at h
  split at h
  case isTrue hissues =>
    cases h
    exact ⟨hissues, rfl⟩
  case isFalse => cases h

theorem mem_signedBodies {bytes : List UInt8} : bytes ∈ signedBodies clock mac calls ↔
    ∃ call ∈ calls, Issues clock call ∧ asciiBytes (encoded clock call) = bytes := by
  simp only [signedBodies, List.mem_filterMap, Option.map_eq_some_iff]
  constructor
  · rintro ⟨call, hcall, out, hout, rfl⟩
    exact ⟨call, hcall, (issueRunToken_eq_some hout).1, rfl⟩
  · rintro ⟨call, hcall, hissues, rfl⟩
    exact ⟨call, hcall, _, issueRunToken_of_issues hissues, rfl⟩

theorem isBase64_encoded : ∀ c ∈ encoded clock call, IsBase64Char c :=
  fun _ => isBase64Char_of_mem

theorem dot_notMem_ofChars {cs : List Char} (h : ∀ c ∈ cs, IsBase64Char c) :
    CodePoint.char '.' ∉ ofChars cs := by
  intro hdot
  obtain ⟨c, hc, heq⟩ := List.mem_map.mp hdot
  exact (h c hc).spec.2.1 (CodePoint.char.inj heq)

def withSignature (clock : Clock floats) (call : IssueCall F) (sig : List CodePoint) :
    List CodePoint := ofChars (encoded clock call) ++ .char '.' :: sig

theorem splitOn_withSignature (clock : Clock floats) (call : IssueCall F)
    (hdot : CodePoint.char '.' ∉ sig) :
    (withSignature clock call sig).splitOn (.char '.') = [ofChars (encoded clock call), sig] :=
  splitOn_eq_pair_iff.mpr ⟨rfl, dot_notMem_ofChars isBase64_encoded, hdot⟩

def Signs (clock : Clock floats) (mac : Mac) (call : IssueCall F) (sig : List CodePoint) : Prop :=
  .char '.' ∉ sig ∧ decodeText sig = .ok (mac.tag (asciiBytes (encoded clock call)))

theorem signs_signature : Signs clock mac call (ofChars (signature clock mac call)) :=
  ⟨dot_notMem_ofChars fun _ => isBase64Char_of_mem, decodeText_encode _⟩

structure Current (clock : Clock floats) (call : IssueCall F) (userId : ℤ) (now : F) : Prop where
  issues : Issues clock call
  stamp : call.stamp ≠ ""
  user : call.userId = userId
  unexpired : clock.le (expiresAt clock call) now = false

theorem verify_withSignature (hcall : call ∈ calls) (hissues : Issues clock call)
    (hsig : Signs clock mac call sig)
    (hlength : (withSignature clock call sig).length ≤ maxTokenChars) :
    verifyRunToken clock mac (signedBodies clock mac calls) (withSignature clock call sig) userId
        now = grantOf clock (payload clock call).sortKeys >>= fun grant =>
      if grant.userId ≠ userId ∨ clock.le grant.expiresAt now then .error .invalidRunToken
      else .ok grant := by
  have hbytes : asciiReplaced (ofChars (encoded clock call)) = asciiBytes (encoded clock call) :=
    asciiReplaced_ofChars fun c hc => (isBase64_encoded c hc).spec.1
  have haccepts : macAccepts mac (signedBodies clock mac calls)
      (mac.tag (asciiBytes (encoded clock call))) (asciiReplaced (ofChars (encoded clock call))) =
        true := by
    rw [hbytes, macAccepts, Bool.and_eq_true, decide_eq_true_eq, decide_eq_true_eq]
    exact ⟨rfl, mem_signedBodies.mpr ⟨call, hcall, hissues, rfl⟩⟩
  have hdecode : decodeText (ofChars (encoded clock call)) = .ok (utf8Encode (body clock call)) :=
    decodeText_encode _
  rw [verifyRunToken, if_neg hlength.not_gt, splitOn_withSignature clock call hsig.1]
  simp only [hsig.2, bind, Except.bind, haccepts, if_true, hdecode, loadsBytes_body hissues]

theorem verify_of_current (hcall : call ∈ calls) (h : Current clock call userId now)
    (hsig : Signs clock mac call sig)
    (hlength : (withSignature clock call sig).length ≤ maxTokenChars) :
    verifyRunToken clock mac (signedBodies clock mac calls) (withSignature clock call sig) userId
      now = .ok (grant clock call) := by
  have hfine : ¬ ((grant clock call).userId ≠ userId ∨
      clock.le (grant clock call).expiresAt now = true) := by
    rintro (hother | hexpired)
    · exact hother h.user
    · have hunexpired : clock.le (grant clock call).expiresAt now = false := h.unexpired
      rw [hunexpired] at hexpired
      cases hexpired
  rw [verify_withSignature hcall h.issues hsig hlength, grantOf_payload h.stamp]
  exact if_neg hfine

/-- Whatever is accepted is the encoded part of a current token with a signature. -/
theorem verify_eq_ok {g : WorkflowRunGrant F}
    (h : verifyRunToken clock mac (signedBodies clock mac calls) token userId now = .ok g) :
    ∃ call ∈ calls, Current clock call userId now ∧ ∃ sig, token = withSignature clock call sig ∧
      Signs clock mac call sig ∧ token.length ≤ maxTokenChars := by
  have hverify := h
  rw [verifyRunToken, ite_error_eq_ok] at h
  obtain ⟨hlength, h⟩ := h
  have hlength := Nat.le_of_not_lt hlength
  split at h
  case h_1 encodedPart sig hsplit =>
    obtain ⟨rfl, -, hdot⟩ := splitOn_eq_pair_iff.mp hsplit
    obtain ⟨given, hgiven, h⟩ := bind_eq_ok.mp h
    split at h
    case isTrue haccepts =>
      rw [macAccepts, Bool.and_eq_true, decide_eq_true_eq, decide_eq_true_eq] at haccepts
      obtain ⟨htag, hmem⟩ := haccepts
      obtain ⟨call, hcall, hissues, hbytes⟩ := mem_signedBodies.mp hmem
      obtain rfl := eq_of_asciiReplaced isBase64_encoded hbytes.symm
      rw [← hbytes] at htag
      have hsig : Signs clock mac call sig := ⟨hdot, hgiven.trans (congrArg _ htag)⟩
      have hcurrent := hverify.symm.trans (verify_withSignature hcall hissues hsig hlength)
      refine ⟨call, hcall, ?_, sig, rfl, hsig, hlength⟩
      by_cases hstamp : call.stamp = ""
      · rw [grantOf_noStamp hstamp] at hcurrent
        cases hcurrent
      · rw [grantOf_payload hstamp] at hcurrent
        have hchecked := (ite_error_eq_ok.mp hcurrent.symm).1
        rw [not_or, not_not, Bool.not_eq_true] at hchecked
        exact ⟨hissues, hstamp, hchecked.1, hchecked.2⟩
    case isFalse => cases h
  case h_2 => cases h

end Verify

section Confirmed

variable {F : Type} {floats : Floats F} {clock : Clock floats} {mac : Mac}
  {calls : List (IssueCall F)} {call : IssueCall F} {token : List CodePoint} {userId : ℤ} {now : F}

def maxBodyBytes : ℕ := 12252

theorem length_issued (clock : Clock floats) (mac : Mac) (call : IssueCall F) :
    (ofChars (encoded clock call ++ '.' :: signature clock mac call)).length ≤ maxTokenChars ↔
      (utf8Encode (body clock call)).length ≤ maxBodyBytes := by
  rw [ofChars, List.length_map, List.length_append, List.length_cons, encoded, signature,
    length_urlsafeB64encode, length_urlsafeB64encode, mac.length_tag, maxTokenChars, maxBodyBytes]
  omega

theorem ofChars_issued : ofChars (encoded clock call ++ '.' :: signature clock mac call) =
    withSignature clock call (ofChars (signature clock mac call)) :=
  List.map_append

structure Grants (g : WorkflowRunGrant F) (call : IssueCall F) : Prop where
  user : g.userId = call.userId
  workflow : g.workflowId = call.workflowId
  inputs : (JsonValue.obj g.runInputs).Same (.obj call.runInputs)
  devices : g.devices = call.devices
  stamp : g.stamp = call.stamp

theorem grants_grant (clock : Clock floats) (call : IssueCall F) :
    Grants (grant clock call) call where
  user := rfl
  workflow := rfl
  inputs := JsonValue.sortKeys_sortKeys (.obj call.runInputs)
  devices := rfl
  stamp := rfl

def IssuedTo (clock : Clock floats) (mac : Mac) (calls : List (IssueCall F))
    (token : List CodePoint) (userId : ℤ) : Prop :=
  ∃ call ∈ calls, call.userId = userId ∧ ∃ expires, issueRunToken clock mac call =
    some (token, expires)

def Respelled (clock : Clock floats) (mac : Mac) (calls : List (IssueCall F))
    (token : List CodePoint) (userId : ℤ) (now : F) : Prop :=
  ∃ call ∈ calls, Current clock call userId now ∧ ∃ sig, token = withSignature clock call sig ∧
    Signs clock mac call sig ∧ token.length ≤ maxTokenChars ∧
    sig ≠ ofChars (signature clock mac call)

theorem not_issuedTo_of_respelled (h : Respelled clock mac calls token userId now) :
    ¬ IssuedTo clock mac calls token userId := by
  obtain ⟨call, hcall, hcurrent, sig, rfl, hsig, hlength, hne⟩ := h
  rintro ⟨call', hcall', huser, expires, hissued⟩
  have htoken : withSignature clock call sig =
      withSignature clock call' (ofChars (signature clock mac call')) :=
    (congrArg Prod.fst (issueRunToken_eq_some hissued).2).trans ofChars_issued
  have hsplit := splitOn_withSignature clock call hsig.1
  rw [htoken, splitOn_withSignature clock call' signs_signature.1, List.cons.injEq,
    List.cons.injEq] at hsplit
  have hencoded := ofChars_injective hsplit.1
  apply hne
  rw [← hsplit.2.1, signature, hencoded, signature]

/-- A current token is confirmed as issued exactly when its payload is not too long, and a text is
accepted without having been issued to the user exactly when it respells a signature. -/
theorem runToken_confirms (clock : Clock floats) (mac : Mac) (calls : List (IssueCall F)) :
    (∀ call ∈ calls, ∀ token expires, issueRunToken clock mac call = some (token, expires) →
      call.stamp ≠ "" → ∀ now, clock.le expires now = false →
        ((∃ g, verifyRunToken clock mac (signedBodies clock mac calls) token call.userId now =
          .ok g ∧ Grants g call) ↔ (utf8Encode (body clock call)).length ≤ maxBodyBytes)) ∧
    ∀ token userId now,
      ((∃ g, verifyRunToken clock mac (signedBodies clock mac calls) token userId now = .ok g) →
        IssuedTo clock mac calls token userId) ↔ ¬ Respelled clock mac calls token userId now := by
  constructor
  · intro call hcall token expires hissued hstamp now hnow
    obtain ⟨hissues, hout⟩ := issueRunToken_eq_some hissued
    cases hout
    rw [← length_issued clock mac call]
    constructor
    · rintro ⟨g, hverify, -⟩
      obtain ⟨-, -, -, -, -, -, hlength⟩ := verify_eq_ok hverify
      exact hlength
    · intro hlength
      rw [ofChars_issued] at hlength ⊢
      exact ⟨_, verify_of_current hcall ⟨hissues, hstamp, rfl, hnow⟩ signs_signature hlength,
        grants_grant clock call⟩
  · intro token userId now
    constructor
    · intro h hrespelled
      have hnot := not_issuedTo_of_respelled hrespelled
      obtain ⟨call, hcall, hcurrent, sig, rfl, hsig, hlength, -⟩ := hrespelled
      exact hnot (h ⟨_, verify_of_current hcall hcurrent hsig hlength⟩)
    · rintro h ⟨g, hverify⟩
      obtain ⟨call, hcall, hcurrent, sig, rfl, hsig, hlength⟩ := verify_eq_ok hverify
      by_cases hsame : sig = ofChars (signature clock mac call)
      · subst hsame
        refine ⟨call, hcall, hcurrent.user, expiresAt clock call, ?_⟩
        rw [issueRunToken_of_issues hcurrent.issues, ofChars_issued]
      · exact absurd ⟨call, hcall, hcurrent, sig, rfl, hsig, hlength, hsame⟩ h

end Confirmed

section Samples

/-- The floats that are natural numbers, as long as `repr` needs no exponent for them. -/
def wholeFloats : Floats ℕ where
  repr n := Nat.toDigits 10 n ++ ['.', '0']
  repr_injective m n h := toDigits_injective (List.append_cancel_right h)
  repr_chars n c hc := by
    rcases List.mem_append.mp hc with hc | hc
    · have hdigit : c.isDigit = true := Nat.isDigit_of_mem_toDigits (by decide) (by decide) hc
      rw [isNumberChar, hdigit, Bool.true_or]
    · have hall : ∀ c ∈ ['.', '0'], isNumberChar c = true :=
        List.all_iff_forall_prop.mp (by decide)
      exact hall c hc
  repr_fraction n := Or.inl (by simp)
  trunc n := n
  whole n := some n

def sampleClock : Clock wholeFloats where
  read text :=
    match text.reverse with
    | '0' :: '.' :: digits => unsignedValue digits.reverse
    | _ => none
  read_repr n := by
    simp only [wholeFloats, List.reverse_append, List.reverse_cons, List.reverse_nil,
      List.nil_append, List.cons_append, List.reverse_reverse]
    exact unsignedValue_toDigits n
  scan_repr n rest h := by
    have hwhole := @scanWhole_toDigits ('.' :: '0' :: rest) n rfl rfl
    have hzero : ('0' :: rest).takeWhile Char.isDigit = ['0'] ∧
        ('0' :: rest).dropWhile Char.isDigit = rest := by
      rw [List.takeWhile_cons_of_pos (by decide), List.dropWhile_cons_of_pos (by decide),
        h.digits.1, h.digits.2]
      exact ⟨rfl, rfl⟩
    have hfraction : scanFraction ('.' :: '0' :: rest) = (['.', '0'], rest) := by
      rw [scanFraction, hzero.1, hzero.2]
      rfl
    change scanNumber (Nat.toDigits 10 n ++ ['.', '0'] ++ rest) = _
    rw [List.append_assoc, scanNumber]
    simp only [List.cons_append, List.nil_append]
    rw [if_neg (head_toDigits_ne_minus n)]
    simp only [hwhole, Option.map_some, hfraction, h.exponent]
    simp [wholeFloats]
  plus n k := (n + k).toNat
  le m n := m ≤ n
  toFloat
    | .num (.float x) => .ok x
    | .num (.int n) => .ok n.toNat
    | _ => .error .invalidRunToken
  toFloat_float _ := rfl

def sampleMac : Mac where
  tag body := (body ++ List.replicate 32 0).take 32
  length_tag body := by simp

def sampleCall : IssueCall ℕ where
  userId := 7
  workflowId := 3
  runInputs := [("a", .num (.int 1))]
  devices := [{
    ip := "10.0.0.1", name := some "sw1", inInventory := true, networkDriver := some "cisco_xe"
    platform := some "ios" }]
  stamp := "stamp-a"
  now := 1000
  tokenId := "00112233445566778899aabbccddeeff"
  tokenId_ne := by decide

theorem body_sampleCall : body sampleClock sampleCall =
    ("\x7b\"d\":[\x7b\"i\":\"10.0.0.1\",\"n\":\"sw1\",\"p\":\"ios\",\"r\":\"cisco_xe\"," ++
      "\"v\":true\x7d],\"i\":\x7b\"a\":1\x7d,\"j\":\"00112233445566778899aabbccddeeff\"," ++
      "\"s\":\"stamp-a\",\"u\":7,\"w\":3,\"x\":1600.0\x7d").toList := by
  rw [body, JsonValue.dumps, sortKeys_payload]
  simp only [sampleCall, List.map_cons, List.map_nil, sortKeys_deviceJson, JsonValue.sortKeys,
    JsonValue.sortKeysFields_eq, List.mergeSort_singleton]
  decide +kernel

theorem runToken_confirms_sample : ∃ g, verifyRunToken sampleClock sampleMac
    (signedBodies sampleClock sampleMac [sampleCall])
    (ofChars (encoded sampleClock sampleCall ++ '.' :: signature sampleClock sampleMac sampleCall))
    7 1000 = .ok g ∧ Grants g sampleCall := by
  have hissues : Issues sampleClock sampleCall := by decide +kernel
  refine ((runToken_confirms sampleClock sampleMac [sampleCall]).1 sampleCall List.mem_cons_self _ _
    (issueRunToken_of_issues hissues) (by decide) 1000 (by decide +kernel)).mpr ?_
  rw [body_sampleCall]
  decide +kernel

def longText (n : ℕ) : String := String.ofList (List.replicate n 'a')

theorem length_longText (n : ℕ) : (longText n).toList.length = n := by
  rw [longText, String.toList_ofList, List.length_replicate]

def longCall : IssueCall ℕ := { sampleCall with stamp := longText 12253 }

theorem length_stringRest (cs : List Char) : cs.length < (stringRest cs).length := by
  induction cs with
  | nil => decide
  | cons c cs ih =>
    have hpos := escapeJsonChar_length c
    rw [stringRest, List.length_append, List.length_cons]
    omega

theorem length_utf8Encode (cs : List Char) : cs.length ≤ (utf8Encode cs).length := by
  induction cs with
  | nil => exact Nat.le_refl 0
  | cons c cs ih =>
    have hpos := c.utf8Size_pos
    have hcons : utf8Encode (c :: cs) = String.utf8EncodeChar c ++ utf8Encode cs := rfl
    rw [hcons, List.length_append, List.length_cons, String.length_utf8EncodeChar]
    omega

theorem stamp_lt_body {F : Type} {floats : Floats F} (clock : Clock floats) (call : IssueCall F) :
    call.stamp.toList.length < (utf8Encode (body clock call)).length := by
  have hstamp := length_stringRest call.stamp.toList
  have hbody : (stringRest call.stamp.toList).length < (body clock call).length := by
    rw [body, JsonValue.dumps, sortKeys_payload]
    simp only [JsonValue.write, JsonValue.writeFields, stringText, List.length_cons,
      List.length_append]
    omega
  have hbytes := length_utf8Encode (body clock call)
  omega

theorem length_stamp_longCall : longCall.stamp.toList.length = 12253 := length_longText 12253

/-- A token that is issued is refused, and a token that was not issued is accepted. -/
theorem token_too_long_and_respelled :
    (∃ token expires, issueRunToken sampleClock sampleMac longCall = some (token, expires) ∧
      longCall.stamp ≠ "" ∧ sampleClock.le expires 1000 = false ∧
      verifyRunToken sampleClock sampleMac (signedBodies sampleClock sampleMac [longCall]) token 7
        1000 = .error .invalidRunToken) ∧
    ∃ token g, verifyRunToken sampleClock sampleMac
      (signedBodies sampleClock sampleMac [sampleCall]) token 7 1000 = .ok g ∧
      ¬ IssuedTo sampleClock sampleMac [sampleCall] token 7 := by
  constructor
  · have hissues : Issues sampleClock longCall := by decide +kernel
    have hstamp : longCall.stamp ≠ "" := by
      intro h
      have hlength := length_stamp_longCall
      rw [h] at hlength
      cases hlength
    refine ⟨_, _, issueRunToken_of_issues hissues, hstamp, by decide +kernel, if_pos ?_⟩
    have hlong := stamp_lt_body sampleClock longCall
    rw [length_stamp_longCall] at hlong
    have hover : maxBodyBytes < (utf8Encode (body sampleClock longCall)).length :=
      Nat.lt_trans (by decide) hlong
    exact Nat.lt_of_not_le fun hlength =>
      absurd ((length_issued sampleClock sampleMac longCall).mp hlength) hover.not_ge
  · have hcurrent : Current sampleClock sampleCall 7 1000 :=
      ⟨by decide +kernel, by decide, rfl, by decide +kernel⟩
    have hlength : (withSignature sampleClock sampleCall
        (ofChars ('!' :: signature sampleClock sampleMac sampleCall))).length ≤ maxTokenChars := by
      rw [withSignature, encoded, signature, encoded, body_sampleCall]
      decide +kernel
    have hsigns : Signs sampleClock sampleMac sampleCall
        (ofChars ('!' :: signature sampleClock sampleMac sampleCall)) := by
      rw [Signs, signature, encoded, body_sampleCall]
      decide +kernel
    have hrespelled : Respelled sampleClock sampleMac [sampleCall] (withSignature sampleClock
        sampleCall (ofChars ('!' :: signature sampleClock sampleMac sampleCall))) 7 1000 := by
      refine ⟨sampleCall, List.mem_cons_self, hcurrent, _, rfl, hsigns, hlength, fun h => ?_⟩
      exact List.cons_ne_self _ _ (ofChars_injective h)
    exact ⟨_, _, verify_of_current List.mem_cons_self hcurrent hsigns hlength,
      not_issuedTo_of_respelled hrespelled⟩

end Samples

end Manus.RunToken
