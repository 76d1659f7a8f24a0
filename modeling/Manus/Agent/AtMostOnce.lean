import Manus.Agent.Core
import Manus.Lib.Except

/-! # An agent executes a request once

What an agent accepts has been sealed for it, and it has not expired. The id of an
accepted request is remembered until no message that was sealed with the same time of
expiry would be accepted any more.
-/

namespace Manus.Agent

variable {F : Type} {floats : Floats F}

section Opening

theorem messageKey_inj {secret secret' agentId agentId' : String} {d d' : Direction}
    (h : messageKey secret d agentId = messageKey secret' d' agentId') :
    secret = secret' ∧ d = d' ∧ agentId = agentId' := by
  obtain ⟨hsecret, hinfo⟩ := MessageKey.mk.inj h
  have hchars := congrArg String.toList hinfo
  simp only [String.toList_append, List.append_assoc] at hchars
  have hrest := List.append_cancel_left hchars
  cases d <;> cases d'
  · exact ⟨hsecret, rfl, String.toList_injective (List.append_cancel_left
      (List.append_cancel_left hrest))⟩
  · have hthird : some 'q' = some 's' := congrArg (fun chars => chars[2]?) hrest
    cases hthird
  · have hthird : some 's' = some 'q' := congrArg (fun chars => chars[2]?) hrest
    cases hthird
  · exact ⟨hsecret, rfl, String.toList_injective (List.append_cancel_left
      (List.append_cancel_left hrest))⟩

theorem aad_field {fields fields' : List (String × JsonValue (Number F))}
    (h : aad floats fields = aad floats fields') {name : String} (hname : name ∈ headerFields) :
    ((fields.lookup name).getD .null).Same ((fields'.lookup name).getD .null) := by
  have hsame := JsonValue.same_of_dumps h
  obtain ⟨value, hvalue, hfield⟩ := hsame.exists_mem (List.mem_map_of_mem hname)
  obtain ⟨name', -, hentry⟩ := List.mem_map.mp hvalue
  obtain ⟨rfl, rfl⟩ := Prod.mk.inj hentry
  exact hfield

theorem same_str {text : String} {v : JsonValue (Number F)} (h : (JsonValue.str text).Same v) :
    v = .str text := by
  cases v <;> cases h
  rfl

theorem same_int {n m : ℤ} (h : (JsonValue.num (Number.int n) : JsonValue (Number F)).Same
    (.num (.int m))) : n = m := by
  cases h
  rfl

structure Opens (m : SealedMessage F) (secret agentId : String) (direction : Direction)
    (opened : OpenedMessage F) : Prop where
  secret : m.secret = secret
  agentId : m.agentId = agentId
  direction : m.direction = direction
  commandId : opened.commandId = .str m.commandId
  expiresAt : opened.expiresAt = m.expiresAt
  payload : m.payload = .obj opened.payload

/-- What opens has been sealed, and it has not expired. -/
theorem opens_of_openEnvelope {messages : List (SealedMessage F)}
    {envelope : List (String × JsonValue (Number F))} {secret agentId : String}
    {direction : Direction} {now : ℤ} {opened : OpenedMessage F}
    (h : openEnvelope floats messages envelope secret agentId direction now = .ok opened) :
    now ≤ opened.expiresAt ∧ ∃ m ∈ messages, Opens m secret agentId direction opened := by
  simp only [openEnvelope, ite_error_eq_ok] at h
  obtain ⟨-, -, h⟩ := h
  split at h
  · rename_i iat exp hiat hexp
    simp only [ite_error_eq_ok, bind_eq_ok] at h
    obtain ⟨-, -, hfresh, -, -, nonce, -, ct, -, h⟩ := h
    split at h
    · cases h
    · rename_i payload hplain
      cases h
      obtain ⟨m, hm, hpayload⟩ := Option.map_eq_some_iff.mp hplain
      have hfound := List.find?_some hm
      simp only [Bool.and_eq_true, beq_iff_eq] at hfound
      obtain ⟨⟨⟨hkey, -⟩, -⟩, haad⟩ := hfound
      obtain ⟨hsecret, hdirection, hagent⟩ := messageKey_inj hkey
      have hcommand := aad_field haad (show "command_id" ∈ headerFields by decide)
      have hexpires := aad_field haad (show "exp" ∈ headerFields by decide)
      rw [hexp] at hexpires
      refine ⟨not_lt.mp hfresh, m, List.mem_of_find?_eq_some hm, hsecret, hagent, hdirection,
        same_str hcommand, (same_int hexpires).symm, hpayload⟩
    · cases h
  · cases h

end Opening

section Accepting

variable {config : AgentConfig}

/-- The ticket is what a message says that was sealed for the agent, and the agent opened it before
it expired. -/
structure Genuine (config : AgentConfig) (t : Ticket F) (m : SealedMessage F) : Prop where
  secret : m.secret = config.secret
  agentId : m.agentId = config.agentId
  direction : m.direction = .request
  commandId : m.commandId = t.commandId
  expiresAt : m.expiresAt = t.expiresAt
  unexpired : t.acceptedAt ≤ t.expiresAt
  payload : ∃ payload, m.payload = .obj payload ∧
    payload.lookup "handler" = some (.str t.handler) ∧
    payload.lookup "params" = some (.obj t.params) ∧ payload.lookup "inputs" = some (.obj t.inputs)

structure Accepted (config : AgentConfig) (s : AgentState F) (m : SealedMessage F)
    (r : Request F) : Prop where
  genuine : Genuine config r.toTicket m
  acceptedAt : r.acceptedAt = s.now
  waiting : ∃ ticket kind, r = { toTicket := ticket, kind }

theorem execute_cases {s : AgentState F} {m : SealedMessage F} {opened : OpenedMessage F}
    (hm : Opens m config.secret config.agentId .request opened) (hnow : s.now ≤ opened.expiresAt) :
    execute config s m.commandId opened = s ∨ ∃ r, Accepted config s m r ∧
      execute config s m.commandId opened = { s with requests := s.requests ++ [r] } := by
  unfold execute
  split
  · rename_i name params inputs hname hparams hinputs
    split
    · split
      · exact .inl rfl
      · refine .inr ⟨_, ⟨⟨hm.secret, hm.agentId, hm.direction, rfl, hm.expiresAt.symm, hnow,
          opened.payload, hm.payload, hname, hparams, hinputs⟩, rfl, _, _, rfl⟩, rfl⟩
    · exact .inl rfl
  · exact .inl rfl

variable (floats config) in
/-- What a message does to the agent: nothing, or expired ids are forgotten, or it is accepted. -/
theorem handle_cases (s : AgentState F) (envelope : JsonValue (Number F)) :
    (handle floats config s envelope).1 = s ∨
    (handle floats config s envelope).1 = s.forgetExpired ∨
    ∃ m ∈ s.messages, m.commandId ∉ s.forgetExpired.seen.map Prod.fst ∧ ∃ requests,
      (requests = [] ∨ ∃ r, requests = [r] ∧ Accepted config s m r) ∧
      (handle floats config s envelope).1 = { s.forgetExpired with
        seen := s.forgetExpired.seen ++ [(m.commandId, m.expiresAt)]
        requests := s.requests ++ requests } := by
  unfold handle
  split
  · split
    · exact .inl rfl
    · rename_i opened hopened
      obtain ⟨hnow, m, hm, hopens⟩ := opens_of_openEnvelope hopened
      right
      simp only [hopens.commandId, hopens.expiresAt]
      split
      · exact .inl rfl
      · rename_i hnew
        refine .inr ⟨m, hm, hnew, ?_⟩
        rcases execute_cases (s := { s.forgetExpired with
          seen := s.forgetExpired.seen ++ [(m.commandId, m.expiresAt)] }) hopens hnow with
          hsame | ⟨r, hr, hadded⟩
        · refine ⟨[], .inl rfl, ?_⟩
          rw [hsame, List.append_nil]
          rfl
        · exact ⟨[r], .inr ⟨r, rfl, hr.genuine, hr.acceptedAt, hr.waiting⟩, hadded⟩
  · exact .inl rfl

end Accepting

section Runs

variable {config : AgentConfig}

theorem turn_ticket {r r' : Request F} {now : ℤ} {free free' : ℕ} {what : Turn}
    (h : r.turn now free what = some (r', free')) : r'.toTicket = r.toTicket := by
  cases what <;> simp only [Request.turn] at h <;> (try split at h) <;> cases h <;>
    first | rfl | (unfold Request.begin; split <;> rfl)

/-- The handler has begun at most once, and not while the request has no slot. -/
def Request.Once (r : Request F) : Prop :=
  r.starts.length ≤ 1 ∧ (r.task = .waiting ∨ r.task = .granted → r.starts = [])

theorem Request.Once.turn {r r' : Request F} {now : ℤ} {free free' : ℕ} {what : Turn}
    (hr : r.Once) (h : r.turn now free what = some (r', free')) : r'.Once := by
  obtain ⟨hlength, hnone⟩ := hr
  cases what with
  | start =>
    simp only [Request.turn] at h
    split at h
    · rename_i hgranted
      cases h
      unfold Request.begin
      split <;> simp [Request.Once, hnone (.inr hgranted)]
    · cases h
  | acquire =>
    simp only [Request.turn] at h
    split at h
    · rename_i hwaiting
      cases h
      exact ⟨hlength, fun _ => hnone (.inl hwaiting.1)⟩
    · cases h
  | threadReturns awaitable =>
    simp only [Request.turn] at h
    split at h
    · cases h
      exact ⟨hlength, hnone⟩
    · cases h
  | threadFinished =>
    simp only [Request.turn] at h
    split at h
    · cases h
      exact ⟨hlength, hnone⟩
    · cases h
  | resume =>
    simp only [Request.turn] at h
    split at h
    · rename_i awaitable _ _
      cases h
      cases awaitable <;> exact ⟨hlength, nofun⟩
    · rename_i awaitable _ _
      cases h
      cases awaitable <;> exact ⟨hlength, nofun⟩
    · cases h
  | _ =>
    simp only [Request.turn] at h
    split at h
    · cases h
      exact ⟨hlength, nofun⟩
    · cases h

structure Invariant (config : AgentConfig) (s : AgentState F) : Prop where
  genuine : ∀ t ∈ s.requests.map Request.toTicket, ∃ m ∈ s.messages, Genuine config t m
  remembered : ∀ t ∈ s.requests.map Request.toTicket,
    (t.commandId, t.expiresAt) ∈ s.seen ∨ t.expiresAt < s.now
  ordered : (s.requests.map Request.toTicket).Pairwise fun t t' =>
    t.commandId = t'.commandId → t.expiresAt < t'.acceptedAt
  once : ∀ r ∈ s.requests, r.Once

namespace Invariant

variable {s s' : AgentState F}

theorem wait (h : Invariant config s) (ms : ℕ) :
    Invariant config { s with clock := s.clock + ms } := by
  refine ⟨h.genuine, ?_, h.ordered, h.once⟩
  intro t ht
  rcases h.remembered t ht with hseen | hgone
  · exact .inl hseen
  · right
    have hlater : s.now ≤ ({ s with clock := s.clock + ms } : AgentState F).now := by
      simp only [AgentState.now]
      omega
    exact lt_of_lt_of_le hgone hlater

theorem addMessages (h : Invariant config s) (messages : List (SealedMessage F)) :
    Invariant config { s with messages := s.messages ++ messages } := by
  refine ⟨?_, h.remembered, h.ordered, h.once⟩
  intro t ht
  obtain ⟨m, hm, hgenuine⟩ := h.genuine t ht
  exact ⟨m, List.mem_append_left _ hm, hgenuine⟩

theorem forgetExpired (h : Invariant config s) : Invariant config s.forgetExpired := by
  refine ⟨h.genuine, ?_, h.ordered, h.once⟩
  intro t ht
  rcases h.remembered t ht with hseen | hgone
  · by_cases hexpired : s.now ≤ t.expiresAt
    · exact .inl (List.mem_filter.mpr ⟨hseen, by simpa using hexpired⟩)
    · exact .inr (not_le.mp hexpired)
  · exact .inr hgone

theorem remember (h : Invariant config s) (entry : String × ℤ) :
    Invariant config { s with seen := s.seen ++ [entry] } := by
  refine ⟨h.genuine, ?_, h.ordered, h.once⟩
  intro t ht
  exact (h.remembered t ht).imp_left fun hseen => List.mem_append_left _ hseen

/-- A message is accepted only when no request with its id is remembered. -/
theorem accept (h : Invariant config s) {m : SealedMessage F} {r : Request F}
    (hm : m ∈ s.messages) (hr : Accepted config s m r) (hnew : m.commandId ∉ s.seen.map Prod.fst) :
    Invariant config { s with
      seen := s.seen ++ [(m.commandId, m.expiresAt)], requests := s.requests ++ [r] } := by
  constructor
  · intro t ht
    rw [List.map_append, List.mem_append] at ht
    rcases ht with ht | ht
    · exact h.genuine t ht
    · rw [List.map_singleton, List.mem_singleton] at ht
      exact ⟨m, hm, ht ▸ hr.genuine⟩
  · intro t ht
    rw [List.map_append, List.mem_append] at ht
    rcases ht with ht | ht
    · exact (h.remembered t ht).imp_left fun hseen => List.mem_append_left _ hseen
    · rw [List.map_singleton, List.mem_singleton] at ht
      left
      rw [ht, ← hr.genuine.commandId, ← hr.genuine.expiresAt]
      exact List.mem_append_right _ (List.mem_singleton_self _)
  · rw [List.map_append, List.pairwise_append]
    refine ⟨h.ordered, List.pairwise_singleton _ _, ?_⟩
    intro t ht t' ht' hsame
    rw [List.map_singleton, List.mem_singleton] at ht'
    subst ht'
    rw [hr.acceptedAt]
    rcases h.remembered t ht with hseen | hgone
    · rw [hsame, ← hr.genuine.commandId] at hseen
      exact absurd (List.mem_map_of_mem hseen) hnew
    · exact hgone
  · intro r' hr'
    rcases List.mem_append.mp hr' with hr' | hr'
    · exact h.once r' hr'
    · obtain ⟨ticket, kind, rfl⟩ := hr.waiting
      rw [List.mem_singleton.mp hr']
      exact ⟨Nat.zero_le 1, fun _ => rfl⟩

theorem turn (h : Invariant config s) {i : ℕ} {r r' : Request F} {free : ℕ} {what : Turn}
    (hr : s.requests[i]? = some r) (hturn : r.turn s.now s.free what = some (r', free)) :
    Invariant config { s with requests := s.requests.set i r', free } := by
  have hsame : (s.requests.set i r').map Request.toTicket = s.requests.map Request.toTicket :=
    map_set_of_eq hr (turn_ticket hturn)
  refine ⟨hsame ▸ h.genuine, hsame ▸ h.remembered, hsame ▸ h.ordered, ?_⟩
  intro q hq
  rcases List.mem_or_eq_of_mem_set hq with hq | rfl
  · exact h.once q hq
  · exact (h.once r (List.mem_of_getElem? hr)).turn hturn

theorem step (h : Invariant config s) {move : Move F}
    (hstep : Agent.step floats config s move = some s') : Invariant config s' := by
  rcases step_cases hstep with ⟨ms, rfl⟩ | ⟨messages, rfl⟩ | ⟨envelope, rfl⟩ |
    ⟨i, what, r, r', free, -, hr, hturn, rfl⟩
  · exact h.wait ms
  · exact h.addMessages messages
  · rcases handle_cases floats config s envelope with
      hsame | hforgot | ⟨m, hm, hnew, requests, hrequests, hs'⟩
    · rw [hsame]
      exact h
    · rw [hforgot]
      exact h.forgetExpired
    · rw [hs']
      rcases hrequests with rfl | ⟨r, rfl, hr⟩
      · rw [List.append_nil]
        exact h.forgetExpired.remember _
      · exact h.forgetExpired.accept hm ⟨hr.genuine, hr.acceptedAt, hr.waiting⟩ hnew
  · exact h.turn hr hturn

theorem initial : Invariant (F := F) config config.initial := by
  constructor
  · intro t ht
    cases ht
  · intro t ht
    cases ht
  · exact List.Pairwise.nil
  · intro r hr
    cases hr

/-- Requests that share an id and a time of expiry are one request. -/
theorem executions_le_one (h : Invariant config s) {commandId : String}
    (hone : ∀ m ∈ s.messages, ∀ m' ∈ s.messages, m.commandId = commandId →
      m'.commandId = commandId → m.expiresAt = m'.expiresAt) : s.executions commandId ≤ 1 := by
  have hpairs : (s.requests.filter fun r => r.commandId == commandId).Pairwise fun r r' =>
      r.commandId = r'.commandId → r.expiresAt < r'.acceptedAt :=
    (List.pairwise_map.mp h.ordered).filter _
  have hmember : ∀ r ∈ s.requests.filter fun r => r.commandId == commandId,
      r ∈ s.requests ∧ r.commandId = commandId := by
    intro r hr
    obtain ⟨hr, hid⟩ := List.mem_filter.mp hr
    exact ⟨hr, beq_iff_eq.mp hid⟩
  unfold AgentState.executions
  match hlist : s.requests.filter fun r => r.commandId == commandId with
  | [] => simp [hlist]
  | [r] =>
    have honce := h.once r (hmember r (by simp [hlist])).1
    simpa [hlist] using honce.1
  | r :: r' :: rest =>
    exfalso
    obtain ⟨hr, hid⟩ := hmember r (by simp [hlist])
    obtain ⟨hr', hid'⟩ := hmember r' (by simp [hlist])
    obtain ⟨m, hm, hgenuine⟩ := h.genuine _ (List.mem_map_of_mem hr)
    obtain ⟨m', hm', hgenuine'⟩ := h.genuine _ (List.mem_map_of_mem hr')
    have hexpiry := hone m hm m' hm' (hgenuine.commandId.trans hid)
      (hgenuine'.commandId.trans hid')
    rw [hgenuine.expiresAt, hgenuine'.expiresAt] at hexpiry
    rw [hlist] at hpairs
    have hlater := (List.pairwise_cons.mp hpairs).1 r' (by simp) (hid.trans hid'.symm)
    have hunexpired := hgenuine'.unexpired
    omega

end Invariant

/-- In every run, a command id is executed at most once when all messages with it expire at one
time; of two requests with one id, the second was accepted only when the first had expired. What is
executed has been sealed for the agent with its secret, and it had not expired when it was
accepted. -/
theorem executed_atMostOnce {moves : List (Move F)} {s : AgentState F}
    (hrun : runSteps (step floats config) config.initial moves = some s) :
    (∀ commandId, (∀ m ∈ s.messages, ∀ m' ∈ s.messages, m.commandId = commandId →
        m'.commandId = commandId → m.expiresAt = m'.expiresAt) →
      s.executions commandId ≤ 1) ∧
    (∀ r ∈ s.requests, r.starts.length ≤ 1) ∧
    s.requests.Pairwise (fun r r' => r.commandId = r'.commandId → r.expiresAt < r'.acceptedAt) ∧
    ∀ r ∈ s.requests, ∃ m ∈ s.messages, Genuine config r.toTicket m := by
  have hinv := runSteps_invariant (fun _ _ _ hstep h => Invariant.step h hstep) hrun .initial
  refine ⟨fun commandId hone => hinv.executions_le_one hone, fun r hr => (hinv.once r hr).1,
    List.pairwise_map.mp hinv.ordered, ?_⟩
  intro r hr
  exact hinv.genuine _ (List.mem_map_of_mem hr)

end Runs

section Genuine

variable (floats) in
/-- A message opens for its agent while it is valid. -/
theorem openEnvelope_envelope {messages : List (SealedMessage F)} {m : SealedMessage F}
    {payload : List (String × JsonValue (Number F))} {now : ℤ} (hm : m ∈ messages)
    (hunique : ∀ m' ∈ messages, m'.ct = m.ct → m' = m)
    (hpayload : m.payload = .obj payload)
    (hsecret : minAgentSecretLength ≤ m.secret.length) (hexp : now ≤ m.expiresAt)
    (hiat : m.issuedAt ≤ now + maxClockSkewSeconds) :
    openEnvelope floats messages m.envelope m.secret m.agentId m.direction now =
      .ok ⟨.str m.commandId, m.issuedAt, m.expiresAt, payload⟩ := by
  have hfind : messages.find? (fun m' => m'.key == m.key && m'.nonce == m.nonce && m'.ct == m.ct &&
      aad floats m'.header == aad floats m.envelope) = some m := by
    have haad : aad floats m.header = aad floats m.envelope := rfl
    cases hfound : messages.find? (fun m' => m'.key == m.key && m'.nonce == m.nonce &&
        m'.ct == m.ct && aad floats m'.header == aad floats m.envelope) with
    | none =>
      have hno := List.find?_eq_none.mp hfound m hm
      simp [haad] at hno
    | some m' =>
      have hsome := List.find?_some hfound
      simp only [Bool.and_eq_true, beq_iff_eq] at hsome
      rw [hunique m' (List.mem_of_find?_eq_some hfound) hsome.1.2]
  have hdecrypt : decrypt floats messages (messageKey m.secret m.direction m.agentId) m.nonce m.ct
      (aad floats m.envelope) = some (.obj payload) := by
    rw [decrypt, ← hpayload]
    exact congrArg _ hfind
  have hpresent : ((headerFields ++ ["nonce", "ct"]).any fun name =>
      (m.envelope.lookup name).isNone) = false := rfl
  have hversion : m.envelope.lookup "v" = some (.num (.int 1)) := rfl
  have hissued : m.envelope.lookup "iat" = some (.num (.int m.issuedAt)) := rfl
  have hexpires : m.envelope.lookup "exp" = some (.num (.int m.expiresAt)) := rfl
  have hdirection : isText m.direction.text (m.envelope.lookup "direction") = true :=
    beq_self_eq_true _
  have hagent : isText m.agentId (m.envelope.lookup "agent_id") = true := beq_self_eq_true _
  have hnonceField : b64Field (m.envelope.lookup "nonce") = .ok m.nonce := by
    show b64Field (some (.str (b64Encode m.nonce))) = _
    rw [b64Field, b64Decode_b64Encode]
  have hctField : b64Field (m.envelope.lookup "ct") = .ok m.ct := by
    show b64Field (some (.str (b64Encode m.ct))) = _
    rw [b64Field, b64Decode_b64Encode]
  unfold openEnvelope
  rw [hpresent, hversion, hissued, hexpires, hdirection, hagent, hnonceField, hctField]
  simp only [Option.any_some, JsonValue.eqInt, beq_self_eq_true, Bool.not_true, Bool.false_eq_true,
    if_false, not_lt.mpr hexp, not_lt.mpr hiat, not_lt.mpr hsecret, bind, Except.bind,
    hdecrypt]
  rfl

variable {config : AgentConfig}

variable (floats) in
theorem handle_envelope {s : AgentState F} {m : SealedMessage F}
    {payload params inputs : List (String × JsonValue (Number F))} {name : String}
    {kind : HandlerKind} (hm : m ∈ s.messages) (hunique : ∀ m' ∈ s.messages, m'.ct = m.ct → m' = m)
    (haddressed : m.secret = config.secret ∧ m.agentId = config.agentId ∧ m.direction = .request)
    (hsecret : minAgentSecretLength ≤ m.secret.length) (hexp : s.now ≤ m.expiresAt)
    (hiat : m.issuedAt ≤ s.now + maxClockSkewSeconds)
    (hnew : m.commandId ∉ s.forgetExpired.seen.map Prod.fst) (hpayload : m.payload = .obj payload)
    (hname : payload.lookup "handler" = some (.str name) ∧ isHandlerName name = true)
    (hparams : payload.lookup "params" = some (.obj params))
    (hinputs : payload.lookup "inputs" = some (.obj inputs))
    (hkind : config.registry name = some kind) :
    handle floats config s (.obj m.envelope) = ({ s.forgetExpired with
      seen := s.forgetExpired.seen ++ [(m.commandId, m.expiresAt)]
      requests := s.requests ++ [{
        commandId := m.commandId, expiresAt := m.expiresAt, acceptedAt := s.now, handler := name
        params, inputs, kind }] }, none) := by
  have hopened := openEnvelope_envelope floats hm hunique hpayload hsecret
    hexp hiat
  rw [haddressed.1, haddressed.2.1, haddressed.2.2] at hopened
  simp only [handle, hopened, if_neg hnew, execute, hname.1, hname.2, hparams, hinputs, hkind,
    if_true]
  rfl

end Genuine

section Examples

def oneSlot (kind : HandlerKind) : AgentConfig where
  agentId := "geo"
  secret := "a secret of thirty-two characters"
  maxConcurrency := 1
  registry name := if name = "slow" then some kind else none

/-- A request for the handler that is valid for ten seconds; the byte stands for the text that the
encryption makes of it. -/
def slowRequest (commandId : String) (now : ℤ) (byte : UInt8) : SealedMessage Empty where
  secret := "a secret of thirty-two characters"
  agentId := "geo"
  commandId := commandId
  direction := .request
  issuedAt := now
  expiresAt := now + 10
  payload := .obj [("handler", .str "slow"), ("params", .obj []), ("inputs", .obj [])]
  nonce := List.replicate 12 0
  ct := List.replicate 17 byte

def sealRequest (commandId : String) (now : ℤ) (byte : UInt8) : Move Empty :=
  let m := slowRequest commandId now byte
  .sealMessage m.payload m.secret m.agentId commandId .request 10 now m.nonce m.ct

def sendRequest (commandId : String) (now : ℤ) (byte : UInt8) : Move Empty :=
  .handle (.obj (slowRequest commandId now byte).envelope)

def lateAndAgain : List (Move Empty) :=
  [sealRequest "a" 0 1, sealRequest "b" 0 2, sendRequest "a" 0 1, .turn 0 .acquire, .turn 0 .start,
    .wait 10000, sendRequest "b" 0 2, .wait 1000, .turn 0 .coroutineEnds, .turn 1 .acquire,
    .turn 1 .start, .turn 1 .coroutineEnds, sealRequest "a" 11 3, sendRequest "a" 11 3,
    .turn 2 .acquire, .turn 2 .start]

theorem step_sendRequest (kind : HandlerKind) (s : AgentState Empty) (commandId : String)
    (now accepted : ℤ) (byte : UInt8) (seen : List (String × ℤ))
    (hm : slowRequest commandId now byte ∈ s.messages)
    (hunique : (s.messages.map SealedMessage.ct).Nodup)
    (hnow : s.now = accepted) (hexp : accepted ≤ now + 10) (hiat : now ≤ accepted + 60)
    (hseen : s.forgetExpired.seen = seen) (hnew : commandId ∉ seen.map Prod.fst) :
    step noFloats (oneSlot kind) s (sendRequest commandId now byte) = some { s with
      seen := seen ++ [(commandId, now + 10)]
      requests := s.requests ++ [{
        commandId, expiresAt := now + 10, acceptedAt := accepted, handler := "slow"
        params := [], inputs := [], kind }] } := by
  have hlength : minAgentSecretLength ≤ (oneSlot kind).secret.length :=
    show 32 ≤ "a secret of thirty-two characters".length by decide
  have hkind : (oneSlot kind).registry "slow" = some kind := rfl
  subst hnow hseen
  have hhandle := handle_envelope noFloats hm
    (fun m' hm' hsame => List.inj_on_of_nodup_map hunique hm' hm hsame)
    ⟨rfl, rfl, rfl⟩ hlength hexp hiat hnew rfl ⟨rfl, by decide⟩ rfl rfl hkind
  exact congrArg (fun r => some r.1) hhandle

def slowDone (commandId : String) (expiresAt acceptedAt startedAt : ℤ) (ended : Bool) :
    Request Empty where
  commandId := commandId
  expiresAt := expiresAt
  acceptedAt := acceptedAt
  handler := "slow"
  params := []
  inputs := []
  kind := .coroutine
  task := if ended then .over else .inCoroutine
  taken := true
  releases := if ended then 1 else 0
  starts := [startedAt]

def secondWaits : AgentState Empty where
  clock := 10000
  messages := [slowRequest "a" 0 1, slowRequest "b" 0 2]
  seen := [("a", 10)]
  free := 0
  requests := [slowDone "a" 10 0 0 false]

def firstForgotten : AgentState Empty where
  clock := 11000
  messages := [slowRequest "a" 0 1, slowRequest "b" 0 2, slowRequest "a" 11 3]
  seen := [("a", 10), ("b", 10)]
  free := 1
  requests := [slowDone "a" 10 0 0 true, slowDone "b" 10 10 11 true]

theorem run_secondWaits : runSteps (step noFloats (oneSlot .coroutine))
    (oneSlot .coroutine).initial (lateAndAgain.take 6) = some secondWaits := by
  refine (runSteps_cons rfl _).trans ((runSteps_cons rfl _).trans ?_)
  refine (runSteps_cons (step_sendRequest .coroutine _ "a" 0 0 1 []
    List.mem_cons_self ?_ rfl (by decide) (by decide) rfl (by decide)) _).trans ?_
  · decide
  · rfl

theorem run_firstForgotten : runSteps (step noFloats (oneSlot .coroutine)) secondWaits
    ((lateAndAgain.drop 6).take 7) = some firstForgotten := by
  refine (runSteps_cons (step_sendRequest .coroutine _ "b" 0 10 2 [("a", 10)]
    (List.mem_cons_of_mem _ List.mem_cons_self) ?_ rfl (by decide) (by decide) rfl
    (by decide)) _).trans ?_
  · decide
  · rfl

def executedAgain : AgentState Empty where
  clock := 11000
  messages := [slowRequest "a" 0 1, slowRequest "b" 0 2, slowRequest "a" 11 3]
  seen := [("a", 21)]
  free := 0
  requests := [slowDone "a" 10 0 0 true, slowDone "b" 10 10 11 true, slowDone "a" 21 11 11 false]

theorem run_executedAgain : runSteps (step noFloats (oneSlot .coroutine))
    (oneSlot .coroutine).initial lateAndAgain = some executedAgain := by
  have hlast := step_sendRequest .coroutine firstForgotten "a" 11 11 3 []
    (List.mem_cons_of_mem _ (List.mem_cons_of_mem _ List.mem_cons_self)) (by decide) rfl (by decide)
    (by decide) rfl (by decide)
  have hsplit : lateAndAgain = lateAndAgain.take 6 ++
      ((lateAndAgain.drop 6).take 7 ++ (lateAndAgain.drop 6).drop 7) := rfl
  rw [hsplit, runSteps_append, run_secondWaits, Option.bind_some, runSteps_append,
    run_firstForgotten]
  exact (runSteps_cons hlast _).trans rfl

theorem executedAgain_atMostOnce : executedAgain.executions "b" ≤ 1 :=
  (executed_atMostOnce run_executedAgain).1 "b" (by decide)

/-- One id is executed twice, and a handler begins after its request has expired. -/
theorem lateAndAgain_executed : ∃ s, runSteps (step noFloats (oneSlot .coroutine))
    (oneSlot .coroutine).initial lateAndAgain = some s ∧ s.executions "a" = 2 ∧
    ∃ r ∈ s.requests, r.commandId = "b" ∧ ∃ t ∈ r.starts, r.expiresAt < t := by
  refine ⟨_, run_executedAgain, by decide, _, List.mem_cons_of_mem _ List.mem_cons_self, rfl, 11,
    List.mem_singleton_self _, by decide⟩

end Examples

end Manus.Agent
