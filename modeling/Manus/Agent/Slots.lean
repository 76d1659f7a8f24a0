import Manus.Agent.AtMostOnce

/-! # The slots of an agent

A slot of the gate is taken for one request. Where the task and the thread of a request
are says whether it has its slot, and whether it has given it back. Two things break
this: a plain function may return an awaitable, which the task awaits after the thread
has given the slot back, and the executor may refuse the function, after which nothing
gives the slot back.
-/

namespace Manus.Agent

variable {F : Type}

def Request.isOver (r : Request F) : Bool :=
  r.task == .over && (match r.thread with
    | .idle | .finished _ => true
    | .running | .returned _ => false)

/-- Slots are conserved: the bodies in progress are at most as many as the slots, and each slot that
was taken is given back once, when the handler it was taken for is no longer in progress. -/
structure SlotsConserved (config : AgentConfig) (s : AgentState F) : Prop where
  bounded : s.requests.countP Request.inProgress ≤ config.maxConcurrency
  accounted : s.free + s.requests.countP Request.holds = config.maxConcurrency
  atMostOnce : ∀ r ∈ s.requests, r.releases ≤ 1
  notBefore : ∀ r ∈ s.requests, 0 < r.releases →
    r.taken = true ∧ r.inProgress = false ∧ r.task ≠ .waiting ∧ r.task ≠ .granted
  givenBack : ∀ r ∈ s.requests, r.isOver = true → r.taken = true → r.releases = 1

/-- A turn is not one of the two that go wrong: the executor accepts the function, and the task does
not await what a plain function returned when the slot of its thread is given back or has been. -/
def Request.keepsSlot (r : Request F) : Turn → Bool
  | .refuseThread => false
  | .threadFinished => r.task != .inAwaitable
  | .resume => r.thread != .finished true
  | _ => true

def keepsSlots (s : AgentState F) : Move F → Bool
  | .turn i what => s.requests[i]?.all fun r => r.keepsSlot what
  | _ => true

section Places

/-- The places of a task and a thread, with whether a slot was taken and how often one was given
back. -/
inductive SlotAt : TaskStage → ThreadStage → Bool → ℕ → Prop where
  | waiting : SlotAt .waiting .idle false 0
  | left : SlotAt .over .idle false 0
  | granted : SlotAt .granted .idle true 0
  | inCoroutine : SlotAt .inCoroutine .idle true 0
  | ended : SlotAt .over .idle true 1
  | running : SlotAt .onThread .running true 0
  | abandoned : SlotAt .over .running true 0
  | returned (awaitable : Bool) : SlotAt .onThread (.returned awaitable) true 0
  | awaiting (awaitable : Bool) : SlotAt .inAwaitable (.returned awaitable) true 0
  | unseen (awaitable : Bool) : SlotAt .over (.returned awaitable) true 0
  | finished (awaitable : Bool) : SlotAt .onThread (.finished awaitable) true 1
  | done (awaitable : Bool) : SlotAt .over (.finished awaitable) true 1

def Request.slots (r : Request F) : ℕ := if r.holds then 1 else 0

def Request.Accounted (r : Request F) : Prop := SlotAt r.task r.thread r.taken r.releases

namespace Request.Accounted

variable {r r' : Request F}

theorem releases_le_one (h : r.Accounted) : r.releases ≤ 1 := by
  obtain ⟨ticket, kind, task, thread, taken, releases, starts⟩ := r
  cases h <;> first | exact Nat.zero_le 1 | exact le_refl 1

theorem holds_of_inProgress (h : r.Accounted) (hr : r.inProgress = true) : r.holds = true := by
  obtain ⟨ticket, kind, task, thread, taken, releases, starts⟩ := r
  cases h <;> first | rfl | cases hr

theorem notBefore (h : r.Accounted) (hr : 0 < r.releases) :
    r.taken = true ∧ r.inProgress = false ∧ r.task ≠ .waiting ∧ r.task ≠ .granted := by
  obtain ⟨ticket, kind, task, thread, taken, releases, starts⟩ := r
  cases h with
  | ended | finished | done => exact ⟨rfl, rfl, nofun, nofun⟩
  | _ => cases hr

theorem givenBack (h : r.Accounted) (hover : r.isOver = true) (htaken : r.taken = true) :
    r.releases = 1 := by
  obtain ⟨ticket, kind, task, thread, taken, releases, starts⟩ := r
  cases h with
  | ended | done => rfl
  | waiting | left => cases htaken
  | _ => cases hover

/-- A turn takes a slot for the request or gives its slot back, or leaves both as they are. -/
theorem turn {now : ℤ} {free free' : ℕ} {what : Turn} (h : r.Accounted)
    (hkeeps : r.keepsSlot what = true) (hturn : r.turn now free what = some (r', free')) :
    r'.Accounted ∧ free' + r'.slots = free + r.slots := by
  obtain ⟨ticket, kind, task, thread, taken, releases, starts⟩ := r
  cases what with
  | acquire =>
    obtain ⟨⟨hwaiting, hfree⟩, hturn⟩ := Option.ite_none_right_eq_some.mp hturn
    cases h <;> cases hwaiting
    cases hturn
    exact ⟨.granted, Nat.sub_add_cancel hfree⟩
  | leaveQueue =>
    obtain ⟨hwaiting, hturn⟩ := Option.ite_none_right_eq_some.mp hturn
    cases h <;> cases hwaiting
    cases hturn
    exact ⟨.left, rfl⟩
  | giveBack =>
    obtain ⟨hgranted, hturn⟩ := Option.ite_none_right_eq_some.mp hturn
    cases h <;> cases hgranted
    cases hturn
    exact ⟨.ended, rfl⟩
  | start =>
    obtain ⟨hgranted, hturn⟩ := Option.ite_none_right_eq_some.mp hturn
    cases h <;> cases hgranted
    cases hturn
    cases kind with
    | coroutine => exact ⟨.inCoroutine, rfl⟩
    | plain => exact ⟨.running, rfl⟩
  | refuseThread => cases hkeeps
  | coroutineEnds =>
    obtain ⟨hcoroutine, hturn⟩ := Option.ite_none_right_eq_some.mp hturn
    cases h <;> cases hcoroutine
    cases hturn
    exact ⟨.ended, rfl⟩
  | abandon =>
    obtain ⟨honThread, hturn⟩ := Option.ite_none_right_eq_some.mp hturn
    cases hturn
    cases h with
    | running => exact ⟨.abandoned, rfl⟩
    | returned awaitable => exact ⟨.unseen awaitable, rfl⟩
    | finished awaitable => exact ⟨.done awaitable, rfl⟩
    | _ => cases honThread
  | threadReturns awaitable =>
    obtain ⟨hrunning, hturn⟩ := Option.ite_none_right_eq_some.mp hturn
    cases hturn
    cases h with
    | running => exact ⟨.returned awaitable, rfl⟩
    | abandoned => exact ⟨.unseen awaitable, rfl⟩
    | _ => cases hrunning
  | threadFinished =>
    cases h with
    | returned awaitable =>
      cases hturn
      exact ⟨.finished awaitable, rfl⟩
    | unseen awaitable =>
      cases hturn
      exact ⟨.done awaitable, rfl⟩
    | awaiting => cases hkeeps
    | _ => cases hturn
  | resume =>
    cases h with
    | returned awaitable =>
      cases hturn
      cases awaitable with
      | false => exact ⟨.unseen false, rfl⟩
      | true => exact ⟨.awaiting true, rfl⟩
    | finished awaitable =>
      cases hturn
      cases awaitable with
      | false => exact ⟨.done false, rfl⟩
      | true => cases hkeeps
    | _ => cases hturn
  | awaitableEnds =>
    obtain ⟨hawaiting, hturn⟩ := Option.ite_none_right_eq_some.mp hturn
    cases hturn
    cases h with
    | awaiting awaitable => exact ⟨.unseen awaitable, rfl⟩
    | _ => cases hawaiting

end Request.Accounted

end Places

section Runs

variable {floats : Floats F} {config : AgentConfig} {s s' : AgentState F}

structure Balanced (config : AgentConfig) (s : AgentState F) : Prop where
  total : s.free + s.requests.countP Request.holds = config.maxConcurrency
  accounted : ∀ r ∈ s.requests, r.Accounted

namespace Balanced

theorem conserved (h : Balanced config s) : SlotsConserved config s := by
  have htotal := h.total
  have hbounded : s.requests.countP Request.inProgress ≤ s.requests.countP Request.holds :=
    List.countP_mono_left fun r hr => (h.accounted r hr).holds_of_inProgress
  refine ⟨by omega, htotal, ?_, ?_, ?_⟩
  · intro r hr
    exact (h.accounted r hr).releases_le_one
  · intro r hr
    exact (h.accounted r hr).notBefore
  · intro r hr
    exact (h.accounted r hr).givenBack

theorem accept (h : Balanced config s) {requests : List (Request F)} {seen : List (String × ℤ)}
    (hrequests : requests = [] ∨ ∃ m r, requests = [r] ∧ Accepted config s m r) :
    Balanced config { s with seen, requests := s.requests ++ requests } := by
  rcases hrequests with rfl | ⟨m, r, rfl, hr⟩
  · rw [List.append_nil]
    exact ⟨h.total, h.accounted⟩
  · obtain ⟨ticket, kind, rfl⟩ := hr.waiting
    constructor
    · rw [List.countP_append]
      exact h.total
    · intro q hq
      rcases List.mem_append.mp hq with hq | hq
      · exact h.accounted q hq
      · rw [List.mem_singleton.mp hq]
        exact .waiting

theorem turn (h : Balanced config s) {i : ℕ} {r r' : Request F} {free : ℕ} {what : Turn}
    (hr : s.requests[i]? = some r) (hkeeps : r.keepsSlot what = true)
    (hturn : r.turn s.now s.free what = some (r', free)) :
    Balanced config { s with requests := s.requests.set i r', free } := by
  have hmem := List.mem_of_getElem? hr
  obtain ⟨haccounted, hslots⟩ := (h.accounted r hmem).turn hkeeps hturn
  constructor
  · obtain ⟨hi, hget⟩ := List.getElem?_eq_some_iff.mp hr
    have hcounted : r.slots ≤ s.requests.countP Request.holds := by
      unfold Request.slots
      split
      · exact List.countP_pos_iff.mpr ⟨r, hmem, ‹_›⟩
      · exact Nat.zero_le _
    have htotal := h.total
    show free + (s.requests.set i r').countP Request.holds = config.maxConcurrency
    rw [List.countP_set hi, hget]
    unfold Request.slots at hslots hcounted
    omega
  · intro q hq
    rcases List.mem_or_eq_of_mem_set hq with hq | rfl
    · exact h.accounted q hq
    · exact haccounted

theorem step (h : Balanced config s) {move : Move F} (htest : keepsSlots s move = true)
    (hstep : Agent.step floats config s move = some s') : Balanced config s' := by
  rcases step_cases hstep with ⟨ms, rfl⟩ | ⟨messages, rfl⟩ | ⟨envelope, rfl⟩ |
    ⟨i, what, r, r', free, rfl, hr, hturn, rfl⟩
  · exact ⟨h.total, h.accounted⟩
  · exact ⟨h.total, h.accounted⟩
  · rcases handle_cases floats config s envelope with
      hsame | hforgot | ⟨m, -, -, requests, hrequests, hs'⟩
    · rw [hsame]
      exact h
    · rw [hforgot]
      exact ⟨h.total, h.accounted⟩
    · rw [hs']
      exact h.accept (hrequests.imp_right fun ⟨r, hr⟩ => ⟨m, r, hr⟩)
  · simp only [keepsSlots, hr, Option.all_some] at htest
    exact h.turn hr htest hturn

theorem initial : Balanced (F := F) config config.initial :=
  ⟨rfl, nofun⟩

end Balanced

/-- Slots are conserved in every run in which no turn is one of the two that go wrong. -/
theorem slots_conserved {moves : List (Move F)}
    (hrun : runSteps (step floats config) config.initial moves = some s)
    (hkeeps : along (step floats config) keepsSlots config.initial moves = true) :
    SlotsConserved config s :=
  (runSteps_induction (fun _ _ _ htest hstep h => Balanced.step h htest hstep) hrun hkeeps
    .initial).conserved

end Runs

section Examples

theorem send_first (kind : HandlerKind) : step noFloats (oneSlot kind)
    { free := 1, messages := [slowRequest "a" 0 1, slowRequest "b" 0 2] } (sendRequest "a" 0 1) =
      some {
        free := 1, messages := [slowRequest "a" 0 1, slowRequest "b" 0 2], seen := [("a", 10)]
        requests := [{
          commandId := "a", expiresAt := 10, acceptedAt := 0, handler := "slow", params := []
          inputs := [], kind }] } :=
  step_sendRequest kind _ "a" 0 0 1 [] List.mem_cons_self (by decide) rfl
    (by decide) (by decide) rfl (by decide)

def slowThread : List (Move Empty) :=
  [sealRequest "a" 0 1, sealRequest "b" 0 2, sendRequest "a" 0 1, .turn 0 .acquire, .turn 0 .start,
    .turn 0 .abandon, .turn 0 (.threadReturns true), .turn 0 .threadFinished]

theorem slowThread_conserved : ∃ s, runSteps (step noFloats (oneSlot .plain))
    (oneSlot .plain).initial slowThread = some s ∧ SlotsConserved (oneSlot .plain) s := by
  obtain ⟨s, hrun⟩ : ∃ s, runSteps (step noFloats (oneSlot .plain)) (oneSlot .plain).initial
      slowThread = some s :=
    ⟨_, (runSteps_cons rfl _).trans ((runSteps_cons rfl _).trans
      ((runSteps_cons (send_first .plain) _).trans rfl))⟩
  have hkeeps : along (step noFloats (oneSlot .plain)) keepsSlots (oneSlot .plain).initial
      slowThread = true :=
    (along_cons rfl rfl _).trans ((along_cons rfl rfl _).trans
      ((along_cons (send_first .plain) rfl _).trans rfl))
  exact ⟨s, hrun, slots_conserved hrun hkeeps⟩

/-- A plain function returns an awaitable, and the task awaits it; then the second request gets the
only slot. -/
def slowAwaitable : List (Move Empty) :=
  [sealRequest "a" 0 1, sealRequest "b" 0 2, sendRequest "a" 0 1, .turn 0 .acquire, .turn 0 .start,
    .turn 0 (.threadReturns true), .turn 0 .threadFinished, .turn 0 .resume, sendRequest "b" 0 2,
    .turn 1 .acquire, .turn 1 .start]

def awaitsFirst : AgentState Empty where
  messages := [slowRequest "a" 0 1, slowRequest "b" 0 2]
  seen := [("a", 10)]
  free := 1
  requests := [{
    commandId := "a", expiresAt := 10, acceptedAt := 0, handler := "slow", params := []
    inputs := [], kind := .plain, task := .inAwaitable, thread := .finished true, taken := true
    releases := 1, starts := [0] }]

/-- Two handler bodies are in progress at once in one slot. -/
theorem slowAwaitable_twoBodies : ∃ s, runSteps (step noFloats (oneSlot .plain))
    (oneSlot .plain).initial slowAwaitable = some s ∧ (oneSlot .plain).maxConcurrency = 1 ∧
    s.requests.countP Request.inProgress = 2 ∧
    ∃ r ∈ s.requests, r.releases = 1 ∧ r.inProgress = true := by
  have hsecond := step_sendRequest .plain awaitsFirst "b" 0 0 2 [("a", 10)]
    (List.mem_cons_of_mem _ List.mem_cons_self) (by decide) rfl (by decide) (by decide) rfl
    (by decide)
  have hrun : runSteps (step noFloats (oneSlot .plain)) (oneSlot .plain).initial slowAwaitable =
      runSteps (step noFloats (oneSlot .plain)) awaitsFirst (slowAwaitable.drop 8) :=
    (runSteps_cons rfl _).trans ((runSteps_cons rfl _).trans
      ((runSteps_cons (send_first .plain) _).trans rfl))
  exact ⟨_, hrun.trans ((runSteps_cons hsecond _).trans rfl), rfl, rfl, _, List.mem_cons_self, rfl,
    rfl⟩

end Examples

end Manus.Agent
