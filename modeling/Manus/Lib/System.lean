import Manus.Lib.Prog
import Mathlib.Logic.Relation

/-! # Systems of concurrent tasks

Tasks are launched at any time, take their actions in any order, and may be
aborted between two actions, in which case one of their handlers runs instead. A
task that crashes is one that is never scheduled again.
-/

namespace Manus

universe u

/-- A program and what may run in its place when it is aborted. -/
structure Task (ω σ : Type) where
  prog : Prog ω σ Unit
  handlers : List (Prog ω σ Unit) := []

/-- What can be launched, and what launching does to the shared state. -/
structure System (ι ω σ : Type) where
  start : ι → σ → Option (Task ω σ × σ)

inductive Event (ι ω : Type) where
  | launch (thread : ℕ) (what : ι)
  | step (tick : Tick ω)
  | abort (thread handler : ℕ)

/-- The tasks launched so far, by thread, and the shared state. -/
structure Config (ω σ : Type) where
  threads : ℕ → Option (Task ω σ)
  state : σ

namespace Config

variable {ι ω σ : Type}

/-- Nothing is running. -/
def idle (s : σ) : Config ω σ := ⟨fun _ => none, s⟩

def put (c : Config ω σ) (thread : ℕ) (task : Task ω σ) (s : σ) : Config ω σ :=
  ⟨Function.update c.threads thread (some task), s⟩

@[simp] theorem put_state (c : Config ω σ) (i : ℕ) (task : Task ω σ) (s : σ) :
    (c.put i task s).state = s := rfl

@[simp] theorem put_self (c : Config ω σ) (i : ℕ) (task : Task ω σ) (s : σ) :
    (c.put i task s).threads i = some task := by
  simp only [put, Function.update_self]

theorem put_of_ne (c : Config ω σ) {i j : ℕ} (h : j ≠ i) (task : Task ω σ) (s : σ) :
    (c.put i task s).threads j = c.threads j := by
  simp only [put, Function.update_of_ne h]

end Config

namespace System

variable {ι ω σ : Type} (sys : System ι ω σ)

/-- The configuration after an event; `none` when the event cannot happen. -/
def next (c : Config ω σ) : Event ι ω → Option (Config ω σ)
  | .launch i what =>
    if (c.threads i).isSome then none
    else (sys.start what c.state).map fun r => c.put i r.1 r.2
  | .step t =>
    match c.threads t.thread with
    | some ⟨.act f k, handlers⟩ =>
      (f t c.state).map fun r => c.put t.thread ⟨k r.1, handlers⟩ r.2
    | _ => none
  | .abort i n =>
    match c.threads i with
    | some ⟨.act _ _, handlers⟩ => handlers[n]?.map fun h => c.put i ⟨h, []⟩ c.state
    | _ => none

/-- The configuration after a sequence of events. -/
def exec : Config ω σ → List (Event ι ω) → Option (Config ω σ)
  | c, [] => some c
  | c, e :: es => (sys.next c e).bind fun c' => exec c' es

variable {sys}

/-- The three ways in which a configuration can move. -/
theorem next_cases {c c' : Config ω σ} {e : Event ι ω} (h : sys.next c e = some c') :
    (∃ i what task s', e = .launch i what ∧ c.threads i = none ∧
      sys.start what c.state = some (task, s') ∧ c' = c.put i task s') ∨
    (∃ t β, ∃ (f : Action ω σ β) (k : β → Prog ω σ Unit), ∃ handlers x s', e = .step t ∧
      c.threads t.thread = some ⟨.act f k, handlers⟩ ∧ f t c.state = some (x, s') ∧
      c' = c.put t.thread ⟨k x, handlers⟩ s') ∨
    (∃ i n task p, e = .abort i n ∧ c.threads i = some task ∧ p ∈ task.handlers ∧
      c' = c.put i ⟨p, []⟩ c.state) := by
  cases e with
  | launch i what =>
    simp only [next] at h
    split at h
    · cases h
    · rename_i hfree
      obtain ⟨⟨task, s'⟩, hs, rfl⟩ := Option.map_eq_some_iff.mp h
      exact .inl ⟨i, what, task, s', rfl, by simpa using hfree, hs, rfl⟩
  | step t =>
    simp only [next] at h
    split at h
    · rename_i f k handlers hth
      obtain ⟨⟨x, s'⟩, hf, rfl⟩ := Option.map_eq_some_iff.mp h
      exact .inr (.inl ⟨t, _, f, k, handlers, x, s', rfl, hth, hf, rfl⟩)
    · cases h
  | abort i n =>
    simp only [next] at h
    split at h
    · rename_i hth
      obtain ⟨p, hp, rfl⟩ := Option.map_eq_some_iff.mp h
      exact .inr (.inr ⟨i, n, _, p, rfl, hth, List.mem_of_getElem? hp, rfl⟩)
    · cases h

end System

section Soundness

variable {ι ω σ : Type} {γ : Type u} {sys : System ι ω σ} {I : σ → Prop} {T : Prog.Move σ γ}

/-- The ghost states that moves lead to. -/
def Leads (T : Prog.Move σ γ) : γ → γ → Prop :=
  Relation.ReflTransGen fun g g' => ∃ i s s', T i g s g' s'

/-- A task whose program keeps to its moves from `g` on, and whose handlers do from wherever the
program may be then. -/
structure Task.Ok (I : σ → Prop) (T : Prog.Move σ γ) (task : Task ω σ) (g : γ) : Prop where
  prog : task.prog.Spec I T g fun _ _ => True
  handlers : ∀ p ∈ task.handlers, ∀ g', Leads T g g' → p.Spec I T g' fun _ _ => True

/-- Every running task is accounted for by a ghost state, all of them together by `J`. -/
structure Config.Ok (I : σ → Prop) (T : Prog.Move σ γ) (J : (ℕ → γ) → σ → Prop)
    (c : Config ω σ) (gs : ℕ → γ) : Prop where
  tasks : ∀ i task, c.threads i = some task → task.Ok I T (gs i)
  state : J gs c.state

/-- What must be shown of a system: moves and launches keep the invariant `J`, the ones that
satisfy the side condition `Allowed`. -/
structure System.Sound (sys : System ι ω σ) (I : σ → Prop) (T : Prog.Move σ γ)
    (J : (ℕ → γ) → σ → Prop) (Allowed : Event ι ω → σ → σ → Prop) : Prop where
  inv : ∀ gs s, J gs s → I s
  move : ∀ gs s t g' s', J gs s → Allowed (.step t) s s' → T t.thread (gs t.thread) s g' s' →
    J (Function.update gs t.thread g') s'
  launch : ∀ gs s i what task s', J gs s → Allowed (.launch i what) s s' →
    sys.start what s = some (task, s') → ∃ g, task.Ok I T g ∧ J (Function.update gs i g) s'

/-- All events of a run satisfy the side condition. -/
def System.AllowedRun (sys : System ι ω σ) (Allowed : Event ι ω → σ → σ → Prop) :
    Config ω σ → List (Event ι ω) → Prop
  | _, [] => True
  | c, e :: es => ∀ c', sys.next c e = some c' →
      Allowed e c.state c'.state ∧ sys.AllowedRun Allowed c' es

theorem System.AllowedRun.and {Allowed Allowed' : Event ι ω → σ → σ → Prop} {c : Config ω σ}
    {es : List (Event ι ω)} (h : sys.AllowedRun Allowed c es) (h' : sys.AllowedRun Allowed' c es) :
    sys.AllowedRun (fun e s s' => Allowed e s s' ∧ Allowed' e s s') c es := by
  induction es generalizing c with
  | nil => trivial
  | cons e es ih =>
    intro c' hc'
    exact ⟨⟨(h c' hc').1, (h' c' hc').1⟩, ih (h c' hc').2 (h' c' hc').2⟩

theorem System.AllowedRun.imp {Allowed Allowed' : Event ι ω → σ → σ → Prop} {c : Config ω σ}
    {es : List (Event ι ω)} (h : sys.AllowedRun Allowed c es)
    (himp : ∀ e s s', Allowed e s s' → Allowed' e s s') : sys.AllowedRun Allowed' c es := by
  induction es generalizing c with
  | nil => trivial
  | cons e es ih =>
    intro c' hc'
    exact ⟨himp _ _ _ (h c' hc').1, ih (h c' hc').2⟩

theorem System.allowedRun_of_forall {Allowed : Event ι ω → σ → σ → Prop} {c : Config ω σ}
    {es : List (Event ι ω)} (h : ∀ e ∈ es, ∀ s s', Allowed e s s') :
    sys.AllowedRun Allowed c es := by
  induction es generalizing c with
  | nil => trivial
  | cons e es ih =>
    intro c' _
    exact ⟨h e List.mem_cons_self _ _, ih fun e' he' => h e' (List.mem_cons_of_mem _ he')⟩

/-- The side condition as a test of a given run. -/
def System.checkRun (sys : System ι ω σ) (test : Event ι ω → σ → σ → Bool) :
    Config ω σ → List (Event ι ω) → Bool
  | _, [] => true
  | c, e :: es => (sys.next c e).all fun c' => test e c.state c'.state && sys.checkRun test c' es

variable {J : (ℕ → γ) → σ → Prop} {Allowed : Event ι ω → σ → σ → Prop}

theorem System.allowedRun_of_check {test : Event ι ω → σ → σ → Bool}
    (htest : ∀ e s s', test e s s' = true → Allowed e s s') {c : Config ω σ}
    {es : List (Event ι ω)} (h : sys.checkRun test c es = true) : sys.AllowedRun Allowed c es := by
  induction es generalizing c with
  | nil => trivial
  | cons e es ih =>
    intro c' hc'
    simp only [checkRun, hc', Option.all_some, Bool.and_eq_true] at h
    exact ⟨htest _ _ _ h.1, ih h.2⟩

/-- What an event does to the ghost states and to the shared state. -/
def System.Moved (sys : System ι ω σ) (T : Prog.Move σ γ) :
    Event ι ω → (ℕ → γ) → σ → (ℕ → γ) → σ → Prop
  | .launch _ what, _, s, _, s' => ∃ task, sys.start what s = some (task, s')
  | .step t, gs, s, gs', s' => T t.thread (gs t.thread) s (gs' t.thread) s'
  | .abort _ _, _, s, _, s' => s' = s

theorem System.Sound.next (h : sys.Sound I T J Allowed) {c c' : Config ω σ} {e : Event ι ω}
    {gs : ℕ → γ} (hc : c.Ok I T J gs) (he : sys.next c e = some c')
    (ha : Allowed e c.state c'.state) :
    ∃ gs', c'.Ok I T J gs' ∧ sys.Moved T e gs c.state gs' c'.state := by
  have hput : ∀ i task s' g, task.Ok I T g → J (Function.update gs i g) s' →
      (c.put i task s').Ok I T J (Function.update gs i g) := by
    intro i task s' g htask hJ
    constructor
    · intro j other hj
      by_cases hij : j = i
      · subst hij
        rw [Config.put_self] at hj
        cases hj
        rw [Function.update_self]
        exact htask
      · rw [Config.put_of_ne c hij] at hj
        rw [Function.update_of_ne hij]
        exact hc.tasks j other hj
    · exact hJ
  rcases next_cases he with ⟨i, what, task, s', rfl, -, hs, rfl⟩ |
    ⟨t, β, f, k, handlers, x, s', rfl, hth, hf, rfl⟩ | ⟨i, n, task, p, rfl, hth, hp, rfl⟩
  · obtain ⟨g, htask, hJ⟩ := h.launch gs c.state i what task s' hc.state ha hs
    exact ⟨_, hput i task s' g htask hJ, task, hs⟩
  · obtain ⟨hprog, hhandlers⟩ := hc.tasks _ _ hth
    obtain ⟨g', hT, hnext⟩ := hprog t c.state x s' (h.inv _ _ hc.state) hf
    have hlater : ∀ p ∈ handlers, ∀ g'', Leads T g' g'' → p.Spec I T g'' fun _ _ => True :=
      fun p hp g'' hl => hhandlers p hp g'' (.head ⟨_, _, _, hT⟩ hl)
    refine ⟨_, hput _ _ _ g' ⟨hnext, hlater⟩ (h.move gs _ t g' s' hc.state ha hT), ?_⟩
    simpa only [Moved, Function.update_self, Config.put_state] using hT
  · obtain ⟨-, hhandlers⟩ := hc.tasks _ _ hth
    refine ⟨_, hput i ⟨p, []⟩ c.state (gs i) ⟨hhandlers p hp _ .refl, ?_⟩ ?_, rfl⟩
    · intro q hq
      cases hq
    · rw [Function.update_eq_self]
      exact hc.state

theorem System.Sound.exec (h : sys.Sound I T J Allowed) {c c' : Config ω σ}
    {es : List (Event ι ω)} {gs : ℕ → γ} (hc : c.Ok I T J gs) (he : sys.exec c es = some c')
    (ha : sys.AllowedRun Allowed c es) : ∃ gs', c'.Ok I T J gs' := by
  induction es generalizing c gs with
  | nil =>
    cases he
    exact ⟨gs, hc⟩
  | cons e es ih =>
    obtain ⟨c₁, h₁, he⟩ := Option.bind_eq_some_iff.mp he
    obtain ⟨hallowed, hrest⟩ := ha c₁ h₁
    obtain ⟨gs₁, hc₁, -⟩ := h.next hc h₁ hallowed
    exact ih hc₁ he hrest

theorem System.Sound.steps (h : sys.Sound I T J Allowed) {G : Event ι ω → σ → σ → Prop}
    (hG : ∀ e gs s gs' s', J gs s → Allowed e s s' → sys.Moved T e gs s gs' s' → G e s s')
    {c : Config ω σ} {es : List (Event ι ω)} {gs : ℕ → γ} (hc : c.Ok I T J gs)
    (ha : sys.AllowedRun Allowed c es) : sys.AllowedRun G c es := by
  induction es generalizing c gs with
  | nil => trivial
  | cons e es ih =>
    intro c₁ h₁
    obtain ⟨hallowed, hrest⟩ := ha c₁ h₁
    obtain ⟨gs₁, hc₁, hm⟩ := h.next hc h₁ hallowed
    exact ⟨hG e gs _ gs₁ _ hc.state hallowed hm, ih hc₁ hrest⟩

theorem Config.Ok.idle {s : σ} {gs : ℕ → γ} (h : J gs s) :
    (Config.idle s : Config ω σ).Ok I T J gs := by
  constructor
  · intro i task hi
    cases hi
  · exact h

end Soundness

section Uniform

variable {ι ω σ : Type} {sys : System ι ω σ} {I : σ → Prop} {G : ℕ → σ → σ → Prop}

/-- Whatever the system launches changes the shared state by steps `G` only, tasks and handlers
alike. -/
structure System.Moves (sys : System ι ω σ) (I : σ → Prop) (G : ℕ → σ → σ → Prop) : Prop where
  prog : ∀ {what s task s'}, sys.start what s = some (task, s') → task.prog.Always I G
  handlers : ∀ {what s task s'}, sys.start what s = some (task, s') →
    ∀ p ∈ task.handlers, p.Always I G
  launch : ∀ {what s task s'} (i : ℕ), I s → sys.start what s = some (task, s') → G i s s'

theorem System.Moves.and {G' : ℕ → σ → σ → Prop} (h : sys.Moves I G) (h' : sys.Moves I G') :
    sys.Moves I fun i s s' => G i s s' ∧ G' i s s' where
  prog hs := (h.prog hs).and (h'.prog hs)
  handlers hs p hp := (h.handlers hs p hp).and (h'.handlers hs p hp)
  launch i hI hs := ⟨h.launch i hI hs, h'.launch i hI hs⟩

/-- The steps of a system as moves without ghost state. -/
abbrev stepMoves (G : ℕ → σ → σ → Prop) : Prog.Move σ Unit := fun i _ s _ s' => G i s s'

theorem System.Moves.sound (h : sys.Moves I G) {J : σ → Prop}
    {Allowed : Event ι ω → σ → σ → Prop} (hJ : ∀ s, J s → I s)
    (hstep : ∀ e i s s', J s → Allowed e s s' → G i s s' → J s') :
    sys.Sound I (stepMoves G) (fun _ => J) Allowed where
  inv _ s hs := hJ s hs
  move _ s _ _ s' hs ha hG := hstep _ _ s s' hs ha hG
  launch _ s i _ _ s' hs ha hstart :=
    ⟨(), ⟨h.prog hstart, fun p hp _ _ => h.handlers hstart p hp⟩,
      hstep _ i s s' hs ha (h.launch i (hJ s hs) hstart)⟩

end Uniform

end Manus
