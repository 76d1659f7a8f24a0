import Manus.Lib.System
import Mathlib.Order.BoundedOrder.Basic
import Mathlib.Order.Lattice

/-! # Stable assertions

A task may go on relying on what it has seen only when no other task can make it
false. The ghost state of a task is an assertion of this kind; a triple says what
a task knows when it has finished, whatever the other tasks do in the meantime.
-/

namespace Manus

/-- The invariant of a system, what its steps do, and which of them are considered. -/
structure Rules (σ : Type) where
  Inv : σ → Prop
  Step : σ → σ → Prop
  Allowed : σ → σ → Prop

/-- A property of the shared state that no step makes false. -/
structure Assertion {σ : Type} (R : Rules σ) where
  Holds : σ → Prop
  stable : ∀ {s s'}, R.Inv s → R.Step s s' → R.Allowed s s' → Holds s → Holds s'

namespace Assertion

variable {σ : Type} {R : Rules σ}

/-- A stronger assertion is less. -/
instance : Preorder (Assertion R) where
  le p q := ∀ s, R.Inv s → p.Holds s → q.Holds s
  le_refl _ _ _ h := h
  le_trans _ _ _ h h' s hI hp := h' s hI (h s hI hp)

instance : OrderTop (Assertion R) where
  top := ⟨fun _ => True, fun _ _ _ _ => trivial⟩
  le_top _ _ _ _ := trivial

instance : Min (Assertion R) where
  min p q := ⟨fun s => p.Holds s ∧ q.Holds s,
    fun hI hs ha h => ⟨p.stable hI hs ha h.1, q.stable hI hs ha h.2⟩⟩

end Assertion

section Triple

variable {ω σ α β : Type} {R : Rules σ}

/-- A task that knows `p` takes a step of the system, and then knows `p'`. -/
def Rules.moves (R : Rules σ) : Prog.Move σ (Assertion R) := fun _ p s p' s' =>
  p.Holds s → R.Step s s' ∧ (R.Allowed s s' → p'.Holds s')

/-- Started with `p`, the program takes steps of the system only, and `q` holds of what it
returns. -/
def Rules.Triple (R : Rules σ) (p : Assertion R) (x : Prog ω σ α) (q : α → Assertion R) : Prop :=
  x.Spec R.Inv R.moves p fun a g => g ≤ q a

namespace Rules.Triple

variable {p p' : Assertion R} {x : Prog ω σ α} {q q' : α → Assertion R}

theorem pure {a : α} (h : p ≤ q a) : R.Triple p (Prog.ret a : Prog ω σ α) q := h

theorem pre (h : R.Triple p' x q) (hp : p ≤ p') : R.Triple p x q := by
  cases x with
  | ret a => exact le_trans hp h
  | act f next =>
    intro t s z s' hI hf
    obtain ⟨e, he, hnext⟩ := h t s z s' hI hf
    exact ⟨e, fun hs => he (hp s hI hs), hnext⟩

theorem bind {k : α → Prog ω σ β} {r : β → Assertion R} (h : R.Triple p x q)
    (hk : ∀ a, R.Triple (q a) (k a) r) : R.Triple p (x >>= k) r :=
  Prog.Spec.bind h fun a _ hg => (hk a).pre hg

theorem post (h : R.Triple p x q) (hq : ∀ a, q a ≤ q' a) : R.Triple p x q' :=
  Prog.Spec.imp h fun a _ hg => le_trans hg (hq a)

theorem lift {f : Action ω σ α} (h : ∀ t s a s', R.Inv s → p.Holds s → f t s = some (a, s') →
    R.Step s s' ∧ (R.Allowed s s' → (q a).Holds s')) : R.Triple p (Prog.lift f) q :=
  fun t s a s' hI hf => ⟨q a, fun hs => h t s a s' hI hs hf, le_rfl⟩

theorem update {f : σ → α × σ} (h : ∀ s, R.Inv s → p.Holds s →
    R.Step s (f s).2 ∧ (R.Allowed s (f s).2 → (q (f s).1).Holds (f s).2)) :
    R.Triple p (Prog.update f : Prog ω σ α) q :=
  .lift fun t s a s' hI hs hf => by
    have hstep := h s hI hs
    rwa [Option.some.inj hf] at hstep

theorem get {f : σ → α} (h : ∀ s, R.Inv s → p.Holds s → R.Step s s ∧ (q (f s)).Holds s) :
    R.Triple p (Prog.get f : Prog ω σ α) q :=
  .update fun s hI hs => ⟨(h s hI hs).1, fun _ => (h s hI hs).2⟩

theorem always (h : x.Always R.Inv fun _ => R.Step) : R.Triple p x fun _ => p :=
  (h.spec fun _ _ _ hI hs hp => ⟨hs, fun ha => p.stable hI hs ha hp⟩).imp
    fun _ _ he => he ▸ le_rfl

theorem frame (h : R.Triple p x q) (r : Assertion R) :
    R.Triple (p ⊓ r) x fun a => q a ⊓ r := by
  have hframe : ∀ (y : Prog ω σ α) (g : Assertion R), y.Spec R.Inv R.moves g (fun a e => e ≤ q a) →
      y.Spec R.Inv R.moves (g ⊓ r) fun a e => e ≤ q a ⊓ r := by
    intro y
    induction y with
    | ret a => exact fun g hg s hI hs => ⟨hg s hI hs.1, hs.2⟩
    | act f next ih =>
      intro g hg t s z s' hI hf
      obtain ⟨e, he, hnext⟩ := hg t s z s' hI hf
      refine ⟨e ⊓ r, fun hs => ?_, ih z e hnext⟩
      obtain ⟨hstep, hpost⟩ := he hs.1
      exact ⟨hstep, fun ha => ⟨hpost ha, r.stable hI hstep ha hs.2⟩⟩
  exact hframe x p h

end Rules.Triple

end Triple

section Systems

variable {ι ω σ : Type} {R : Rules σ} {sys : System ι ω σ}

/-- The tasks of a system keep to the rules, and the steps keep the invariant. -/
structure Rules.Governs (R : Rules σ) (sys : System ι ω σ) : Prop where
  inv : ∀ {s s'}, R.Inv s → R.Step s s' → R.Allowed s s' → R.Inv s'
  launch : ∀ {what s task s'}, R.Inv s → sys.start what s = some (task, s') → R.Step s s'
  prog : ∀ {what s task s'}, sys.start what s = some (task, s') →
    R.Triple ⊤ task.prog fun _ => ⊤
  handlers : ∀ {what s task s'}, sys.start what s = some (task, s') →
    ∀ p ∈ task.handlers, R.Triple ⊤ p fun _ => ⊤

namespace Rules.Governs

theorem sound (h : R.Governs sys) :
    sys.Sound R.Inv R.moves (fun gs s => R.Inv s ∧ ∀ i, (gs i).Holds s)
      fun _ => R.Allowed where
  inv _ _ hs := hs.1
  move gs s t g' s' hs ha hm := by
    obtain ⟨hstep, hpost⟩ := hm (hs.2 t.thread)
    refine ⟨h.inv hs.1 hstep ha, fun i => ?_⟩
    by_cases hi : i = t.thread
    · subst hi
      rw [Function.update_self]
      exact hpost ha
    · rw [Function.update_of_ne hi]
      exact (gs i).stable hs.1 hstep ha (hs.2 i)
  launch gs s i what task s' hs ha hstart := by
    have hstep := h.launch hs.1 hstart
    refine ⟨⊤, ⟨(h.prog hstart).imp fun _ _ _ => trivial, fun p hp g' _ => ?_⟩,
      h.inv hs.1 hstep ha, fun j => ?_⟩
    · exact ((h.handlers hstart p hp).pre le_top).imp fun _ _ _ => trivial
    · by_cases hj : j = i
      · subst hj
        rw [Function.update_self]
        trivial
      · rw [Function.update_of_ne hj]
        exact (gs j).stable hs.1 hstep ha (hs.2 j)

theorem idle {s : σ} (hs : R.Inv s) : (Config.idle s : Config ω σ).Ok R.Inv R.moves
    (fun gs s => R.Inv s ∧ ∀ i, (gs i).Holds s) fun _ => (⊤ : Assertion R) :=
  .idle ⟨hs, fun _ => trivial⟩

theorem exec (h : R.Governs sys) {s : σ} {es : List (Event ι ω)} {c : Config ω σ}
    (hs : R.Inv s) (he : sys.exec (.idle s) es = some c)
    (ha : sys.AllowedRun (fun _ => R.Allowed) (.idle s) es) : R.Inv c.state := by
  obtain ⟨_, hc⟩ := h.sound.exec (idle hs) he ha
  exact hc.state.1

theorem steps (h : R.Governs sys) {s : σ} {es : List (Event ι ω)} (hs : R.Inv s)
    (ha : sys.AllowedRun (fun _ => R.Allowed) (.idle s) es) :
    sys.AllowedRun (fun _ s s' => R.Inv s ∧ (s' = s ∨ R.Step s s')) (.idle s) es := by
  refine h.sound.steps ?_ (idle hs) ha
  intro e gs s gs' s' hJ _ hm
  cases e with
  | launch i what =>
    obtain ⟨task, hstart⟩ := hm
    exact ⟨hJ.1, .inr (h.launch hJ.1 hstart)⟩
  | step t => exact ⟨hJ.1, .inr (hm (hJ.2 t.thread)).1⟩
  | abort i n => exact ⟨hJ.1, .inl hm⟩

end Rules.Governs

end Systems

end Manus
