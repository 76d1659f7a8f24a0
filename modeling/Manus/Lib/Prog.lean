import Mathlib.Tactic.Common
import Mathlib.Data.List.Forall2

/-! # Programs over a shared state

A program is a tree of atomic actions on a shared state. The scheduler tells an
action which thread takes it, which of its concurrent branches moves, and what
the surroundings answer. A triple relates a program to a private ghost state:
every action keeps a given relation between ghost and shared state.
-/

namespace Manus

universe u v

/-- What the scheduler hands to an action. -/
structure Tick (ω : Type) where
  thread : ℕ
  /-- Which of two concurrent branches moves, outermost first; `true` is the left one. -/
  path : List Bool
  oracle : ω

/-- The tick as the chosen branch sees it. -/
def Tick.down {ω : Type} (t : Tick ω) : Tick ω := { t with path := t.path.tail }

def Tick.left {ω : Type} (t : Tick ω) : Bool := t.path.headD true

/-- An atomic action; `none` when it cannot be taken now. -/
abbrev Action (ω σ β : Type) := Tick ω → σ → Option (β × σ)

/-- A tree of atomic actions. -/
inductive Prog (ω σ α : Type) : Type 1
  | ret (a : α)
  | act {β : Type} (f : Action ω σ β) (next : β → Prog ω σ α)

namespace Prog

variable {ω σ α β δ : Type}

def bind : Prog ω σ α → (α → Prog ω σ β) → Prog ω σ β
  | ret a, k => k a
  | act f next, k => act f fun x => (next x).bind k

instance : Monad (Prog ω σ) where
  pure := ret
  bind := bind

@[simp] theorem pure_eq (a : α) : (pure a : Prog ω σ α) = ret a := rfl

@[simp] theorem ret_bind (a : α) (k : α → Prog ω σ β) : ret a >>= k = k a := rfl

@[simp] theorem act_bind (f : Action ω σ δ) (next : δ → Prog ω σ α) (k : α → Prog ω σ β) :
    act f next >>= k = act f fun x => next x >>= k := rfl

instance : LawfulMonad (Prog ω σ) := by
  refine LawfulMonad.mk' _ (fun x => ?_) (fun _ _ => rfl) fun x f g => ?_
  · induction x with
    | ret a => rfl
    | act f next ih => exact congrArg (act f) (funext ih)
  · induction x with
    | ret a => rfl
    | act f' next ih => exact congrArg (act f') (funext ih)

/-- A program of one action. -/
def lift (f : Action ω σ α) : Prog ω σ α := act f ret

/-- An action that always can be taken and ignores the scheduler. -/
def update (f : σ → α × σ) : Prog ω σ α := lift fun _ s => some (f s)

/-- Look at the shared state. -/
def get (f : σ → α) : Prog ω σ α := update fun s => (f s, s)

/-- One step of either branch. -/
def eitherAction (f : Action ω σ α) (g : Action ω σ β) : Action ω σ (α ⊕ β) := fun t s =>
  if t.left then (f t.down s).map fun r => (.inl r.1, r.2)
  else (g t.down s).map fun r => (.inr r.1, r.2)

/-- A pending action beside a program: `rest` is what follows the action. -/
def parAct (f : Action ω σ δ) (rest : δ → Prog ω σ β → Prog ω σ (α × β)) :
    Prog ω σ β → Prog ω σ (α × β)
  | ret b => act f fun x => rest x (ret b)
  | act g next => act (eitherAction f g)
      (Sum.elim (fun x => rest x (act g next)) fun y => parAct f rest (next y))

/-- Two programs side by side. -/
def par : Prog ω σ α → Prog ω σ β → Prog ω σ (α × β)
  | ret a => fun q => (fun b => (a, b)) <$> q
  | act f next => parAct f fun x => par (next x)

/-- Programs side by side, with their results in order. -/
def gather : List (Prog ω σ α) → Prog ω σ (List α)
  | [] => ret []
  | p :: ps => (fun r => r.1 :: r.2) <$> par p (gather ps)

section Triples

variable {γ : Type u}

/-- What an action of a thread may do to its ghost state and to the shared state. -/
abbrev Move (σ : Type) (γ : Type u) := ℕ → γ → σ → γ → σ → Prop

/-- From ghost state `g`, every action the program takes in a state with `I` is a move `T`, and
what it returns satisfies `Q` together with the ghost state it ends in. -/
def Spec (I : σ → Prop) (T : Move σ γ) : Prog ω σ α → γ → (α → γ → Prop) → Prop
  | ret a, g, Q => Q a g
  | act f next, g, Q => ∀ t s x s', I s → f t s = some (x, s') →
      ∃ g', T t.thread g s g' s' ∧ (next x).Spec I T g' Q

variable {I : σ → Prop} {T : Move σ γ} {g : γ}

theorem Spec.imp {p : Prog ω σ α} {Q Q' : α → γ → Prop} (h : p.Spec I T g Q)
    (hQ : ∀ a g, Q a g → Q' a g) : p.Spec I T g Q' := by
  induction p generalizing g with
  | ret a => exact hQ a g h
  | act f next ih =>
    intro t s x s' hI hf
    obtain ⟨g', hT, hnext⟩ := h t s x s' hI hf
    exact ⟨g', hT, ih x hnext⟩

theorem Spec.bind {p : Prog ω σ α} {k : α → Prog ω σ β} {Q : α → γ → Prop} {R : β → γ → Prop}
    (h : p.Spec I T g Q) (hk : ∀ a g, Q a g → (k a).Spec I T g R) : (p >>= k).Spec I T g R := by
  induction p generalizing g with
  | ret a => exact hk a g h
  | act f next ih =>
    intro t s x s' hI hf
    obtain ⟨g', hT, hnext⟩ := h t s x s' hI hf
    exact ⟨g', hT, ih x hnext⟩

theorem Spec.map {p : Prog ω σ α} {f : α → β} {Q : α → γ → Prop} {R : β → γ → Prop}
    (h : p.Spec I T g Q) (hf : ∀ a g, Q a g → R (f a) g) : (f <$> p).Spec I T g R := by
  rw [map_eq_pure_bind]
  exact h.bind hf

theorem Spec.mono {p : Prog ω σ α} {Q : α → γ → Prop} {I' : σ → Prop} {T' : Move σ γ}
    (h : p.Spec I T g Q) (hI : ∀ s, I' s → I s)
    (hT : ∀ i g s g' s', I' s → T i g s g' s' → T' i g s g' s') : p.Spec I' T' g Q := by
  induction p generalizing g with
  | ret a => exact h
  | act f next ih =>
    intro t s x s' hs hf
    obtain ⟨g', hm, hnext⟩ := h t s x s' (hI s hs) hf
    exact ⟨g', hT _ _ _ _ _ hs hm, ih x hnext⟩

/-- How ghost states divide between concurrent branches: whatever one branch may do with its
part, both together may do with the whole. -/
structure Splits (T : Move σ γ) (split : γ → γ → γ → Prop) : Prop where
  left : ∀ {i g g₁ g₂ s g₁' s'}, split g g₁ g₂ → T i g₁ s g₁' s' →
    ∃ g', split g' g₁' g₂ ∧ T i g s g' s'
  right : ∀ {i g g₁ g₂ s g₂' s'}, split g g₁ g₂ → T i g₂ s g₂' s' →
    ∃ g', split g' g₁ g₂' ∧ T i g s g' s'

variable {split : γ → γ → γ → Prop}

theorem Spec.right {q : Prog ω σ β} {g₁ g₂ : γ} {R : β → γ → Prop} (hs : Splits T split)
    (hg : split g g₁ g₂) (hq : q.Spec I T g₂ R) :
    q.Spec I T g fun b g' => ∃ g₂', split g' g₁ g₂' ∧ R b g₂' := by
  induction q generalizing g g₂ with
  | ret b => exact ⟨g₂, hg, hq⟩
  | act f next ih =>
    intro t s x s' hI hf
    obtain ⟨g₂', hT, hnext⟩ := hq t s x s' hI hf
    obtain ⟨g', hg', hT'⟩ := hs.right hg hT
    exact ⟨g', hT', ih x hg' hnext⟩

theorem Spec.left {p : Prog ω σ α} {g₁ g₂ : γ} {Q : α → γ → Prop} (hs : Splits T split)
    (hg : split g g₁ g₂) (hp : p.Spec I T g₁ Q) :
    p.Spec I T g fun a g' => ∃ g₁', split g' g₁' g₂ ∧ Q a g₁' := by
  induction p generalizing g g₁ with
  | ret a => exact ⟨g₁, hg, hp⟩
  | act f next ih =>
    intro t s x s' hI hf
    obtain ⟨g₁', hT, hnext⟩ := hp t s x s' hI hf
    obtain ⟨g', hg', hT'⟩ := hs.left hg hT
    exact ⟨g', hT', ih x hg' hnext⟩

/-- Two programs side by side, each on its part of the ghost state. -/
theorem Spec.par {p : Prog ω σ α} {q : Prog ω σ β} {g₁ g₂ : γ} {Q : α → γ → Prop}
    {R : β → γ → Prop} (hs : Splits T split) (hg : split g g₁ g₂) (hp : p.Spec I T g₁ Q)
    (hq : q.Spec I T g₂ R) :
    (p.par q).Spec I T g fun r g' => ∃ g₁' g₂', split g' g₁' g₂' ∧ Q r.1 g₁' ∧ R r.2 g₂' := by
  induction p generalizing q g g₁ g₂ with
  | ret a =>
    exact (Spec.right hs hg hq).map fun b g' ⟨g₂', hg', hb⟩ => ⟨g₁, g₂', hg', hp, hb⟩
  | act f next ih =>
    -- the left branch has an action pending; go over what the right branch does first
    induction q generalizing g g₂ with
    | ret b =>
      intro t s x s' hI hf
      obtain ⟨g₁', hT, hnext⟩ := hp t s x s' hI hf
      obtain ⟨g', hg', hT'⟩ := hs.left hg hT
      exact ⟨g', hT', ih x hg' hnext hq⟩
    | act f₂ next₂ ih₂ =>
      intro t s x s' hI hf
      unfold eitherAction at hf
      split at hf
      · obtain ⟨⟨y, s₁⟩, hy, he⟩ := Option.map_eq_some_iff.mp hf
        cases he
        obtain ⟨g₁', hT, hnext⟩ := hp _ _ _ _ hI hy
        obtain ⟨g', hg', hT'⟩ := hs.left hg hT
        exact ⟨g', hT', ih y hg' hnext hq⟩
      · obtain ⟨⟨y, s₁⟩, hy, he⟩ := Option.map_eq_some_iff.mp hf
        cases he
        obtain ⟨g₂', hT, hnext⟩ := hq _ _ _ _ hI hy
        obtain ⟨g', hg', hT'⟩ := hs.right hg hT
        exact ⟨g', hT', ih₂ y hg' hnext⟩

/-- A ghost state divided into the parts of a list of branches. -/
def SplitAll (split : γ → γ → γ → Prop) : γ → List γ → Prop
  | _, [] => True
  | g, g₁ :: gs => ∃ g₂, split g g₁ g₂ ∧ SplitAll split g₂ gs

theorem Spec.gather {ι : Type v} {l : List ι} {f : ι → Prog ω σ α} {part : ι → γ}
    {Q : ι → α → Prop} (hs : Splits T split) (hg : SplitAll split g (l.map part))
    (h : ∀ i ∈ l, (f i).Spec I T (part i) fun a _ => Q i a) :
    (Prog.gather (l.map f)).Spec I T g fun results _ => List.Forall₂ Q l results := by
  induction l generalizing g with
  | nil => exact .nil
  | cons i l ih =>
    obtain ⟨g₂, hg, hrest⟩ := hg
    have hhead := h i List.mem_cons_self
    have htail := ih hrest fun j hj => h j (List.mem_cons_of_mem _ hj)
    refine (Spec.par hs hg hhead htail).map ?_
    rintro ⟨a, results⟩ g' ⟨-, -, -, ha, hr⟩
    exact .cons ha hr

end Triples

section Always

variable {I : σ → Prop} {G : ℕ → σ → σ → Prop}

/-- Every action the program takes in a state with `I` is a step `G` of its thread. -/
def Always (I : σ → Prop) (G : ℕ → σ → σ → Prop) (p : Prog ω σ α) : Prop :=
  p.Spec I (fun i (_ : Unit) s _ s' => G i s s') () fun _ _ => True

theorem Always.pure (a : α) : Always I G (pure a : Prog ω σ α) := trivial

theorem Always.bind {p : Prog ω σ α} {k : α → Prog ω σ β} (h : Always I G p)
    (hk : ∀ a, Always I G (k a)) : Always I G (p >>= k) :=
  Spec.bind h fun a _ _ => hk a

theorem Always.lift {f : Action ω σ α}
    (h : ∀ t s x s', I s → f t s = some (x, s') → G t.thread s s') : Always I G (lift f) :=
  fun t s x s' hI hf => ⟨(), h t s x s' hI hf, trivial⟩

theorem Always.update {f : σ → α × σ} (h : ∀ i s, I s → G i s (f s).2) :
    Always I G (update f : Prog ω σ α) :=
  .lift fun t s x s' hI hf => by
    have he := Option.some.inj hf
    have := h t.thread s hI
    rwa [he] at this

theorem Always.get {f : σ → α} (h : ∀ i s, G i s s) : Always I G (get f : Prog ω σ α) :=
  .update fun i s _ => h i s

theorem Always.gather {l : List (Prog ω σ α)} (h : ∀ p ∈ l, Always I G p) :
    Always I G (gather l) := by
  have hs : Splits (fun i (_ : Unit) s _ s' => G i s s') fun _ _ _ => True :=
    ⟨fun _ hT => ⟨(), trivial, hT⟩, fun _ hT => ⟨(), trivial, hT⟩⟩
  have hall : ∀ l : List Unit, SplitAll (fun _ _ _ : Unit => True) () l := by
    intro l
    induction l with
    | nil => trivial
    | cons _ _ ih => exact ⟨(), trivial, ih⟩
  have hgather := Spec.gather (f := id) (Q := fun _ _ => True) hs
    (hall (l.map fun _ => ())) h
  rw [List.map_id] at hgather
  exact hgather.imp fun _ _ _ => trivial

theorem Always.spec {γ : Type u} {T : Move σ γ} {g : γ} {p : Prog ω σ α} (h : Always I G p)
    (hT : ∀ i s s', I s → G i s s' → T i g s g s') : p.Spec I T g fun _ g' => g' = g := by
  induction p with
  | ret a => rfl
  | act f next ih =>
    intro t s x s' hI hf
    obtain ⟨_, hG, hnext⟩ := h t s x s' hI hf
    exact ⟨g, hT _ _ _ hI hG, ih x hnext⟩

theorem Spec.and {γ : Type u} {T : Move σ γ} {g : γ} {p : Prog ω σ α} {Q : α → γ → Prop}
    (h : p.Spec I T g Q) (h' : p.Always I G) :
    p.Spec I (fun i g s g' s' => T i g s g' s' ∧ G i s s') g Q := by
  induction p generalizing g with
  | ret a => exact h
  | act f next ih =>
    intro t s x s' hI hf
    obtain ⟨g', hT, hnext⟩ := h t s x s' hI hf
    obtain ⟨_, hG, hnext'⟩ := h' t s x s' hI hf
    exact ⟨g', ⟨hT, hG⟩, ih x hnext hnext'⟩

theorem Always.and {G' : ℕ → σ → σ → Prop} {p : Prog ω σ α} (h : p.Always I G)
    (h' : p.Always I G') : p.Always I fun i s s' => G i s s' ∧ G' i s s' :=
  Spec.and h h'

end Always

end Prog

end Manus
