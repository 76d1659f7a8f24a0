import Manus.Lib.Prog

/-! # Reading a store that others replace

A program reads a shared store in several actions. In a store that stays as it
is, what it returns is a matter of the store alone. Beside others, the store may
be replaced between any two of its actions.
-/

namespace Manus.Prog

variable {ω σ α β : Type}

section Quiet

/-- In a store that stays as it is the program ends with `Q`, whatever the surroundings answer
within `A`. -/
def Gives (A : ω → Prop) (s : σ) (Q : α → Prop) : Prog ω σ α → Prop
  | ret a => Q a
  | act f next => ∀ t, A t.oracle → ∃ x, f t s = some (x, s) ∧ (next x).Gives A s Q

variable {A : ω → Prop} {s : σ}

theorem Gives.imp {p : Prog ω σ α} {Q Q' : α → Prop} (h : p.Gives A s Q)
    (hQ : ∀ a, Q a → Q' a) : p.Gives A s Q' := by
  induction p with
  | ret a => exact hQ a h
  | act f next ih =>
    intro t ht
    obtain ⟨x, hf, hnext⟩ := h t ht
    exact ⟨x, hf, ih x hnext⟩

theorem Gives.weaken {A' : ω → Prop} {p : Prog ω σ α} {Q : α → Prop} (h : p.Gives A s Q)
    (hA : ∀ o, A' o → A o) : p.Gives A' s Q := by
  induction p with
  | ret a => exact h
  | act f next ih =>
    intro t ht
    obtain ⟨x, hf, hnext⟩ := h t (hA _ ht)
    exact ⟨x, hf, ih x hnext⟩

theorem Gives.bind {p : Prog ω σ α} {k : α → Prog ω σ β} {Q : α → Prop} {R : β → Prop}
    (h : p.Gives A s Q) (hk : ∀ a, Q a → (k a).Gives A s R) : (p >>= k).Gives A s R := by
  induction p with
  | ret a => exact hk a h
  | act f next ih =>
    intro t ht
    obtain ⟨x, hf, hnext⟩ := h t ht
    exact ⟨x, hf, ih x hnext⟩

theorem Gives.get_bind {f : σ → α} {k : α → Prog ω σ β} {R : β → Prop}
    (h : (k (f s)).Gives A s R) : (Prog.get f >>= k).Gives A s R :=
  fun _ _ => ⟨f s, rfl, h⟩

end Quiet

section Beside

/-- Run a program beside others: at each moment it takes its next action, or the store is
replaced. What it returns, with the stores from its start to its end. -/
def beside : List (Tick ω ⊕ σ) → σ → Prog ω σ α → Option (α × List σ)
  | _, s, ret a => some (a, [s])
  | [], _, act _ _ => none
  | .inl t :: moments, s, act f next => (f t s).bind fun r =>
      (beside moments r.2 (next r.1)).map fun q => (q.1, s :: q.2)
  | .inr s' :: moments, s, act f next =>
      (beside moments s' (act f next)).map fun q => (q.1, s :: q.2)

variable {moments : List (Tick ω ⊕ σ)} {s : σ} {seen : List σ}

theorem beside_ret (a : α) : beside moments s (ret a) = some (a, [s]) := by
  cases moments with
  | nil => rfl
  | cons m moments => cases m <;> rfl

theorem beside_act {δ : Type} {f : Action ω σ δ} {next : δ → Prog ω σ α} {a : α}
    (h : beside moments s (act f next) = some (a, seen)) :
    (∃ t rest x s' seen', moments = .inl t :: rest ∧ f t s = some (x, s') ∧
      beside rest s' (next x) = some (a, seen') ∧ seen = s :: seen') ∨
    ∃ s' rest seen', moments = .inr s' :: rest ∧
      beside rest s' (act f next) = some (a, seen') ∧ seen = s :: seen' := by
  cases moments with
  | nil => cases h
  | cons m rest =>
    cases m with
    | inl t =>
      obtain ⟨⟨x, s'⟩, hf, h⟩ := Option.bind_eq_some_iff.mp h
      obtain ⟨⟨a', seen'⟩, hrest, he⟩ := Option.map_eq_some_iff.mp h
      cases he
      exact .inl ⟨t, rest, x, s', seen', rfl, hf, hrest, rfl⟩
    | inr s' =>
      obtain ⟨⟨a', seen'⟩, hrest, he⟩ := Option.map_eq_some_iff.mp h
      cases he
      exact .inr ⟨s', rest, seen', rfl, hrest, rfl⟩

theorem mem_of_beside {p : Prog ω σ α} {a : α} (h : beside moments s p = some (a, seen)) :
    s ∈ seen := by
  cases p with
  | ret a' =>
    rw [beside_ret] at h
    cases h
    exact List.mem_singleton_self s
  | act f next =>
    rcases beside_act h with ⟨_, _, _, _, _, -, -, -, rfl⟩ | ⟨_, _, _, -, -, rfl⟩ <;>
      exact List.mem_cons_self

/-- A run of two programs one after the other is a run of the first, and then one of the second
from a store and a moment the first has come to. -/
theorem beside_bind {p : Prog ω σ α} {k : α → Prog ω σ β} {b : β}
    (h : beside moments s (p >>= k) = some (b, seen)) :
    ∃ a seen₁ rest s' seen₂, beside moments s p = some (a, seen₁) ∧
      beside rest s' (k a) = some (b, seen₂) ∧ s' ∈ seen₁ ∧ (∀ m ∈ rest, m ∈ moments) ∧
      (∀ x ∈ seen₁, x ∈ seen) ∧ ∀ x ∈ seen₂, x ∈ seen := by
  have hstart : ∀ {moments : List (Tick ω ⊕ σ)} {s : σ} {q : Prog ω σ β} {seen : List σ},
      beside moments s q = some (b, seen) → ∀ x ∈ [s], x ∈ seen := by
    intro moments s q seen hq x hx
    obtain rfl := List.mem_singleton.mp hx
    exact mem_of_beside hq
  induction moments generalizing s p seen with
  | nil =>
    cases p with
    | ret a =>
      exact ⟨a, [s], [], s, seen, rfl, h, List.mem_singleton_self s, nofun, hstart h,
        fun _ hx => hx⟩
    | act f next => cases h
  | cons m rest ih =>
    cases p with
    | ret a =>
      exact ⟨a, [s], m :: rest, s, seen, beside_ret a, h, List.mem_singleton_self s,
        fun _ hm => hm, hstart h, fun _ hx => hx⟩
    | act f next =>
      rw [act_bind] at h
      rcases beside_act h with ⟨t, rest', x, s', seen', he, hf, hrun, rfl⟩ |
        ⟨s', rest', seen', he, hrun, rfl⟩
      · cases he
        obtain ⟨a, seen₁, rest'', s'', seen₂, h₁, h₂, hs, hm, hsub₁, hsub₂⟩ := ih hrun
        refine ⟨a, s :: seen₁, rest'', s'', seen₂, ?_, h₂, List.mem_cons_of_mem _ hs,
          fun m hm' => List.mem_cons_of_mem _ (hm m hm'), ?_,
          fun x hx => List.mem_cons_of_mem _ (hsub₂ x hx)⟩
        · simp only [beside, hf, Option.bind_some, h₁, Option.map_some]
        · rw [List.forall_mem_cons]
          exact ⟨List.mem_cons_self, fun x hx => List.mem_cons_of_mem _ (hsub₁ x hx)⟩
      · cases he
        rw [← act_bind] at hrun
        obtain ⟨a, seen₁, rest'', s'', seen₂, h₁, h₂, hs, hm, hsub₁, hsub₂⟩ := ih hrun
        refine ⟨a, s :: seen₁, rest'', s'', seen₂, ?_, h₂, List.mem_cons_of_mem _ hs,
          fun m hm' => List.mem_cons_of_mem _ (hm m hm'), ?_,
          fun x hx => List.mem_cons_of_mem _ (hsub₂ x hx)⟩
        · simp only [beside, h₁, Option.map_some]
        · rw [List.forall_mem_cons]
          exact ⟨List.mem_cons_self, fun x hx => List.mem_cons_of_mem _ (hsub₁ x hx)⟩

/-- A run that sees one store only is a run in a store that stays as it is. -/
theorem Gives.beside {p : Prog ω σ α} {Q : α → Prop} {a : α} (h : p.Gives (fun _ => True) s Q)
    (hrun : Prog.beside moments s p = some (a, seen)) (hseen : ∀ x ∈ seen, x = s) : Q a := by
  induction moments generalizing p seen with
  | nil =>
    cases p with
    | ret a' =>
      cases hrun
      exact h
    | act f next => cases hrun
  | cons m rest ih =>
    cases p with
    | ret a' =>
      rw [beside_ret] at hrun
      cases hrun
      exact h
    | act f next =>
      rcases beside_act hrun with ⟨t, rest', x, s', seen', he, hf, hrun', rfl⟩ |
        ⟨s', rest', seen', he, hrun', rfl⟩
      · cases he
        obtain ⟨x', hf', hnext⟩ := h t trivial
        rw [hf] at hf'
        cases hf'
        exact ih hnext hrun' fun y hy => hseen y (List.mem_cons_of_mem _ hy)
      · cases he
        -- the store is replaced by itself
        obtain rfl : s' = s := hseen s' (List.mem_cons_of_mem _ (mem_of_beside hrun'))
        exact ih h hrun' fun y hy => hseen y (List.mem_cons_of_mem _ hy)

/-- An action that leaves the store as it is; the ghost state collects the stores acted on. -/
def reading : Move σ (List σ) := fun _ g s g' s' => s' = s ∧ g' = s :: g

theorem Spec.get_bind {I : σ → Prop} {f : σ → α} {k : α → Prog ω σ β} {g : List σ}
    {R : β → List σ → Prop} (h : ∀ s, I s → (k (f s)).Spec I reading (s :: g) R) :
    (Prog.get f >>= k).Spec I reading g R := by
  intro t s x s' hI hf
  cases hf
  exact ⟨s :: g, ⟨rfl, rfl⟩, h s hI⟩

/-- What a reading program returns, in terms of stores that were there. -/
theorem Spec.beside {I : σ → Prop} {p : Prog ω σ α} {g : List σ} {Q : α → List σ → Prop} {a : α}
    (h : p.Spec I reading g Q) (hs : I s) (hmoments : ∀ s', .inr s' ∈ moments → I s')
    (hrun : Prog.beside moments s p = some (a, seen)) :
    (∃ g', Q a g' ∧ ∀ x ∈ g', x ∈ g ∨ x ∈ seen) ∧ ∀ x ∈ seen, I x := by
  induction moments generalizing s p g seen with
  | nil =>
    cases p with
    | ret a' =>
      cases hrun
      exact ⟨⟨g, h, fun x hx => .inl hx⟩, by simpa using hs⟩
    | act f next => cases hrun
  | cons m rest ih =>
    have hrest : ∀ s', .inr s' ∈ rest → I s' :=
      fun s' hm => hmoments s' (List.mem_cons_of_mem _ hm)
    cases p with
    | ret a' =>
      rw [beside_ret] at hrun
      cases hrun
      exact ⟨⟨g, h, fun x hx => .inl hx⟩, by simpa using hs⟩
    | act f next =>
      rcases beside_act hrun with ⟨t, rest', x, s', seen', he, hf, hrun', rfl⟩ |
        ⟨s', rest', seen', he, hrun', rfl⟩
      · cases he
        obtain ⟨g', ⟨rfl, rfl⟩, hnext⟩ := h t s x s' hs hf
        obtain ⟨⟨g', hQ, hg'⟩, hI⟩ := ih hnext hs hrest hrun'
        refine ⟨⟨g', hQ, fun y hy => ?_⟩, List.forall_mem_cons.mpr ⟨hs, hI⟩⟩
        rcases hg' y hy with hy | hy
        · rcases List.mem_cons.mp hy with rfl | hy
          · exact .inr List.mem_cons_self
          · exact .inl hy
        · exact .inr (List.mem_cons_of_mem _ hy)
      · cases he
        obtain ⟨⟨g', hQ, hg'⟩, hI⟩ := ih h (hmoments s' List.mem_cons_self) hrest hrun'
        exact ⟨⟨g', hQ, fun y hy => (hg' y hy).imp_right (List.mem_cons_of_mem _)⟩,
          List.forall_mem_cons.mpr ⟨hs, hI⟩⟩

end Beside

end Manus.Prog
