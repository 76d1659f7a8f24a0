import Mathlib.Logic.Basic

/-! # Successful computations

Inversion of `Except` computations that returned a value, and the induction
rule for folds of such computations.
-/

namespace Manus

variable {α β γ δ ε : Type}

theorem bind_eq_ok {x : Except ε α} {f : α → Except ε β} {b : β} :
    (x >>= f) = .ok b ↔ ∃ a, x = .ok a ∧ f a = .ok b := by
  cases x <;> simp [bind, Except.bind]

theorem map_eq_ok {x : Except ε α} {f : α → β} {b : β} :
    x.map f = .ok b ↔ ∃ a, x = .ok a ∧ f a = b := by
  cases x <;> simp [Except.map]

theorem toOption_eq_some {x : Except ε α} {a : α} : x.toOption = some a ↔ x = .ok a := by
  cases x <;> simp [Except.toOption]

theorem isOk_iff {x : Except ε α} : x.isOk = true ↔ ∃ a, x = .ok a := by
  cases x <;> simp [Except.isOk, Except.toBool]

theorem ite_error_eq_ok {c : Prop} [Decidable c] {e : ε} {x : Except ε α} {a : α} :
    (if c then .error e else x) = .ok a ↔ ¬ c ∧ x = .ok a := by
  by_cases h : c <;> simp [h]

theorem foldlM_observe {f : α → β → Except ε α} {g : γ → δ → Except ε γ} (v : α → γ) (o : β → δ)
    (hstep : ∀ a b a', f a b = .ok a' → g (v a) (o b) = .ok (v a')) {l : List β} {a a' : α}
    (h : l.foldlM f a = .ok a') : (l.map o).foldlM g (v a) = .ok (v a') := by
  induction l generalizing a with
  | nil => cases h; rfl
  | cons b l ih =>
    rw [List.foldlM_cons, bind_eq_ok] at h
    obtain ⟨a₁, h₁, h₂⟩ := h
    rw [List.map_cons, List.foldlM_cons, bind_eq_ok]
    exact ⟨v a₁, hstep a b a₁ h₁, ih h₂⟩

theorem foldlM_ok (g : γ → δ → γ) (l : List δ) (c : γ) :
    l.foldlM (fun c d => (.ok (g c d) : Except ε γ)) c = .ok (l.foldl g c) := by
  induction l generalizing c with
  | nil => rfl
  | cons d l ih => exact ih (g c d)

theorem exists_foldlM_eq_ok {f : α → β → Except ε α} {Fails : β → Prop}
    (hstep : ∀ a b, (∃ a', f a b = .ok a') ↔ ¬ Fails b) {l : List β} {a : α} :
    (∃ a', l.foldlM f a = .ok a') ↔ ∀ b ∈ l, ¬ Fails b := by
  induction l generalizing a with
  | nil => simp [pure, Except.pure]
  | cons b l ih =>
    rw [List.forall_mem_cons, ← hstep a b]
    simp only [List.foldlM_cons, bind_eq_ok]
    constructor
    · rintro ⟨a', a₁, h₁, h⟩
      exact ⟨⟨a₁, h₁⟩, ih.mp ⟨a', h⟩⟩
    · rintro ⟨⟨a₁, h₁⟩, h⟩
      obtain ⟨a', h'⟩ := (ih (a := a₁)).mpr h
      exact ⟨a', a₁, h₁, h'⟩

theorem foldlM_keeps {f : α → β → Except ε α} (v : α → γ)
    (hstep : ∀ a b a', f a b = .ok a' → v a' = v a) {l : List β} {a a' : α}
    (h : l.foldlM f a = .ok a') : v a' = v a := by
  induction l generalizing a with
  | nil =>
    cases h
    rfl
  | cons b l ih =>
    rw [List.foldlM_cons, bind_eq_ok] at h
    obtain ⟨a₁, h₁, h⟩ := h
    exact (ih h).trans (hstep a b a₁ h₁)

theorem mapError_eq_ok {ε' : Type} {x : Except ε α} {f : ε → ε'} {a : α} :
    x.mapError f = .ok a ↔ x = .ok a := by
  cases x with
  | error e => exact ⟨(by rintro ⟨⟩), by rintro ⟨⟩⟩
  | ok b => exact ⟨(by rintro ⟨⟩; rfl), by rintro ⟨⟩; rfl⟩

theorem mapM_eq_ok {f : α → Except ε β} {l : List α} {out : List β} (h : l.mapM f = .ok out) :
    (∀ b ∈ out, ∃ a ∈ l, f a = .ok b) ∧ ∀ a ∈ l, ∃ b ∈ out, f a = .ok b := by
  induction l generalizing out with
  | nil => cases h; simp
  | cons a l ih =>
    simp only [List.mapM_cons, bind_eq_ok] at h
    obtain ⟨b, hb, rest, hrest, hout⟩ := h
    cases hout
    obtain ⟨hfrom, hto⟩ := ih hrest
    constructor
    · intro b' hb'
      rcases List.mem_cons.mp hb' with rfl | hb'
      · exact ⟨a, List.mem_cons_self, hb⟩
      · obtain ⟨a', ha', hf⟩ := hfrom b' hb'
        exact ⟨a', List.mem_cons_of_mem _ ha', hf⟩
    · intro a' ha'
      rcases List.mem_cons.mp ha' with rfl | ha'
      · exact ⟨b, List.mem_cons_self, hb⟩
      · obtain ⟨b', hb', hf⟩ := hto a' ha'
        exact ⟨b', List.mem_cons_of_mem _ hb', hf⟩

theorem length_of_mapM {f : α → Except ε β} {l : List α} {out : List β}
    (h : l.mapM f = .ok out) : out.length = l.length := by
  induction l generalizing out with
  | nil =>
    cases h
    rfl
  | cons a l ih =>
    simp only [List.mapM_cons, bind_eq_ok] at h
    obtain ⟨b, -, rest, hrest, hout⟩ := h
    cases hout
    rw [List.length_cons, List.length_cons, ih hrest]

theorem exists_mapM_eq_ok {f : α → Except ε β} {l : List α} :
    (∃ out, l.mapM f = .ok out) ↔ ∀ a ∈ l, ∃ b, f a = .ok b := by
  constructor
  · rintro ⟨out, hout⟩ a ha
    obtain ⟨b, -, hb⟩ := (mapM_eq_ok hout).2 a ha
    exact ⟨b, hb⟩
  · intro h
    induction l with
    | nil => exact ⟨[], rfl⟩
    | cons a l ih =>
      obtain ⟨b, hb⟩ := h a List.mem_cons_self
      obtain ⟨rest, hrest⟩ := ih fun a' ha' => h a' (List.mem_cons_of_mem _ ha')
      exact ⟨b :: rest, by simp [List.mapM_cons, hb, hrest, bind, Except.bind, pure, Except.pure]⟩

theorem mapM_congr {f g : α → Except ε β} {l : List α} (h : ∀ a ∈ l, f a = g a) :
    l.mapM f = l.mapM g := by
  induction l with
  | nil => rfl
  | cons a l ih =>
    rw [List.mapM_cons, List.mapM_cons, h a List.mem_cons_self,
      ih fun b hb => h b (List.mem_cons_of_mem _ hb)]

section Reading

variable (reads : β → Bool) (f : α → β → Except ε α)

variable {reads f}

end Reading

/-- Whatever the computation raises is of the given kind. -/
def OnlyRaises (E : ε → Prop) (x : Except ε α) : Prop := ∀ e, x = .error e → E e

section OnlyRaises

variable {E : ε → Prop}

theorem OnlyRaises.ok (a : α) : OnlyRaises E (.ok a : Except ε α) := by
  intro e h
  cases h

theorem OnlyRaises.error {e : ε} (h : E e) : OnlyRaises E (.error e : Except ε α) := by
  intro e' h'
  cases h'
  exact h

theorem OnlyRaises.bind {x : Except ε α} {f : α → Except ε β} (hx : OnlyRaises E x)
    (hf : ∀ a, OnlyRaises E (f a)) : OnlyRaises E (x >>= f) := by
  cases x with
  | error e => exact .error (hx e rfl)
  | ok a => exact hf a

theorem OnlyRaises.map {x : Except ε α} {f : α → β} (hx : OnlyRaises E x) :
    OnlyRaises E (x.map f) := by
  cases x with
  | error e => exact .error (hx e rfl)
  | ok a => exact .ok (f a)

theorem OnlyRaises.foldlM {f : α → β → Except ε α} (hf : ∀ a b, OnlyRaises E (f a b)) {l : List β}
    {a : α} : OnlyRaises E (l.foldlM f a) := by
  induction l generalizing a with
  | nil => exact .ok a
  | cons b l ih =>
    rw [List.foldlM_cons]
    exact (hf a b).bind fun a' => ih

end OnlyRaises

end Manus
