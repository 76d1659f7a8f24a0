import Manus.Lib.System
import Mathlib.Data.List.Nodup
import Mathlib.Data.Set.Lattice

/-! # Permissions

Every use of a resource takes a permission away from the thread that uses it.
A permission belongs to one thread or lies at one place of the shared state, so
nothing is used twice.
-/

namespace Manus

/-- Where permissions lie in a state, and what was used so far. -/
structure Ledger (σ π ρ : Type) where
  lies : σ → π → Set ρ
  used : σ → List ρ

namespace Ledger

variable {σ π ρ : Type} (L : Ledger σ π ρ)

/-- A step that uses `now` and leaves `left` at a place. -/
structure Spending (now : List ρ) (left : Set ρ) (p : π) (g : Set ρ) (s : σ) (g' : Set ρ)
    (s' : σ) : Prop where
  used : L.used s' = L.used s ++ now
  nodup : now.Nodup
  spent : ∀ x ∈ now, x ∈ g ∧ x ∉ g' ∧ x ∉ left
  keeps : g' ⊆ g
  gives : left ⊆ g
  gone : ∀ x ∈ left, x ∉ g'
  place : L.lies s' p ⊆ L.lies s p ∪ left
  others : ∀ q, q ≠ p → L.lies s' q ⊆ L.lies s q

/-- A step that uses permissions of its own or leaves some of them at a place. -/
def Spends (g : Set ρ) (s : σ) (g' : Set ρ) (s' : σ) : Prop :=
  ∃ now left p, L.Spending now left p g s g' s'

/-- A step that takes what lies at a place. -/
def Takes (p : π) (g : Set ρ) (s : σ) (g' : Set ρ) (s' : σ) : Prop :=
  L.used s' = L.used s ∧ g' ⊆ g ∪ L.lies s p ∧ L.lies s' p = ∅ ∧
    ∀ q, q ≠ p → L.lies s' q ⊆ L.lies s q

/-- A step that neither uses permissions nor moves them; some may be lost. -/
def Idles (s s' : σ) : Prop := L.used s' = L.used s ∧ ∀ p, L.lies s' p ⊆ L.lies s p

variable {L}

theorem Idles.spends [Nonempty π] {s s' : σ} (h : L.Idles s s') (g : Set ρ) :
    L.Spends g s g s' := by
  obtain ⟨p⟩ := ‹Nonempty π›
  refine ⟨[], ∅, p, ?_⟩
  constructor
  · rw [h.1, List.append_nil]
  · exact List.nodup_nil
  · rintro x ⟨⟩
  · exact subset_rfl
  · exact Set.empty_subset g
  · rintro x ⟨⟩
  · exact (h.2 p).trans Set.subset_union_left
  · exact fun q _ => h.2 q

section Splits

/-- Permissions divided between two branches. -/
def Divides (g g₁ g₂ : Set ρ) : Prop := g = g₁ ∪ g₂ ∧ ∀ x ∈ g₁, x ∉ g₂

theorem Divides.symm {g g₁ g₂ : Set ρ} (h : Divides g g₁ g₂) : Divides g g₂ g₁ :=
  ⟨h.1.trans (Set.union_comm _ _), fun x hx hx' => h.2 x hx' hx⟩

theorem divides_sep (g : Set ρ) (test : ρ → Prop) :
    Divides g {x ∈ g | test x} {x ∈ g | ¬ test x} := by
  constructor
  · ext x
    constructor
    · intro hx
      by_cases ht : test x
      · exact .inl ⟨hx, ht⟩
      · exact .inr ⟨hx, ht⟩
    · rintro (hx | hx) <;> exact hx.1
  · rintro x ⟨-, ht⟩ ⟨-, hn⟩
    exact hn ht

theorem Spends.divide {g g₁ g₂ g₁' : Set ρ} {s s' : σ} (hg : Divides g g₁ g₂)
    (h : L.Spends g₁ s g₁' s') : ∃ g', Divides g' g₁' g₂ ∧ L.Spends g s g' s' := by
  obtain ⟨rfl, hdis⟩ := hg
  obtain ⟨now, left, p, h⟩ := h
  refine ⟨g₁' ∪ g₂, ⟨rfl, fun x hx => hdis x (h.keeps hx)⟩, now, left, p, ?_⟩
  constructor
  · exact h.used
  · exact h.nodup
  · intro x hx
    obtain ⟨h₁, h₁', hl⟩ := h.spent x hx
    exact ⟨.inl h₁, fun hx => hx.elim h₁' (hdis x h₁), hl⟩
  · exact Set.union_subset_union_left g₂ h.keeps
  · exact h.gives.trans Set.subset_union_left
  · intro x hx hx'
    exact hx'.elim (h.gone x hx) (hdis x (h.gives hx))
  · exact h.place
  · exact h.others

theorem spends_splits : Prog.Splits (fun _ => L.Spends) Divides where
  left hg h := Spends.divide hg h
  right hg h := by
    obtain ⟨g', hg', h'⟩ := Spends.divide hg.symm h
    exact ⟨g', hg'.symm, h'⟩

theorem splitAll_parts {ι : Type} {l : List ι} {g : Set ρ} {part : ι → Set ρ}
    (hg : ∀ x, x ∈ g ↔ ∃ i ∈ l, x ∈ part i)
    (hdis : l.Pairwise fun i j => ∀ x ∈ part i, x ∉ part j) :
    Prog.SplitAll Divides g (l.map part) := by
  induction l generalizing g with
  | nil => trivial
  | cons i l ih =>
    obtain ⟨hi, hdis⟩ := List.pairwise_cons.mp hdis
    refine ⟨{x | ∃ j ∈ l, x ∈ part j}, ⟨?_, ?_⟩, ih (fun _ => Iff.rfl) hdis⟩
    · ext x
      rw [hg]
      simp only [List.mem_cons, exists_eq_or_imp]
      rfl
    · rintro x hx ⟨j, hj, hx'⟩
      exact hi j hj x hx hx'

end Splits

section Accounts

/-- Who has a permission: a thread, or a place of the shared state. -/
def holds (L : Ledger σ π ρ) (gs : ℕ → Set ρ) (s : σ) : ℕ ⊕ π → Set ρ
  | .inl i => gs i
  | .inr p => L.lies s p

/-- Nothing was used twice, nothing that was used is left, and nobody shares a permission. -/
structure Accounted (L : Ledger σ π ρ) (gs : ℕ → Set ρ) (s : σ) : Prop where
  nodup : (L.used s).Nodup
  spent : ∀ x ∈ L.used s, ∀ o, x ∉ L.holds gs s o
  apart : ∀ x o o', x ∈ L.holds gs s o → x ∈ L.holds gs s o' → o = o'

variable {gs : ℕ → Set ρ} {s s' : σ} {i : ℕ} {g' : Set ρ}

theorem Accounted.spends (h : L.Accounted gs s) (hm : L.Spends (gs i) s g' s') :
    L.Accounted (Function.update gs i g') s' := by
  obtain ⟨now, left, p, hm⟩ := hm
  -- where a permission was before the step
  have hsource : ∀ x o, x ∈ L.holds (Function.update gs i g') s' o →
      x ∈ L.holds gs s o ∧ (o = .inl i → x ∉ left) ∨ o = .inr p ∧ x ∈ left := by
    rintro x (j | q) hx
    · by_cases hj : j = i
      · subst hj
        rw [holds, Function.update_self] at hx
        exact .inl ⟨hm.keeps hx, fun _ hl => hm.gone x hl hx⟩
      · rw [holds, Function.update_of_ne hj] at hx
        exact .inl ⟨hx, fun he => absurd (Sum.inl.inj he) hj⟩
    · by_cases hq : q = p
      · subst hq
        rcases hm.place hx with hx | hx
        · exact .inl ⟨hx, fun he => by cases he⟩
        · exact .inr ⟨rfl, hx⟩
      · exact .inl ⟨hm.others q hq hx, fun he => by cases he⟩
  have hleft : ∀ x ∈ left, x ∈ L.holds gs s (.inl i) := hm.gives
  constructor
  · rw [hm.used]
    refine h.nodup.append hm.nodup fun x hx hnow => ?_
    exact h.spent x hx (.inl i) (hm.spent x hnow).1
  · rw [hm.used]
    intro x hx o ho
    rcases List.mem_append.mp hx with hx | hx
    · rcases hsource x o ho with ⟨ho, -⟩ | ⟨-, hl⟩
      · exact h.spent x hx o ho
      · exact h.spent x hx _ (hleft x hl)
    · obtain ⟨hg, hg', hl⟩ := hm.spent x hx
      rcases hsource x o ho with ⟨hold, -⟩ | ⟨-, hl'⟩
      · have := h.apart x o (.inl i) hold hg
        subst this
        rw [holds, Function.update_self] at ho
        exact hg' ho
      · exact hl hl'
  · intro x o o' ho ho'
    rcases hsource x o ho with ⟨h₁, hn₁⟩ | ⟨rfl, hl₁⟩ <;>
      rcases hsource x o' ho' with ⟨h₂, hn₂⟩ | ⟨rfl, hl₂⟩
    · exact h.apart x o o' h₁ h₂
    · exact absurd hl₂ (hn₁ (h.apart x o (.inl i) h₁ (hleft x hl₂)))
    · exact absurd hl₁ (hn₂ (h.apart x o' (.inl i) h₂ (hleft x hl₁)))
    · rfl

theorem Accounted.takes {p : π} (h : L.Accounted gs s) (hm : L.Takes p (gs i) s g' s') :
    L.Accounted (Function.update gs i g') s' := by
  obtain ⟨hused, hg', hp, hothers⟩ := hm
  have hsource : ∀ x o, x ∈ L.holds (Function.update gs i g') s' o →
      x ∈ L.holds gs s o ∧ o ≠ .inr p ∨ o = .inl i ∧ x ∈ L.holds gs s (.inr p) := by
    rintro x (j | q) hx
    · by_cases hj : j = i
      · subst hj
        rw [holds, Function.update_self] at hx
        rcases hg' hx with hx | hx
        · exact .inl ⟨hx, Sum.inl_ne_inr⟩
        · exact .inr ⟨rfl, hx⟩
      · rw [holds, Function.update_of_ne hj] at hx
        exact .inl ⟨hx, Sum.inl_ne_inr⟩
    · by_cases hq : q = p
      · subst hq
        rw [holds, hp] at hx
        cases hx
      · exact .inl ⟨hothers q hq hx, fun he => hq (Sum.inr.inj he)⟩
  constructor
  · rw [hused]
    exact h.nodup
  · rw [hused]
    intro x hx o ho
    rcases hsource x o ho with ⟨ho, -⟩ | ⟨-, ho⟩ <;> exact h.spent x hx _ ho
  · intro x o o' ho ho'
    rcases hsource x o ho with ⟨h₁, hn₁⟩ | ⟨rfl, h₁⟩ <;>
      rcases hsource x o' ho' with ⟨h₂, hn₂⟩ | ⟨rfl, h₂⟩
    · exact h.apart x o o' h₁ h₂
    · exact absurd (h.apart x o _ h₁ h₂) hn₁
    · exact absurd (h.apart x o' _ h₂ h₁) hn₂
    · rfl

end Accounts

end Ledger

end Manus
