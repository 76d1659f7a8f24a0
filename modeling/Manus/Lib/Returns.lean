import Mathlib.Control.Traversable.Instances
import Mathlib.Tactic.Choose
import Mathlib.Data.List.Forall2

/-! # What a computation returns

A postcondition for computations in any monad: every value the computation
returns satisfies it, whatever its effects are.
-/

namespace Manus

universe u

variable {m : Type → Type u} {α β : Type}

/-- Every value that `x` returns satisfies `p`. -/
def Returns [Functor m] (p : α → Prop) (x : m α) : Prop :=
  ∃ y : m { a // p a }, Subtype.val <$> y = x

namespace Returns

variable [Monad m] [LawfulMonad m] {p : α → Prop} {q : β → Prop} {x : m α} {f : α → m β}

theorem pure {a : α} (h : p a) : Returns p (pure a : m α) :=
  ⟨Pure.pure ⟨a, h⟩, map_pure _ _⟩

theorem bind (hx : Returns p x) (hf : ∀ a, p a → Returns q (f a)) : Returns q (x >>= f) := by
  obtain ⟨y, rfl⟩ := hx
  choose z hz using fun a : { a // p a } => hf a.1 a.2
  refine ⟨y >>= z, ?_⟩
  rw [map_bind, bind_map_left]
  exact bind_congr hz

theorem trivially (x : m α) : Returns (fun _ => True) x :=
  ⟨(fun a => ⟨a, trivial⟩) <$> x, by simp [Functor.map_map]⟩

theorem bind_any (hf : ∀ a, Returns q (f a)) : Returns q (x >>= f) :=
  (trivially x).bind fun a _ => hf a

theorem id_iff {p : α → Prop} {a : α} : Returns (m := Id) p a ↔ p a :=
  ⟨fun ⟨y, hy⟩ => hy ▸ y.2, fun h => ⟨⟨a, h⟩, rfl⟩⟩

end Returns

/-- A way to run computations side by side in which each keeps its own postcondition. -/
def Gathers [Functor m] (gather : {α : Type} → List (m α) → m (List α)) : Prop :=
  ∀ (ι α : Type) (l : List ι) (f : ι → m α) (p : ι → α → Prop),
    (∀ i ∈ l, Returns (p i) (f i)) → Returns (List.Forall₂ p l) (gather (l.map f))

end Manus
