import Mathlib.Data.Nat.Notation
import Mathlib.Logic.Function.Basic
import Mathlib.Tactic.Common

/-! # Tables addressed by position or by key

A table is a list, and an entry keeps its position. These lemmas say where an entry
of a table comes from that was extended, or changed at one position, and what looking
a unique key up finds.
-/

namespace Manus

variable {α : Type} {l : List α} {i j : ℕ} {x y : α}

theorem getElem?_set_some (h : (l.set i x)[j]? = some y) :
    i = j ∧ x = y ∨ i ≠ j ∧ l[j]? = some y := by
  by_cases he : i = j
  · subst he
    rw [List.getElem?_set_self'] at h
    obtain ⟨-, -, rfl⟩ := Option.map_eq_some_iff.mp h
    exact .inl ⟨rfl, rfl⟩
  · rw [List.getElem?_set_ne he] at h
    exact .inr ⟨he, h⟩

theorem map_set_of_eq {β : Type} {f : α → β} (h : l[i]? = some x) (hf : f y = f x) :
    (l.set i y).map f = l.map f := by
  obtain ⟨hi, rfl⟩ := List.getElem?_eq_some_iff.mp h
  have hlen : i < (l.map f).length := by simpa using hi
  have hget : f l[i] = (l.map f)[i] := (List.getElem_map f).symm
  rw [List.map_set, hf, hget, List.set_getElem_self]

theorem getElem?_concat_some (h : (l ++ [x])[j]? = some y) :
    l[j]? = some y ∨ j = l.length ∧ y = x := by
  rw [List.getElem?_append] at h
  split at h
  · exact .inl h
  · have hlt := (List.getElem?_eq_some_iff.mp h).1
    rw [List.length_singleton] at hlt
    have hj : j - l.length = 0 := by omega
    rw [hj] at h
    cases h
    exact .inr ⟨by omega, rfl⟩

theorem getElem?_concat_of_some (h : l[j]? = some y) : (l ++ [x])[j]? = some y := by
  rw [List.getElem?_append_left (List.getElem?_eq_some_iff.mp h).1, h]

theorem update_eq_some {κ : Type} [DecidableEq κ] {table : κ → Option α} {k k' : κ}
    {entry : Option α} (h : Function.update table k entry k' = some x) :
    k' = k ∧ entry = some x ∨ k' ≠ k ∧ table k' = some x := by
  by_cases he : k' = k
  · subst he
    rw [Function.update_self] at h
    exact .inl ⟨rfl, h⟩
  · rw [Function.update_of_ne he] at h
    exact .inr ⟨he, h⟩

theorem find?_key_eq_some {κ : Type} [BEq κ] [LawfulBEq κ] {key : α → κ} {k : κ} (hx : x ∈ l)
    (hk : key x = k) (hunique : ∀ y ∈ l, key y = k → y = x) :
    l.find? (fun y => key y == k) = some x := by
  cases hfound : l.find? fun y => key y == k with
  | none =>
    have hno := List.find?_eq_none.mp hfound x hx
    rw [hk, beq_self_eq_true] at hno
    exact absurd rfl hno
  | some y =>
    have hkey := List.find?_some hfound
    rw [hunique y (List.mem_of_find?_eq_some hfound) (beq_iff_eq.mp hkey)]

end Manus
