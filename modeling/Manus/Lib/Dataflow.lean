import Manus.Lib.Topological

/-! # Facts that hold on every path

Facts travel along the edges of a graph: an edge adds some and drops others, and where
edges meet a fact survives that comes with all of them. A table that is filled in
dependency order solves the equations of its entries, and on a graph in dependency
order these equations have one solution.
-/

namespace Manus.Dataflow

open Topological

section Tables

variable {K N β σ : Type} [DecidableEq K]

/-- A table that is filled in dependency order: a visit writes one entry that is blank, and what it
writes depends on the entries of the parents. At the end every entry is what a visit would write. -/
theorem foldl_solved {visit : σ → N → σ} {table : σ → K → β} {key : N → K} {blank : β}
    {entry : N → (K → β) → β} {par : K → K → Prop} {done : List K} {order : List N}
    (hvisit : ∀ n ∈ order, ∀ s, table s (key n) = blank →
      table (visit s n) = Function.update (table s) (key n) (entry n (table s)))
    (hlocal : ∀ n T T', (∀ p, par p (key n) → T p = T' p) → entry n T = entry n T')
    (hnodup : (done ++ order.map key).Nodup) (hready : ReadyOrder par done (order.map key)) {s : σ}
    (hblank : ∀ n ∈ order, table s (key n) = blank) :
    (∀ k, k ∉ order.map key → table (order.foldl visit s) k = table s k) ∧
      ∀ n ∈ order, table (order.foldl visit s) (key n) =
        entry n (table (order.foldl visit s)) := by
  induction order generalizing done s with
  | nil => exact ⟨fun _ _ => rfl, nofun⟩
  | cons n order ih =>
    obtain ⟨hparents, hready⟩ := hready
    have hnodup' : ((done ++ [key n]) ++ order.map key).Nodup := by
      rwa [List.append_assoc, List.singleton_append]
    have hfresh : key n ∉ order.map key := fun hmem =>
      List.disjoint_of_nodup_append hnodup' (List.mem_append_right _ (List.mem_singleton_self _))
        hmem
    have hfirst := hvisit n List.mem_cons_self s (hblank n List.mem_cons_self)
    have hvisit' := fun m hm => hvisit m (List.mem_cons_of_mem _ hm)
    obtain ⟨hother, hsolved⟩ := ih (s := visit s n) hvisit' hnodup' hready fun m hm => by
      have hne : key m ≠ key n := fun he => hfresh (he ▸ List.mem_map_of_mem hm)
      rw [hfirst, Function.update_of_ne hne, hblank m (List.mem_cons_of_mem _ hm)]
    refine ⟨fun k hk => ?_, fun m hm => ?_⟩
    · rw [List.map_cons, List.mem_cons, not_or] at hk
      rw [List.foldl_cons, hother k hk.2, hfirst, Function.update_of_ne hk.1]
    · rw [List.foldl_cons]
      rcases List.mem_cons.mp hm with rfl | hm
      · rw [hother _ hfresh, hfirst, Function.update_self]
        refine hlocal m _ _ fun p hp => ?_
        -- the parents were visited before
        have hdone := hparents p hp
        have hlater : p ∉ order.map key := fun hmem =>
          List.disjoint_of_nodup_append hnodup' (List.mem_append_left _ hdone) hmem
        have hne : p ≠ key m := by
          rintro rfl
          exact List.disjoint_of_nodup_append hnodup hdone List.mem_cons_self
        rw [hother p hlater, hfirst, Function.update_of_ne hne]
      · exact hsolved m hm

end Tables

section Facts

variable {V X E : Type} (edges : List E) (source target : E → V) (gen kill : E → X → Prop)

/-- A fact comes with every edge into a vertex, and there is one. -/
inductive Guaranteed : V → X → Prop
  | intro {v : V} {x : X} (fed : ∃ e ∈ edges, target e = v)
      (kept : ∀ e ∈ edges, target e = v → ¬ gen e x → ¬ kill e x)
      (before : ∀ e ∈ edges, target e = v → ¬ gen e x → Guaranteed (source e) x) :
      Guaranteed v x

/-- A fact comes with an edge. -/
def OnEdge (e : E) (x : X) : Prop :=
  gen e x ∨ Guaranteed edges source target gen kill (source e) x ∧ ¬ kill e x

variable {edges source target gen kill}

theorem guaranteed_iff {v : V} {x : X} : Guaranteed edges source target gen kill v x ↔
    (∃ e ∈ edges, target e = v) ∧
      ∀ e ∈ edges, target e = v → OnEdge edges source target gen kill e x := by
  constructor
  · rintro ⟨fed, kept, before⟩
    refine ⟨fed, fun e he htarget => ?_⟩
    by_cases hgen : gen e x
    · exact .inl hgen
    · exact .inr ⟨before e he htarget hgen, kept e he htarget hgen⟩
  · rintro ⟨fed, h⟩
    exact .intro fed (fun e he htarget hgen => ((h e he htarget).resolve_left hgen).2)
      fun e he htarget hgen => ((h e he htarget).resolve_left hgen).1

theorem guaranteed_unique {input : V → X → Prop} {done order : List V}
    (hsolved : ∀ v ∈ order, (∀ e ∈ edges, target e = v →
        ∀ x, input (source e) x ↔ Guaranteed edges source target gen kill (source e) x) →
      ∀ x, input v x ↔ (∃ e ∈ edges, target e = v) ∧
        ∀ e ∈ edges, target e = v → OnEdge edges source target gen kill e x)
    (hready : ReadyOrder (fun p v => ∃ e ∈ edges, source e = p ∧ target e = v) done order)
    (hdone : ∀ v ∈ done, ∀ x, input v x ↔ Guaranteed edges source target gen kill v x) :
    ∀ v ∈ order, ∀ x, input v x ↔ Guaranteed edges source target gen kill v x := by
  induction order generalizing done with
  | nil => nofun
  | cons v order ih =>
    have hfirst : ∀ x, input v x ↔ Guaranteed edges source target gen kill v x := by
      intro x
      rw [guaranteed_iff]
      exact hsolved v List.mem_cons_self
        (fun e he htarget => hdone (source e) (hready.1 _ ⟨e, he, rfl, htarget⟩)) x
    intro w hw
    rcases List.mem_cons.mp hw with rfl | hw
    · exact hfirst
    · refine ih (fun u hu => hsolved u (List.mem_cons_of_mem _ hu)) hready.2 (fun u hu => ?_) w hw
      rcases List.mem_append.mp hu with hu | hu
      · exact hdone u hu
      · rw [List.mem_singleton.mp hu]
        exact hfirst

end Facts

end Manus.Dataflow
