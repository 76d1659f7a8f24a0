import Mathlib.Data.List.Perm.Subperm
import Mathlib.Data.List.Nodup

/-! # Search along paths

A depth-first search for what lies beyond the inner vertices of a graph. A vertex
is entered at most once on a path, but again on another one. The search ends
after as many steps as there are inner vertices, and finds exactly what some path
of any length leads to.
-/

namespace Manus.PathSearch

variable {V β : Type}

section Definitions

variable (next : V → List (V ⊕ β))

/-- What lies beyond a vertex; `seen` are the vertices on the path so far. -/
def beyond [DecidableEq V] : ℕ → V → List V → List β
  | 0, _, _ => []
  | fuel + 1, v, seen => (next v).flatMap fun hop =>
    match hop with
    | .inl w => if w ∈ seen then [] else beyond fuel w (w :: seen)
    | .inr b => [b]

/-- A path of any length leads from the vertex out. -/
inductive Leads : V → β → Prop
  | exit {v : V} {b : β} : Sum.inr b ∈ next v → Leads v b
  | enter {v w : V} {b : β} : Sum.inl w ∈ next v → Leads w b → Leads v b

/-- A path that enters none of the vertices seen. -/
inductive Avoids (seen : List V) : V → β → Prop
  | exit {v : V} {b : β} : Sum.inr b ∈ next v → Avoids seen v b
  | enter {v w : V} {b : β} : Sum.inl w ∈ next v → w ∉ seen → Avoids seen w b → Avoids seen v b

end Definitions

variable {next : V → List (V ⊕ β)} {inner seen : List V} {v w : V} {b : β} {fuel fuel' : ℕ}

theorem Avoids.anti {seen' : List V} (h : Avoids next seen v b) (hsub : seen' ⊆ seen) :
    Avoids next seen' v b := by
  induction h with
  | exit hb => exact .exit hb
  | enter hw hseen _ ih => exact .enter hw (fun hmem => hseen (hsub hmem)) ih

theorem Avoids.leads (h : Avoids next seen v b) : Leads next v b := by
  induction h with
  | exit hb => exact .exit hb
  | enter hw _ _ ih => exact .enter hw ih

theorem Leads.avoids_nil (h : Leads next v b) : Avoids next [] v b := by
  induction h with
  | exit hb => exact .exit hb
  | enter hw _ ih => exact .enter hw List.not_mem_nil ih

theorem length_seen_le (hn : seen.Nodup) (hsub : seen ⊆ inner) : seen.length ≤ inner.length :=
  (hn.subperm hsub).length_le

variable [DecidableEq V]

theorem Avoids.or_restart (h : Avoids next seen w b) (v : V) :
    Avoids next (v :: seen) w b ∨ Avoids next (v :: seen) v b := by
  induction h with
  | exit hb => exact .inl (.exit hb)
  | @enter x y b hy hseen _ ih =>
    rcases ih with h | h
    · by_cases heq : y = v
      · subst heq
        exact .inr h
      · exact .inl (.enter hy (by simp [heq, hseen]) h)
    · exact .inr h

theorem Avoids.start (h : Avoids next seen v b) : Avoids next (v :: seen) v b := by
  rcases h.or_restart v with h | h
  · exact h
  · exact h

theorem beyond_sound (h : b ∈ beyond next fuel v seen) : Avoids next seen v b := by
  induction fuel generalizing v seen with
  | zero => cases h
  | succ fuel ih =>
    obtain ⟨hop, hhop, hb⟩ := List.mem_flatMap.mp h
    cases hop with
    | inl w =>
      dsimp only at hb
      split at hb
      · cases hb
      · rename_i hw
        exact .enter hhop hw ((ih hb).anti (List.subset_cons_self w seen))
    | inr c =>
      obtain rfl := List.mem_singleton.mp hb
      exact .exit hhop

section Bounded

variable (hinner : ∀ v w, Sum.inl w ∈ next v → w ∈ inner)

include hinner

theorem beyond_complete (hn : seen.Nodup) (hsub : seen ⊆ inner)
    (hfuel : inner.length < fuel + seen.length) (h : Avoids next seen v b) :
    b ∈ beyond next fuel v seen := by
  induction fuel generalizing v seen with
  | zero =>
    have hle := length_seen_le hn hsub
    omega
  | succ fuel ih =>
    rw [beyond, List.mem_flatMap]
    cases h with
    | exit hb => exact ⟨.inr b, hb, List.mem_singleton_self b⟩
    | @enter _ w _ hw hseen hrest =>
      refine ⟨.inl w, hw, ?_⟩
      dsimp only
      rw [if_neg hseen]
      apply ih
      · exact List.nodup_cons.mpr ⟨hseen, hn⟩
      · exact List.cons_subset.mpr ⟨hinner v w hw, hsub⟩
      · rw [List.length_cons]
        omega
      · exact hrest.start

/-- More fuel finds nothing else: the search ends by itself. -/
theorem beyond_fuel (hn : seen.Nodup) (hsub : seen ⊆ inner)
    (hfuel : inner.length < fuel + seen.length) (hfuel' : inner.length < fuel' + seen.length) :
    beyond next fuel v seen = beyond next fuel' v seen := by
  induction fuel generalizing fuel' v seen with
  | zero =>
    have hle := length_seen_le hn hsub
    omega
  | succ fuel ih =>
    cases fuel' with
    | zero =>
      have hle := length_seen_le hn hsub
      omega
    | succ fuel' =>
      rw [beyond, beyond, List.flatMap_def, List.flatMap_def]
      congr 1
      apply List.map_congr_left
      intro hop hhop
      cases hop with
      | inr c => rfl
      | inl w =>
        dsimp only
        split
        · rfl
        · rename_i hseen
          apply ih
          · exact List.nodup_cons.mpr ⟨hseen, hn⟩
          · exact List.cons_subset.mpr ⟨hinner v w hhop, hsub⟩
          · rw [List.length_cons]
            omega
          · rw [List.length_cons]
            omega

theorem mem_beyond_iff (hv : v ∈ inner) (hfuel : inner.length ≤ fuel) :
    b ∈ beyond next fuel v [v] ↔ Leads next v b := by
  constructor
  · exact fun h => (beyond_sound h).leads
  · intro h
    apply beyond_complete hinner (List.nodup_singleton v) (by simpa using hv)
    · rw [List.length_singleton]
      omega
    · exact h.avoids_nil.start

end Bounded

end Manus.PathSearch
