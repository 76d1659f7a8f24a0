import Mathlib.Algebra.BigOperators.Group.Multiset.Basic
import Mathlib.Algebra.Group.Torsion
import Mathlib.Data.Nat.Find

/-! # Sums that skip repeated values

A fold that adds up values, but keeps what it has when the next value equals it.
Such a sum does not depend on the order of the values in two situations only:
one value absorbs all others, or no value is the sum of some of the others.
-/

namespace Manus

universe u v

section Fold

variable {M : Type u} [AddCommMonoid M] [DecidableEq M]

/-- Add a value, unless it is what has been added up so far. -/
def skipAdd (a v : M) : M := if a = v then a else a + v

def skipSum : List M → M
  | [] => 0
  | v :: l => l.foldl skipAdd v

theorem skipAdd_self (a : M) : skipAdd a a = a := if_pos rfl

theorem skipAdd_of_ne {a v : M} (h : a ≠ v) : skipAdd a v = a + v := if_neg h

theorem skipSum_append {l : List M} (h : l ≠ []) (l' : List M) :
    skipSum (l ++ l') = l'.foldl skipAdd (skipSum l) := by
  cases l with
  | nil => exact absurd rfl h
  | cons v l => exact List.foldl_append

/-- One value is repeated, and all others add nothing to it. -/
def Absorbed (s : Multiset M) : Prop := ∃ c ∈ s, ∀ y ∈ s, y = c ∨ c + y = c

/-- What `c` absorbs can be added before `c` comes, and cannot be seen afterwards. -/
theorem foldl_absorbed {c : M} {l : List M} (hl : ∀ y ∈ l, y = c ∨ c + y = c) {a : M} :
    (a = c → l.foldl skipAdd a = c) ∧ (c + a = c → c ∈ l → l.foldl skipAdd a = c) := by
  induction l generalizing a with
  | nil => exact ⟨id, fun _ hc => by cases hc⟩
  | cons v l ih =>
    have hv := hl v List.mem_cons_self
    have ih := fun {a} => @ih (fun y hy => hl y (List.mem_cons_of_mem _ hy)) a
    simp only [List.foldl_cons]
    constructor
    · rintro rfl
      refine ih.1 ?_
      by_cases ha : a = v
      · rw [ha, skipAdd_self]
      · rw [skipAdd_of_ne ha]
        exact hv.resolve_left (Ne.symm ha)
    · intro ha hc
      by_cases hvc : v = c
      · refine ih.1 ?_
        subst hvc
        by_cases hav : a = v
        · rw [hav, skipAdd_self]
        · rw [skipAdd_of_ne hav, add_comm, ha]
      · refine ih.2 ?_ ((List.mem_cons.mp hc).resolve_left (Ne.symm hvc))
        by_cases hav : a = v
        · rwa [← hav, skipAdd_self]
        · rw [skipAdd_of_ne hav, ← add_assoc, ha]
          exact hv.resolve_left hvc

theorem skipSum_absorbed {c : M} {l : List M} (hl : ∀ y ∈ l, y = c ∨ c + y = c) (hc : c ∈ l) :
    skipSum l = c := by
  cases l with
  | nil => cases hc
  | cons v l =>
    have hrest := foldl_absorbed (fun y hy => hl y (List.mem_cons_of_mem _ hy)) (a := v)
    rcases hl v List.mem_cons_self with hv | hv
    · exact hrest.1 hv
    · by_cases hvc : v = c
      · exact hrest.1 hvc
      · exact hrest.2 hv ((List.mem_cons.mp hc).resolve_left (Ne.symm hvc))

end Fold

theorem coe_append_singleton {M : Type u} (l : List M) (z : M) :
    ((l ++ [z] : List M) : Multiset M) = z ::ₘ (l : Multiset M) := by
  rw [← Multiset.coe_add, Multiset.coe_singleton, Multiset.add_comm, Multiset.singleton_add]

theorem exists_list {M : Type u} (s : Multiset M) : ∃ l : List M, (l : Multiset M) = s :=
  Quot.exists_rep s

section Coincidence

variable {M : Type u} [AddCommMonoid M] [DecidableEq M] {G : Type v} [AddCommGroup G]
  (φ : M →+ G)

/-- A value that counts is the sum of some of the others. -/
structure Coincides (s : Multiset M) (x : M) (t : Multiset M) : Prop where
  mem : x ∈ s
  counts : φ x ≠ 0
  others : t ≤ s.erase x
  some : t ≠ 0
  sum : t.sum = x

/-- No value that counts is the sum of some of the others. -/
def NoCoincidence (s : Multiset M) : Prop := ∀ x t, ¬ Coincides φ s x t

variable {φ}

theorem Coincides.mono {s s' t : Multiset M} {x : M} (h : Coincides φ s x t) (hs : s ≤ s') :
    Coincides φ s' x t :=
  ⟨Multiset.mem_of_le hs h.mem, h.counts, h.others.trans (Multiset.erase_le_erase x hs), h.some,
    h.sum⟩

theorem NoCoincidence.mono {s s' : Multiset M} (h : NoCoincidence φ s') (hs : s ≤ s') :
    NoCoincidence φ s := fun x t hc => h x t (hc.mono hs)

variable (hnull : ∀ v, φ v = 0 → v + v = v)

include hnull in
theorem skipSum_eq_sum {l : List M} (h : NoCoincidence φ (l : Multiset M)) (hne : l ≠ []) :
    skipSum l = l.sum := by
  induction l using List.reverseRecOn with
  | nil => exact absurd rfl hne
  | append_singleton l z ih =>
    rw [coe_append_singleton] at h
    rcases eq_or_ne l [] with rfl | hl
    · simp [skipSum]
    · have hsum := ih (h.mono (Multiset.le_cons_self _ _)) hl
      rw [skipSum_append hl, List.sum_append, List.foldl_cons, List.foldl_nil, hsum,
        List.sum_singleton]
      by_cases hz : l.sum = z
      · rw [hz, skipAdd_self]
        by_cases hφ : φ z = 0
        · exact (hnull z hφ).symm
        · refine absurd ⟨Multiset.mem_cons_self z _, hφ, ?_, ?_, ?_⟩ (h z l)
          · rw [Multiset.erase_cons_head]
          · simpa using hl
          · rwa [Multiset.sum_coe]
      · exact skipAdd_of_ne hz

/-- In whatever order the values come, what counts of their sum is the same. -/
def HasValue (φ : M →+ G) (s : Multiset M) (g : G) : Prop :=
  ∀ l : List M, (l : Multiset M) = s → φ (skipSum l) = g

theorem HasValue.erase {s : Multiset M} {g : G} (h : HasValue φ s g) {z : M} (hz : z ∈ s)
    (hφ : φ z ≠ g) (hne : s.erase z ≠ 0) : HasValue φ (s.erase z) (g - φ z) := by
  intro l hl
  have hl' : l ≠ [] := by
    rintro rfl
    exact hne hl.symm
  have hlast := h (l ++ [z]) (by rw [coe_append_singleton, hl, Multiset.cons_erase hz])
  rw [skipSum_append hl', List.foldl_cons, List.foldl_nil] at hlast
  by_cases he : skipSum l = z
  · rw [he, skipAdd_self] at hlast
    exact absurd hlast hφ
  · rw [skipAdd_of_ne he, map_add] at hlast
    rw [← hlast, add_sub_cancel_right]

/-- A coincidence with the fewest summands. -/
structure Least (φ : M →+ G) (s : Multiset M) (x : M) (t : Multiset M) : Prop
    extends Coincides φ s x t where
  least : ∀ x' t', Coincides φ s x' t' → t.card ≤ t'.card

theorem exists_least {s : Multiset M} (h : ¬ NoCoincidence φ s) : ∃ x t, Least φ s x t := by
  classical
  simp only [NoCoincidence, not_forall, not_not] at h
  have hex : ∃ n x t, Coincides φ s x t ∧ t.card = n := by
    obtain ⟨x, t, ht⟩ := h
    exact ⟨_, x, t, ht, rfl⟩
  obtain ⟨x, t, ht, hn⟩ := Nat.find_spec hex
  exact ⟨x, t, ht, fun x' t' ht' => hn ▸ Nat.find_min' hex ⟨x', t', ht', rfl⟩⟩

namespace Least

variable {s t : Multiset M} {x : M}

theorem eq_cons (h : Least φ s x t) : s = x ::ₘ (t + (s.erase x - t)) := by
  rw [add_tsub_cancel_of_le h.others, Multiset.cons_erase h.mem]

include hnull in
theorem skipSum_eq (h : Least φ s x t) {l : List M} (hl : (l : Multiset M) = t) :
    skipSum l = x := by
  have hfree : NoCoincidence φ (l : Multiset M) := by
    intro x' t' hc
    rw [hl] at hc
    have hlt : t'.card < t.card := calc
      t'.card ≤ (t.erase x').card := Multiset.card_le_card hc.others
      _ < t.card := Multiset.card_erase_lt_of_mem hc.mem
    exact absurd (h.least x' t' (hc.mono (h.others.trans (Multiset.erase_le x s)))) (by omega)
  have hne : l ≠ [] := by
    rintro rfl
    exact h.some hl.symm
  rw [skipSum_eq_sum hnull hfree hne, ← Multiset.sum_coe, hl, h.sum]

include hnull in
theorem value (h : Least φ s x t) {g : G} (hv : HasValue φ s g) : φ x = g := by
  by_contra hx
  obtain ⟨lt, hlt⟩ := exists_list t
  obtain ⟨lr, hlr⟩ := exists_list (s.erase x - t)
  have hlt' : lt ≠ [] := by
    rintro rfl
    exact h.some hlt.symm
  have hrest : s.erase x = t + (s.erase x - t) := (add_tsub_cancel_of_le h.others).symm
  have hne : s.erase x ≠ 0 := fun he => h.some (Multiset.le_zero.mp (he ▸ h.others))
  have herase := hv.erase h.mem hx hne (lt ++ lr) (by
    rw [hrest, ← Multiset.coe_add]
    rw [hlt, hlr])
  have hall := hv (lt ++ x :: lr) (by
    rw [← Multiset.coe_add, ← Multiset.cons_coe, Multiset.add_cons]
    conv_rhs => rw [h.eq_cons]
    rw [hlt, hlr])
  -- the value itself is skipped behind its summands
  rw [skipSum_append hlt', List.foldl_cons, h.skipSum_eq hnull hlt, skipAdd_self] at hall
  rw [skipSum_append hlt', h.skipSum_eq hnull hlt, hall, eq_comm, sub_eq_self] at herase
  exact h.counts herase

end Least

include hnull in
/-- Behind the summands and the value, something is left that is not the whole sum. -/
theorem absorbed_of_other {s t : Multiset M} {x : M} {g : G} (h : Least φ s x t)
    (hv : HasValue φ s g) {z : M}
    (hz : z ∈ s.erase x - t) (ha : Absorbed (s.erase z)) (hzg : HasValue φ (s.erase z) (g - φ z)) :
    Absorbed s := by
  obtain ⟨r, hr⟩ := Multiset.exists_cons_of_mem hz
  have hs : s = z ::ₘ x ::ₘ (t + r) := by
    rw [h.eq_cons, hr, Multiset.add_cons, Multiset.cons_swap]
  have hsz : s.erase z = x ::ₘ (t + r) := by rw [hs, Multiset.erase_cons_head]
  rw [hsz] at ha hzg
  have hxg := h.value hnull hv
  obtain ⟨c, hc, hall⟩ := ha
  obtain rfl : x = c := by
    refine (hall x (Multiset.mem_cons_self _ _)).resolve_right fun hcx => h.counts ?_
    have := congrArg φ hcx
    rwa [map_add, add_eq_left] at this
  -- the value is one of its own summands
  have hxt : x ∈ t := by
    by_contra hxt
    refine h.counts ?_
    rw [← h.sum, map_multiset_sum]
    refine Multiset.sum_eq_zero fun y hy => ?_
    obtain ⟨m, hm, rfl⟩ := Multiset.mem_map.mp hy
    have hmx : m ≠ x := fun he => hxt (he ▸ hm)
    have hmt : m ∈ x ::ₘ (t + r) := Multiset.mem_cons_of_mem (Multiset.mem_add.mpr (.inl hm))
    have := congrArg φ ((hall m hmt).resolve_left hmx)
    rwa [map_add, add_eq_left] at this
  have hsum : ∀ l : List M, (l : Multiset M) ≤ x ::ₘ (t + r) → x ∈ l → skipSum l = x :=
    fun l hl hxl => skipSum_absorbed (fun y hy => hall y (Multiset.mem_of_le hl hy)) hxl
  have hz0 : φ z = 0 := by
    obtain ⟨l, hl⟩ := exists_list (x ::ₘ (t + r))
    have hval := hzg l hl
    have hxl : x ∈ (l : Multiset M) := by
      rw [hl]
      exact Multiset.mem_cons_self _ _
    rwa [hsum l hl.le hxl, hxg, eq_comm, sub_eq_self] at hval
  by_cases hxz : x + z = x
  · refine ⟨x, h.mem, fun y hy => ?_⟩
    rw [hs] at hy
    rcases Multiset.mem_cons.mp hy with rfl | hy
    · exact .inr hxz
    · exact hall y hy
  · -- a copy of the value in the end is added once more
    exfalso
    obtain ⟨l, hl⟩ := exists_list (t + r)
    have hxl : x ∈ (l : Multiset M) := by
      rw [hl]
      exact Multiset.mem_add.mpr (.inl hxt)
    have hlast := hv (l ++ [z] ++ [x]) (by
      rw [coe_append_singleton, coe_append_singleton, hl, hs, Multiset.cons_swap])
    have hne : x ≠ z := by
      rintro rfl
      exact h.counts hz0
    have hle : (l : Multiset M) ≤ x ::ₘ (t + r) := hl.le.trans (Multiset.le_cons_self _ _)
    rw [List.append_assoc, skipSum_append (List.ne_nil_of_mem hxl), hsum l hle hxl] at hlast
    simp only [List.cons_append, List.nil_append, List.foldl_cons, List.foldl_nil] at hlast
    rw [skipAdd_of_ne hne, skipAdd_of_ne hxz, map_add, map_add, hz0, add_zero, hxg,
      add_eq_left] at hlast
    exact h.counts (hxg.trans hlast)

end Coincidence

section OrderFree

variable {M : Type u} [AddCommMonoid M] [DecidableEq M] {G : Type v} [AddCommGroup G]
  [IsAddTorsionFree G] {φ : M →+ G} (hnull : ∀ v, φ v = 0 → v + v = v)
  {s t : Multiset M} {x : M} {g : G}

theorem nsmul_ne_self {n : ℕ} (hg : g ≠ 0) (hn : n ≠ 1) : n • g ≠ g := by
  intro h
  cases n with
  | zero =>
    rw [zero_nsmul] at h
    exact hg h.symm
  | succ n =>
    rw [succ_nsmul, add_eq_right, nsmul_eq_zero_iff_left hg] at h
    omega

theorem foldl_amounts (hg : g ≠ 0) {l : List M} (hl : ∀ y ∈ l, φ y = g) {a : M} {n : ℕ}
    (ha : φ a = n • g) (hn : 1 < n) : φ (l.foldl skipAdd a) = (n + l.length) • g := by
  induction l generalizing a n with
  | nil => simpa using ha
  | cons v l ih =>
    have hv := hl v List.mem_cons_self
    have hav : a ≠ v := by
      rintro rfl
      exact nsmul_ne_self hg (by omega) (ha.symm.trans hv)
    have hstep : φ (skipAdd a v) = (n + 1) • g := by
      rw [skipAdd_of_ne hav, map_add, ha, hv, succ_nsmul]
    rw [List.foldl_cons, ih (fun y hy => hl y (List.mem_cons_of_mem _ hy)) hstep (by omega),
      List.length_cons, Nat.add_right_comm, Nat.add_assoc]

include hnull in
/-- Behind the summands and the value, everything that is left makes up the whole sum. -/
theorem absorbed_of_same (h : Least φ s x t) (hv : HasValue φ s g)
    (hall : ∀ z ∈ s.erase x - t, φ z = g) (hne : s.erase x - t ≠ 0) : Absorbed s := by
  have hxg := h.value hnull hv
  have hg : g ≠ 0 := hxg ▸ h.counts
  by_cases hother : ∃ z ∈ s.erase x - t, z ≠ x
  · exfalso
    obtain ⟨z, hz, hzx⟩ := hother
    obtain ⟨r, hr⟩ := Multiset.exists_cons_of_mem hz
    obtain ⟨lt, hlt⟩ := exists_list t
    obtain ⟨lr, hlr⟩ := exists_list r
    have hlt' : lt ≠ [] := by
      rintro rfl
      exact h.some hlt.symm
    have hlast := hv (lt ++ x :: z :: lr) (by
      rw [← Multiset.coe_add, ← Multiset.cons_coe, ← Multiset.cons_coe, hlt, hlr]
      conv_rhs => rw [h.eq_cons, hr]
      rw [Multiset.add_cons])
    rw [skipSum_append hlt', h.skipSum_eq hnull hlt, List.foldl_cons, List.foldl_cons, skipAdd_self,
      skipAdd_of_ne (Ne.symm hzx)] at hlast
    have hsum : φ (x + z) = 2 • g := by rw [map_add, hxg, hall z hz, two_nsmul]
    rw [foldl_amounts hg (fun y hy => hall y ?_) hsum (by omega)] at hlast
    · exact nsmul_ne_self hg (by omega) hlast
    · rw [hr, ← hlr]
      exact Multiset.mem_cons_of_mem hy
  · simp only [not_exists, not_and, not_not] at hother
    obtain ⟨z, hz⟩ := Multiset.exists_mem_of_ne_zero hne
    have hx : x ∈ s.erase x := Multiset.mem_of_le (Multiset.sub_le_self _ _) (hother z hz ▸ hz)
    -- two copies of the value are the smallest coincidence
    have hcard := h.least x {x} ⟨h.mem, h.counts, Multiset.singleton_le.mpr hx, by simp, by simp⟩
    obtain ⟨y, rfl⟩ : ∃ y, t = {y} := by
      have hpos := Multiset.card_pos.mpr h.some
      exact Multiset.card_eq_one.mp (by rw [Multiset.card_singleton] at hcard; omega)
    obtain rfl : y = x := by simpa using h.sum
    refine ⟨y, h.mem, fun w hw => .inl ?_⟩
    rw [h.eq_cons] at hw
    simp only [Multiset.mem_cons, Multiset.mem_add, Multiset.mem_singleton] at hw
    rcases hw with hw | hw | hw
    · exact hw
    · exact hw
    · exact hother w hw

include hnull in
/-- Nothing is left behind the summands and the value. -/
theorem absorbed_of_none (h : Least φ s x t) (hv : HasValue φ s g) (hnone : s.erase x - t = 0) :
    Absorbed s := by
  have hxg := h.value hnull hv
  have hg : g ≠ 0 := hxg ▸ h.counts
  have hs : s = x ::ₘ t := by rw [h.eq_cons, hnone, add_zero]
  have hpos := Multiset.card_pos.mpr h.some
  by_cases hone : t.card = 1
  · obtain ⟨y, rfl⟩ := Multiset.card_eq_one.mp hone
    obtain rfl : y = x := by simpa using h.sum
    exact ⟨y, h.mem, fun w hw => .inl (by simpa [hs] using hw)⟩
  · exfalso
    obtain ⟨y, hy, hyg⟩ : ∃ y ∈ t, φ y ≠ g := by
      by_contra hall
      simp only [not_exists, not_and, not_not] at hall
      have hsum : t.card • g = g := by
        rw [← Multiset.sum_replicate, ← Multiset.map_const', ← Multiset.map_congr rfl hall,
          ← map_multiset_sum, h.sum, hxg]
      exact nsmul_ne_self hg hone hsum
    have hys : y ∈ s := hs ▸ Multiset.mem_cons_of_mem hy
    have hcard : (s.erase y).card = t.card := by
      rw [Multiset.card_erase_of_mem hys, hs, Multiset.card_cons, Nat.pred_succ]
    have hne : s.erase y ≠ 0 := by
      rw [← Multiset.card_pos, hcard]
      exact hpos
    obtain ⟨l, hl⟩ := exists_list (s.erase y)
    have hfree : NoCoincidence φ (l : Multiset M) := by
      intro x' t' hc
      rw [hl] at hc
      have hlt : t'.card < t.card := calc
        t'.card ≤ ((s.erase y).erase x').card := Multiset.card_le_card hc.others
        _ < (s.erase y).card := Multiset.card_erase_lt_of_mem hc.mem
        _ = t.card := hcard
      exact absurd (h.least x' t' (hc.mono (Multiset.erase_le y s))) (by omega)
    have hl' : l ≠ [] := by
      rintro rfl
      exact hne hl.symm
    have hval := hv.erase hys hyg hne l hl
    have hsum : φ s.sum = φ y + φ (s.erase y).sum := by
      rw [← Multiset.sum_erase hys, map_add]
    rw [skipSum_eq_sum hnull hfree hl', ← Multiset.sum_coe, hl, eq_sub_iff_add_eq, add_comm,
      ← hsum, hs, Multiset.sum_cons, h.sum, map_add, hxg, add_eq_left] at hval
    exact hg hval

include hnull in
/-- Where the order does not matter, one value absorbs all others or nothing coincides. -/
theorem absorbed_or_noCoincidence (hs : s ≠ 0) (hv : HasValue φ s g) :
    Absorbed s ∨ NoCoincidence φ s := by
  induction hn : s.card using Nat.strong_induction_on generalizing s g with
  | _ n ih =>
    by_cases hfree : NoCoincidence φ s
    · exact .inr hfree
    · left
      obtain ⟨x, t, h⟩ := exists_least hfree
      by_cases hother : ∃ z ∈ s.erase x - t, φ z ≠ g
      · obtain ⟨z, hz, hzg⟩ := hother
        have hzx : z ∈ s.erase x := Multiset.mem_of_le (Multiset.sub_le_self _ _) hz
        have hzs : z ∈ s := Multiset.mem_of_mem_erase hzx
        have hxz : x ::ₘ t ≤ s.erase z := by
          obtain ⟨r, hr⟩ := Multiset.exists_cons_of_mem hz
          have he : s = z ::ₘ (x ::ₘ t + r) := by
            rw [h.eq_cons, hr, Multiset.add_cons, Multiset.cons_swap, Multiset.cons_add]
          rw [he, Multiset.erase_cons_head]
          exact Multiset.le_add_right _ _
        have hne : s.erase z ≠ 0 := fun he =>
          Multiset.cons_ne_zero (Multiset.le_zero.mp (he ▸ hxz))
        have hval := hv.erase hzs hzg hne
        refine absorbed_of_other hnull h hv hz ?_ hval
        refine (ih _ (hn ▸ Multiset.card_erase_lt_of_mem hzs) hne hval rfl).resolve_right
          fun hno => ?_
        refine hno x t ⟨Multiset.mem_of_le hxz (Multiset.mem_cons_self _ _), h.counts, ?_, h.some,
          h.sum⟩
        have := Multiset.erase_le_erase x hxz
        rwa [Multiset.erase_cons_head] at this
      · simp only [not_exists, not_and, not_not] at hother
        by_cases hnone : s.erase x - t = 0
        · exact absorbed_of_none hnull h hv hnone
        · exact absorbed_of_same hnull h hv hother hnone

include hnull in
theorem skipSum_perm_iff {l : List M} (hl : l ≠ []) :
    (∀ l', l'.Perm l → skipSum l' = skipSum l) ↔
      Absorbed (l : Multiset M) ∨ NoCoincidence φ (l : Multiset M) := by
  constructor
  · intro h
    refine absorbed_or_noCoincidence hnull (by simpa using hl) (g := φ (skipSum l)) fun l' hl' => ?_
    rw [h l' (Multiset.coe_eq_coe.mp hl')]
  · intro h l' hp
    have hl' : l' ≠ [] := fun he => hl (List.perm_nil.mp (he ▸ hp.symm))
    rcases h with ⟨c, hc, hall⟩ | hfree
    · rw [skipSum_absorbed hall hc, skipSum_absorbed (fun y hy => hall y (hp.mem_iff.mp hy))
        (hp.mem_iff.mpr hc)]
    · rw [skipSum_eq_sum hnull hfree hl, skipSum_eq_sum hnull (Multiset.coe_eq_coe.mpr hp ▸ hfree)
        hl', hp.sum_eq]

end OrderFree

end Manus
