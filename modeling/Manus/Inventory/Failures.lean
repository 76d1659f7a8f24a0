import Manus.Inventory.Evaluator

/-! # Failed conditions

A condition that fails selects nothing. Where a condition counts for the result
this loses devices; where it is excluded, by a NOT, devices stay that would have
been excluded.
-/

namespace Manus

section Sides

/-- The first set is smaller (`true`) or larger (`false`). -/
def Sided (side : Bool) (a b : Finset String) : Prop := if side then a ⊆ b else b ⊆ a

theorem Sided.refl (side : Bool) (a : Finset String) : Sided side a a := by
  cases side <;> exact Finset.Subset.refl a

theorem intersectSets_mono {l l' : List (Finset String)} (h : List.Forall₂ (· ⊆ ·) l l') :
    intersectSets l ⊆ intersectSets l' := by
  have hfold : ∀ {l l' : List (Finset String)}, List.Forall₂ (· ⊆ ·) l l' →
      ∀ a b, a ⊆ b → l.foldl (· ∩ ·) a ⊆ l'.foldl (· ∩ ·) b := by
    intro l l' h
    induction h with
    | nil => exact fun a b hab => hab
    | cons hx _ ih => exact fun a b hab => ih _ _ (Finset.inter_subset_inter hab hx)
  cases h with
  | nil => exact Finset.Subset.refl _
  | cons hx h => exact hfold h _ _ hx

theorem unionSets_mono {l l' : List (Finset String)} (h : List.Forall₂ (· ⊆ ·) l l') :
    unionSets l ⊆ unionSets l' := by
  have hfold : ∀ {l l' : List (Finset String)}, List.Forall₂ (· ⊆ ·) l l' →
      ∀ a b, a ⊆ b → l.foldl (· ∪ ·) a ⊆ l'.foldl (· ∪ ·) b := by
    intro l l' h
    induction h with
    | nil => exact fun a b hab => hab
    | cons hx _ ih => exact fun a b hab => ih _ _ (Finset.union_subset_union hab hx)
  exact hfold h ∅ ∅ (Finset.Subset.refl _)

theorem subtractNotResults_mono {n n' : List (Finset String)} (h : List.Forall₂ (· ⊆ ·) n' n)
    {a b : Finset String} (hab : a ⊆ b) : subtractNotResults a n ⊆ subtractNotResults b n' := by
  unfold subtractNotResults
  induction h generalizing a b with
  | nil => exact hab
  | cons hx _ ih => exact ih (Finset.sdiff_subset_sdiff hab hx)

theorem combineLogicalResults_mono {type : OperationType} {c c' n n' : List (Finset String)}
    (hc : List.Forall₂ (· ⊆ ·) c c') (hn : type ≠ .not → List.Forall₂ (· ⊆ ·) n' n) :
    combineLogicalResults type c n ⊆ combineLogicalResults type c' n' := by
  cases type with
  | and => exact subtractNotResults_mono (hn nofun) (intersectSets_mono hc)
  | or => exact subtractNotResults_mono (hn nofun) (unionSets_mono hc)
  | not => exact unionSets_mono hc
  | unknown => exact Finset.Subset.refl _

theorem combineLogicalResults_sided {side : Bool} {type : OperationType}
    {c c' n n' : List (Finset String)} (hc : List.Forall₂ (Sided side) c c')
    (hn : type ≠ .not → List.Forall₂ (Sided !side) n n') :
    Sided side (combineLogicalResults type c n) (combineLogicalResults type c' n') := by
  cases side with
  | true => exact combineLogicalResults_mono hc fun ht => (hn ht).flip
  | false => exact combineLogicalResults_mono hc.flip fun ht => hn ht

end Sides

section Polarity

variable (raises : List ℕ → ℕ → Bool)

mutual

/-- Conditions raise only where the operation selects less for it (`true`), or more (`false`). -/
def RaisesOnly (side : Bool) (path : List ℕ) : LogicalOperation → Prop
  | ⟨type, conditions, nested⟩ =>
    (side = false → ∀ i < conditions.length, raises path i = false) ∧
      RaisesOnlyIn side (decide ((⟨type, conditions, nested⟩ : LogicalOperation).type = .not))
        path 0 nested

/-- The same in nested operations. A NOT turns the side around, but a NOT in a NOT is without
effect. -/
def RaisesOnlyIn (side inNot : Bool) (path : List ℕ) : ℕ → List LogicalOperation → Prop
  | _, [] => True
  | i, op :: ops =>
    (if op.type = .not then inNot = true ∨ RaisesOnly (!side) (i :: path) op
      else RaisesOnly side (i :: path) op) ∧ RaisesOnlyIn side inNot path (i + 1) ops

end

end Polarity

def Faults.quiet (faults : Faults) : Faults := { faults with raises := fun _ _ => false }

section Execution

variable {nautobot : Nautobot} {faults : Faults}

theorem executeCondition_raises (devices : List DeviceInfo) (c : LogicalCondition) :
    (executeCondition nautobot devices true c).ids = ∅ := by
  unfold executeCondition
  split
  · rfl
  · split <;> rfl

theorem executeCondition_sided {side raises : Bool} (h : side = false → raises = false)
    (devices : List DeviceInfo) (c : LogicalCondition) :
    Sided side (executeCondition nautobot devices raises c).ids
      (executeCondition nautobot devices false c).ids := by
  cases raises with
  | false => exact .refl _ _
  | true =>
    cases side with
    | true =>
      rw [executeCondition_raises]
      exact Finset.empty_subset _
    | false => cases h rfl

def NestedSided (side inNot : Bool) (p q : LogicalOperation × Selection) : Prop :=
  p.1 = q.1 ∧ if p.1.type = .not then inNot = true ∨ Sided (!side) p.2.ids q.2.ids
    else Sided side p.2.ids q.2.ids

theorem nestedSided_split {side inNot : Bool} {xs ys : List (LogicalOperation × Selection)}
    (h : List.Forall₂ (NestedSided side inNot) xs ys) :
    List.Forall₂ (Sided side) ((xs.filter fun p => p.1.type ≠ .not).map fun p => p.2.ids)
      ((ys.filter fun p => p.1.type ≠ .not).map fun p => p.2.ids) ∧
    (inNot = false →
      List.Forall₂ (Sided !side) ((xs.filter fun p => p.1.type = .not).map fun p => p.2.ids)
        ((ys.filter fun p => p.1.type = .not).map fun p => p.2.ids)) := by
  induction h with
  | nil => exact ⟨.nil, fun _ => .nil⟩
  | @cons p q xs ys hpq _ ih =>
    obtain ⟨hop, hids⟩ := hpq
    by_cases ht : p.1.type = .not
    · have ht' : q.1.type = .not := hop ▸ ht
      rw [if_pos ht] at hids
      simp only [ne_eq, ht, ht', not_true, decide_false, Bool.false_eq_true, not_false_iff,
        List.filter_cons_of_neg, decide_true, List.filter_cons_of_pos, List.map_cons]
      refine ⟨ih.1, fun hin => .cons (hids.resolve_left ?_) (ih.2 hin)⟩
      simp [hin]
    · have ht' : q.1.type ≠ .not := hop ▸ ht
      rw [if_neg ht] at hids
      simp only [ne_eq, ht, ht', not_false_iff, decide_true, List.filter_cons_of_pos, decide_false,
        Bool.false_eq_true, List.filter_cons_of_neg, List.map_cons]
      exact ⟨.cons hids ih.1, ih.2⟩

theorem finishOperation_sided {side : Bool} {op : LogicalOperation} {seed conditions conditions' :
    List Selection} {nested nested' : List (LogicalOperation × Selection)}
    (hc : List.Forall₂ (fun s t : Selection => Sided side s.ids t.ids) conditions conditions')
    (hn : List.Forall₂ (NestedSided side (decide (op.type = .not))) nested nested') :
    Sided side (finishOperation op seed conditions nested).ids
      (finishOperation op seed conditions' nested').ids := by
  obtain ⟨hplain, hexcluded⟩ := nestedSided_split hn
  refine combineLogicalResults_sided ?_ fun ht => hexcluded (decide_eq_false ht)
  simp only [List.map_append, List.map_map]
  refine List.rel_append (List.rel_append ?_ ?_) hplain
  · exact List.forall₂_same.mpr fun s _ => .refl side s
  · exact List.forall₂_map_left_iff.mpr (List.forall₂_map_right_iff.mpr hc)

theorem conditions_sided {side : Bool} {path : List ℕ} (conditions : List (LogicalCondition × ℕ))
    (h : side = false → ∀ p ∈ conditions, faults.raises path p.2 = false)
    (devices : List DeviceInfo) :
    List.Forall₂ (fun s t : Selection => Sided side s.ids t.ids)
      (conditions.map fun p => executeCondition nautobot devices (faults.raises path p.2) p.1)
      (conditions.map fun p =>
        executeCondition nautobot devices (faults.quiet.raises path p.2) p.1) := by
  rw [List.forall₂_map_left_iff, List.forall₂_map_right_iff]
  exact List.forall₂_same.mpr fun p hp => executeCondition_sided (fun hs => h hs p hp) devices p.1

mutual

/-- An operation selects less, or more, with the failures. -/
theorem executeOperation_sided {side : Bool} (path : List ℕ) (devices : List DeviceInfo) :
    ∀ op, RaisesOnly faults.raises side path op →
      Sided side (executeOperation nautobot faults path devices op).ids
        (executeOperation nautobot faults.quiet path devices op).ids
  | ⟨type, conditions, nested⟩, h => by
    unfold RaisesOnly at h
    obtain ⟨hc, hn⟩ := h
    unfold executeOperation
    have hindex : ∀ p ∈ conditions.zipIdx, side = false → faults.raises path p.2 = false := by
      intro p hp hs
      exact hc hs p.2 (List.snd_lt_of_mem_zipIdx hp)
    have hlookup : faults.quiet.lookupFails = faults.lookupFails := rfl
    rw [hlookup]
    dsimp only
    cases hnarrow : narrowByIndex (faults.lookupFails path) devices
        ⟨type, conditions, nested⟩ with
    | none =>
      exact finishOperation_sided (conditions_sided _ (fun hs p hp => hindex p hp hs) devices)
        (executeNestedOperations_sided path devices 0 nested hn)
    | some narrowed =>
      obtain ⟨candidates, remaining, count⟩ := narrowed
      cases candidates with
      | nil => exact .refl _ _
      | cons d ds =>
        refine finishOperation_sided (conditions_sided remaining (fun hs p hp => ?_) (d :: ds))
          (executeNestedOperations_sided path (d :: ds) 0 nested hn)
        -- the conditions that remain are conditions of the operation
        unfold narrowByIndex at hnarrow
        dsimp only at hnarrow
        split at hnarrow
        · cases hnarrow
        · simp only [Option.some.injEq, Prod.mk.injEq] at hnarrow
          rw [← hnarrow.2.1] at hp
          exact hindex p (List.mem_filter.mp hp).1 hs

theorem executeNestedOperations_sided {side inNot : Bool} (path : List ℕ)
    (devices : List DeviceInfo) : ∀ i ops, RaisesOnlyIn faults.raises side inNot path i ops →
      List.Forall₂ (NestedSided side inNot)
        (executeNestedOperations nautobot faults path devices i ops)
        (executeNestedOperations nautobot faults.quiet path devices i ops)
  | _, [], _ => by
    unfold executeNestedOperations
    exact .nil
  | i, op :: ops, h => by
    unfold RaisesOnlyIn at h
    obtain ⟨hop, hops⟩ := h
    unfold executeNestedOperations
    refine .cons ⟨rfl, ?_⟩ (executeNestedOperations_sided path devices (i + 1) ops hops)
    dsimp only
    split
    · rename_i ht
      rw [if_pos ht] at hop
      exact hop.imp id (executeOperation_sided (i :: path) devices op)
    · rename_i ht
      rw [if_neg ht] at hop
      exact executeOperation_sided (i :: path) devices op hop

end

end Execution

section Data

/-- The devices of a selection are known under their own ids, and so are all it selects. -/
structure Selection.Known (s : Selection) : Prop where
  own : ∀ id d, s.data.get? id = some d → d.id = id
  selected : ∀ id ∈ s.ids, (s.data.get? id).isSome

theorem known_empty {count : ℕ} {failures : List String} :
    ({ operationsCount := count, failures := failures } : Selection).Known :=
  ⟨nofun, nofun⟩

theorem known_packDevices (devices : List DeviceInfo) (count : ℕ) :
    (packDevices devices count).Known := by
  constructor
  · intro id d h
    simp only [packDevices, Dict.get?_ofPairs, ← List.map_reverse] at h
    obtain ⟨l₁, l₂, hl, -⟩ := List.lookup_eq_some_iff.mp h
    have hmem : (id, d) ∈ devices.reverse.map fun d => (d.id, d) := by
      rw [hl]
      simp
    obtain ⟨d', -, he⟩ := List.mem_map.mp hmem
    cases he
    rfl
  · intro id hid
    simp only [packDevices, List.mem_toFinset, List.mem_map] at hid
    obtain ⟨d, hd, rfl⟩ := hid
    rw [Option.isSome_iff_ne_none]
    intro hnone
    simp only [packDevices, Dict.get?_ofPairs, List.lookup_eq_none_iff] at hnone
    have := hnone (d.id, d) (List.mem_reverse.mpr (List.mem_map.mpr ⟨d, hd, rfl⟩))
    simp at this

theorem known_executeCondition (nautobot : Nautobot) (devices : List DeviceInfo) (raises : Bool)
    (c : LogicalCondition) : (executeCondition nautobot devices raises c).Known := by
  unfold executeCondition
  split
  · exact known_empty
  · split
    · exact known_empty
    · split
      · exact known_empty
      · exact known_packDevices _ _

theorem subtractNotResults_subset (a : Finset String) (l : List (Finset String)) :
    subtractNotResults a l ⊆ a := by
  unfold subtractNotResults
  induction l generalizing a with
  | nil => exact Finset.Subset.refl a
  | cons x l ih => exact (ih _).trans Finset.sdiff_subset

theorem mem_unionSets {id : String} {l : List (Finset String)} :
    id ∈ unionSets l ↔ ∃ s ∈ l, id ∈ s := by
  have hfold : ∀ (l : List (Finset String)) (a : Finset String),
      id ∈ l.foldl (· ∪ ·) a ↔ id ∈ a ∨ ∃ s ∈ l, id ∈ s := by
    intro l
    induction l with
    | nil => simp
    | cons x l ih => simp [ih, or_assoc]
  simpa [unionSets] using hfold l ∅

theorem intersectSets_subset {l : List (Finset String)} {id : String} (h : id ∈ intersectSets l) :
    ∃ s ∈ l, id ∈ s := by
  have hfold : ∀ (l : List (Finset String)) (a : Finset String), l.foldl (· ∩ ·) a ⊆ a := by
    intro l
    induction l with
    | nil => exact fun a => Finset.Subset.refl a
    | cons x l ih => exact fun a => (ih _).trans Finset.inter_subset_left
  cases l with
  | nil => cases h
  | cons s l => exact ⟨s, List.mem_cons_self, hfold l s h⟩

theorem mem_combineLogicalResults {type : OperationType} {c n : List (Finset String)} {id : String}
    (h : id ∈ combineLogicalResults type c n) : ∃ s ∈ c, id ∈ s := by
  cases type with
  | and => exact intersectSets_subset (subtractNotResults_subset _ _ h)
  | or => exact mem_unionSets.mp (subtractNotResults_subset _ _ h)
  | not => exact mem_unionSets.mp h
  | unknown => cases h

theorem known_finishOperation {op : LogicalOperation} {seed conditions : List Selection}
    {nested : List (LogicalOperation × Selection)} (hs : ∀ s ∈ seed, s.Known)
    (hc : ∀ s ∈ conditions, s.Known) (hn : ∀ p ∈ nested, p.2.Known) :
    (finishOperation op seed conditions nested).Known := by
  have hall : ∀ s ∈ seed ++ conditions ++ nested.map Prod.snd, s.Known := by
    intro s h
    simp only [List.mem_append, List.mem_map] at h
    rcases h with (h | h) | ⟨p, hp, rfl⟩
    · exact hs s h
    · exact hc s h
    · exact hn p hp
  constructor
  · intro id d h
    rcases Dict.of_get?_foldl_update h with h | ⟨s, hmem, h⟩
    · cases h
    · exact (hall s hmem).own id d h
  · intro id hid
    obtain ⟨ids, hids, hid⟩ := mem_combineLogicalResults hid
    obtain ⟨s, hmem, rfl⟩ := List.mem_map.mp hids
    have hmem : s ∈ seed ++ conditions ++ nested.map Prod.snd := by
      simp only [List.mem_append, List.mem_map] at hmem ⊢
      refine hmem.imp_right ?_
      rintro ⟨p, hp, rfl⟩
      exact ⟨p, (List.mem_filter.mp hp).1, rfl⟩
    exact Dict.isSome_foldl_update (.inr ⟨s, hmem, (hall s hmem).selected id hid⟩)

mutual

theorem known_executeOperation (nautobot : Nautobot) (faults : Faults) (path : List ℕ)
    (devices : List DeviceInfo) :
    ∀ op, (executeOperation nautobot faults path devices op).Known
  | ⟨type, conditions, nested⟩ => by
    have hconditions : ∀ devices (l : List (LogicalCondition × ℕ)), ∀ s ∈ l.map fun p =>
        executeCondition nautobot devices (faults.raises path p.2) p.1, s.Known := by
      intro devices l s hs
      obtain ⟨p, -, rfl⟩ := List.mem_map.mp hs
      exact known_executeCondition nautobot devices _ _
    unfold executeOperation
    dsimp only
    split
    · exact known_empty
    · refine known_finishOperation (fun s hs => ?_) (hconditions _ _)
        (known_executeNestedOperations nautobot faults path _ 0 nested)
      rw [List.mem_singleton.mp hs]
      exact known_packDevices _ _
    · exact known_finishOperation nofun (hconditions _ _)
        (known_executeNestedOperations nautobot faults path devices 0 nested)

theorem known_executeNestedOperations (nautobot : Nautobot) (faults : Faults) (path : List ℕ)
    (devices : List DeviceInfo) : ∀ i ops,
      ∀ p ∈ executeNestedOperations nautobot faults path devices i ops, p.2.Known
  | i, [] => by
    unfold executeNestedOperations
    nofun
  | i, op :: ops => by
    unfold executeNestedOperations
    intro p hp
    rcases List.mem_cons.mp hp with rfl | hp
    · exact known_executeOperation nautobot faults (i :: path) devices op
    · exact known_executeNestedOperations nautobot faults path devices (i + 1) ops p hp

end

end Data

section Preview

def returnedIds (nautobot : Nautobot) (faults : Faults) (devices : List DeviceInfo)
    (operations : List LogicalOperation) : Finset String :=
  ((previewInventory nautobot faults devices operations).1.map DeviceInfo.id).toFinset

theorem mem_previewIds {executed : List (LogicalOperation × Selection)} {id : String}
    (h : id ∈ previewIds executed) : ∃ p ∈ executed, id ∈ p.2.ids := by
  have hfold : ∀ (l : List (LogicalOperation × Selection)) (a : Finset String),
      id ∈ l.foldl (fun result p => previewStep result p.1 p.2.ids) a →
      id ∈ a ∨ ∃ p ∈ l, id ∈ p.2.ids := by
    intro l
    induction l with
    | nil => exact fun a h => .inl h
    | cons p l ih =>
      intro a h
      rcases ih _ h with h | ⟨q, hq, h⟩
      · have hstep : id ∈ a ∨ id ∈ p.2.ids := by
          dsimp only [previewStep] at h
          split at h
          · split at h
            · cases h
            · exact .inr h
          · split at h
            · exact .inl (Finset.mem_sdiff.mp h).1
            · exact .inl (Finset.mem_inter.mp h).1
        exact hstep.imp_right fun h => ⟨p, List.mem_cons_self, h⟩
      · exact .inr ⟨q, List.mem_cons_of_mem _ hq, h⟩
  exact (hfold executed ∅ h).resolve_left (Finset.notMem_empty _)

/-- A preview returns the devices that are left after all operations. -/
theorem returnedIds_eq {nautobot : Nautobot} {faults : Faults} {devices : List DeviceInfo}
    {operations : List LogicalOperation} (h : operations ≠ []) :
    returnedIds nautobot faults devices operations =
      previewIds (executeOperations nautobot faults devices operations) := by
  have hknown := known_executeNestedOperations nautobot faults [] devices 0 operations
  unfold returnedIds previewInventory
  rw [if_neg (by simpa using h)]
  dsimp only
  ext id
  simp only [List.mem_toFinset, List.mem_map, List.mem_filterMap]
  constructor
  · rintro ⟨d, ⟨p, hp, hd⟩, rfl⟩
    split at hd
    · rename_i hleft
      cases hd
      have hown : p.2.id = p.1 := by
        rcases Dict.of_get?_foldl_update (Dict.get?_eq_some_iff.mpr hp) with hget | ⟨q, hq, hget⟩
        · cases hget
        · exact (hknown q hq).own _ _ hget
      rw [hown]
      exact hleft
    · cases hd
  · intro hid
    obtain ⟨p, hp, hsel⟩ := mem_previewIds hid
    have hsome := Dict.isSome_foldl_update (d := ∅) (f := fun q : LogicalOperation × Selection =>
      q.2.data) (.inr ⟨p, hp, (hknown p hp).selected id hsel⟩)
    obtain ⟨d, hd⟩ := Option.isSome_iff_exists.mp hsome
    refine ⟨d, ⟨(id, d), Dict.get?_eq_some_iff.mp hd, if_pos hid⟩, ?_⟩
    rcases Dict.of_get?_foldl_update hd with hget | ⟨q, hq, hget⟩
    · cases hget
    · exact (hknown q hq).own _ _ hget

theorem previewStep_mono {a b : Finset String} (hab : a ⊆ b) (hempty : a = ∅ → b = ∅)
    {p q : LogicalOperation × Selection} (h : NestedSided true false p q) :
    previewStep a p.1 p.2.ids ⊆ previewStep b q.1 q.2.ids := by
  obtain ⟨hop, hids⟩ := h
  rw [← hop]
  unfold previewStep
  by_cases ha : a = ∅
  · rw [if_pos ha, if_pos (hempty ha)]
    split
    · exact Finset.Subset.refl _
    · rename_i ht
      rw [if_neg ht] at hids
      exact hids
  · have hb : b ≠ ∅ := fun hb => ha (Finset.subset_empty.mp (hb ▸ hab))
    rw [if_neg ha, if_neg hb]
    split
    · rename_i ht
      rw [if_pos ht] at hids
      exact Finset.sdiff_subset_sdiff hab (hids.resolve_left nofun)
    · rename_i ht
      rw [if_neg ht] at hids
      exact Finset.inter_subset_inter hab hids

def leftAfter (nautobot : Nautobot) (faults : Faults) (devices : List DeviceInfo)
    (operations : List LogicalOperation) (n : ℕ) : Finset String :=
  previewIds ((executeOperations nautobot faults devices operations).take n)

theorem previewIds_mono {xs ys : List (LogicalOperation × Selection)}
    (h : List.Forall₂ (NestedSided true false) xs ys)
    (hrestart : ∀ n < xs.length, previewIds (xs.take n) = ∅ → previewIds (ys.take n) = ∅) :
    previewIds xs ⊆ previewIds ys := by
  have hfold : ∀ {xs ys : List (LogicalOperation × Selection)},
      List.Forall₂ (NestedSided true false) xs ys → ∀ a b : Finset String, a ⊆ b →
      (∀ n < xs.length,
        (xs.take n).foldl (fun result p => previewStep result p.1 p.2.ids) a = ∅ →
        (ys.take n).foldl (fun result p => previewStep result p.1 p.2.ids) b = ∅) →
      xs.foldl (fun result p => previewStep result p.1 p.2.ids) a ⊆
        ys.foldl (fun result p => previewStep result p.1 p.2.ids) b := by
    intro xs ys h
    induction h with
    | nil => exact fun a b hab _ => hab
    | cons hpq _ ih =>
      intro a b hab hrestart
      refine ih _ _ (previewStep_mono hab (hrestart 0 (by simp)) hpq) fun n hn => ?_
      exact hrestart (n + 1) (by simpa using hn)
  exact hfold h ∅ ∅ (Finset.Subset.refl _) hrestart

/-- Failed conditions add no device, if none of them stands where devices are excluded and they
empty no result that another operation then starts again. -/
theorem previewInventory_failures {nautobot : Nautobot} {faults : Faults}
    {devices : List DeviceInfo} {operations : List LogicalOperation}
    (hside : RaisesOnlyIn faults.raises true false [] 0 operations)
    (hrestart : ∀ n < operations.length, leftAfter nautobot faults devices operations n = ∅ →
      leftAfter nautobot faults.quiet devices operations n = ∅) :
    returnedIds nautobot faults devices operations ⊆
      returnedIds nautobot faults.quiet devices operations := by
  by_cases hne : operations = []
  · subst hne
    exact Finset.Subset.refl _
  · rw [returnedIds_eq hne, returnedIds_eq hne]
    have hsided : List.Forall₂ (NestedSided true false)
        (executeOperations nautobot faults devices operations)
        (executeOperations nautobot faults.quiet devices operations) :=
      executeNestedOperations_sided [] devices 0 operations hside
    have hlength : ∀ i ops, (executeNestedOperations nautobot faults [] devices i ops).length =
        ops.length := by
      intro i ops
      induction ops generalizing i with
      | nil => rfl
      | cons op ops ih => simp [executeNestedOperations, ih]
    refine previewIds_mono hsided fun n hn => hrestart n ?_
    rwa [executeOperations, hlength] at hn

/-- A core device at the location `dc1`. -/
def coreDevice : DeviceInfo := { id := "d1", name := some "core1", tags := ["core"] }

def oneSite : Nautobot where
  queryDevicesByLocation value negate :=
    .ok (if (value == "dc1") != negate then [coreDevice] else [])
  queryDevicesByIpPrefix _ _ := .ok []
  queryDevicesByPrimaryPrefix _ _ := .ok []
  lower := String.toLower
  str _ := ""

def isCore : LogicalCondition := ⟨"tag", "equals", "core"⟩

def atDc1 : LogicalCondition := ⟨"location", "equals", "dc1"⟩

def unanswered (place : List ℕ) : Faults where
  raises path i := path == place && i == 0
  lookupFails _ := false

/-- Core devices that are not at the location: when the location is not known, those at it stay. -/
theorem excludedSite_stays :
    returnedIds oneSite (unanswered [0, 0]) [coreDevice]
      [⟨"AND", [isCore], [⟨"NOT", [atDc1], []⟩]⟩] = {"d1"} ∧
    returnedIds oneSite (unanswered [0, 0]).quiet [coreDevice]
      [⟨"AND", [isCore], [⟨"NOT", [atDc1], []⟩]⟩] = ∅ := by
  decide +kernel

/-- Devices at the location: without the location there are none. -/
theorem unknownSite_shrinks :
    RaisesOnlyIn (unanswered [0]).raises true false [] 0 [⟨"OR", [atDc1], []⟩] ∧
    returnedIds oneSite (unanswered [0]) [coreDevice] [⟨"OR", [atDc1], []⟩] ⊆
      returnedIds oneSite (unanswered [0]).quiet [coreDevice] [⟨"OR", [atDc1], []⟩] ∧
    returnedIds oneSite (unanswered [0]) [coreDevice] [⟨"OR", [atDc1], []⟩] = ∅ ∧
    returnedIds oneSite (unanswered [0]).quiet [coreDevice] [⟨"OR", [atDc1], []⟩] = {"d1"} := by
  have hside : RaisesOnlyIn (unanswered [0]).raises true false [] 0 [⟨"OR", [atDc1], []⟩] := by
    have ht : (⟨"OR", [atDc1], []⟩ : LogicalOperation).type ≠ .not := by decide +kernel
    simp [RaisesOnlyIn, RaisesOnly, ht]
  refine ⟨hside, previewInventory_failures hside fun n hn _ => ?_, by decide +kernel,
    by decide +kernel⟩
  obtain rfl : n = 0 := by simpa using hn
  rfl

end Preview

end Manus
