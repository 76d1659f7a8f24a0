import Manus.Inventory.Failures

/-! # The top level of an inventory

The operations at the top are meant to be combined in any order: what all of
them select, less what the NOTs among them select. The loop over them reads an
empty result as the start, so an operation that is reached with nothing left
starts again and what stood before it is forgotten.
-/

namespace Manus

def Faults.none : Faults := ⟨fun _ _ => false, fun _ => false⟩

def combined (executed : List (LogicalOperation × Selection)) : Set String :=
  {id | (∀ p ∈ executed, p.1.type ≠ .not → id ∈ p.2.ids) ∧
    ∀ p ∈ executed, p.1.type = .not → id ∉ p.2.ids}

/-- Where a plain operation is reached with nothing left, it and the operations behind it select
no device that one of the operations before it rules out. -/
def RestartsKeep (executed : List (LogicalOperation × Selection)) : Prop :=
  ∀ before p after, executed = before ++ p :: after → p.1.type ≠ .not →
    previewIds before = ∅ → combined (p :: after) ⊆ combined executed

section Loop

variable {a : Finset String} {id : String} {p : LogicalOperation × Selection}
  {executed : List (LogicalOperation × Selection)}

def previewFrom (a : Finset String) (executed : List (LogicalOperation × Selection)) :
    Finset String := executed.foldl (fun result p => previewStep result p.1 p.2.ids) a

theorem previewFrom_cons : previewFrom a (p :: executed) =
    previewFrom (previewStep a p.1 p.2.ids) executed := rfl

theorem previewStep_empty (op : LogicalOperation) (selected : Finset String) :
    previewStep ∅ op selected = if op.type = .not then ∅ else selected := if_pos rfl

theorem previewStep_of_ne (h : a ≠ ∅) (op : LogicalOperation) (selected : Finset String) :
    previewStep a op selected = if op.type = .not then a \ selected else a ∩ selected := if_neg h

theorem combined_nil (id : String) : id ∈ combined [] :=
  ⟨fun _ hp => absurd hp List.not_mem_nil, fun _ hp => absurd hp List.not_mem_nil⟩

theorem mem_combined_cons :
    id ∈ combined (p :: executed) ↔
      (p.1.type ≠ .not → id ∈ p.2.ids) ∧ (p.1.type = .not → id ∉ p.2.ids) ∧
        id ∈ combined executed := by
  simp only [combined, List.forall_mem_cons, Set.mem_ofPred_eq]
  tauto

theorem combined_perm {executed' : List (LogicalOperation × Selection)}
    (h : executed.Perm executed') : combined executed = combined executed' := by
  ext id
  simp only [combined, Set.mem_ofPred_eq, h.mem_iff]

theorem mem_previewFrom_of_combined (ha : id ∈ a) (h : id ∈ combined executed) :
    id ∈ previewFrom a executed := by
  induction executed generalizing a with
  | nil => exact ha
  | cons p executed ih =>
    obtain ⟨hplain, hnot, hrest⟩ := mem_combined_cons.mp h
    rw [previewFrom_cons]
    refine ih ?_ hrest
    rw [previewStep_of_ne (Finset.ne_empty_of_mem ha)]
    split
    · rename_i ht
      exact Finset.mem_sdiff.mpr ⟨ha, hnot ht⟩
    · rename_i ht
      exact Finset.mem_inter.mpr ⟨ha, hplain ht⟩

theorem combined_subset_previewFrom (ht : p.1.type ≠ .not) :
    combined (p :: executed) ⊆ previewFrom ∅ (p :: executed) := by
  intro id hid
  obtain ⟨hplain, -, hrest⟩ := mem_combined_cons.mp hid
  rw [previewFrom_cons, previewStep_empty, if_neg ht]
  exact mem_previewFrom_of_combined (hplain ht) hrest

/-- A device that is left in the end was left all the time, or came in with the operation at which
the loop last started again. -/
theorem mem_previewFrom (h : id ∈ previewFrom a executed) :
    (id ∈ a ∧ id ∈ combined executed) ∨ ∃ before p after, executed = before ++ p :: after ∧
      p.1.type ≠ .not ∧ previewFrom a before = ∅ ∧ id ∈ combined (p :: after) := by
  induction executed generalizing a with
  | nil => exact .inl ⟨h, combined_nil id⟩
  | cons q executed ih =>
    rw [previewFrom_cons] at h
    rcases ih h with ⟨hstep, hrest⟩ | ⟨before, p, after, rfl, ht, hempty, hid⟩
    · by_cases ha : a = ∅
      · subst ha
        rw [previewStep_empty] at hstep
        split at hstep
        · cases hstep
        · rename_i ht
          exact .inr ⟨[], q, executed, rfl, ht, rfl,
            mem_combined_cons.mpr ⟨fun _ => hstep, fun h => absurd h ht, hrest⟩⟩
      · rw [previewStep_of_ne ha] at hstep
        split at hstep
        · rename_i ht
          obtain ⟨hmem, hnot⟩ := Finset.mem_sdiff.mp hstep
          exact .inl ⟨hmem, mem_combined_cons.mpr ⟨fun h => absurd ht h, fun _ => hnot, hrest⟩⟩
        · rename_i ht
          obtain ⟨hmem, hsel⟩ := Finset.mem_inter.mp hstep
          exact .inl ⟨hmem, mem_combined_cons.mpr ⟨fun _ => hsel, fun h => absurd h ht, hrest⟩⟩
    · exact .inr ⟨q :: before, p, after, rfl, ht, hempty, hid⟩

theorem previewIds_append (before after : List (LogicalOperation × Selection)) :
    previewIds (before ++ after) = previewFrom (previewIds before) after :=
  List.foldl_append

theorem previewIds_nots (h : ∀ p ∈ executed, p.1.type = .not) : previewIds executed = ∅ := by
  induction executed with
  | nil => rfl
  | cons p executed ih =>
    change previewFrom ∅ (p :: executed) = ∅
    rw [previewFrom_cons, previewStep_empty, if_pos (h p List.mem_cons_self)]
    exact ih fun q hq => h q (List.mem_cons_of_mem _ hq)

theorem exists_first_plain (h : ∃ p ∈ executed, p.1.type ≠ .not) :
    ∃ before p after, executed = before ++ p :: after ∧ p.1.type ≠ .not ∧
      ∀ q ∈ before, q.1.type = .not := by
  induction executed with
  | nil => simp at h
  | cons q executed ih =>
    by_cases ht : q.1.type = .not
    · obtain ⟨p, hp, hplain⟩ := h
      have hmem : p ∈ executed := (List.mem_cons.mp hp).resolve_left fun he =>
        hplain (he ▸ ht)
      obtain ⟨before, p, after, rfl, hp, hbefore⟩ := ih ⟨p, hmem, hplain⟩
      exact ⟨q :: before, p, after, rfl, hp, List.forall_mem_cons.mpr ⟨ht, hbefore⟩⟩
    · exact ⟨[], q, executed, rfl, ht, fun p hp => nomatch hp⟩

theorem previewIds_eq_combined_iff (h : ∃ p ∈ executed, p.1.type ≠ .not) :
    (previewIds executed : Set String) = combined executed ↔ RestartsKeep executed := by
  constructor
  · intro heq before p after he ht hempty
    rw [← heq, he, previewIds_append, hempty]
    exact combined_subset_previewFrom ht
  · intro hkeep
    refine Set.Subset.antisymm (fun id hid => ?_) fun id hid => ?_
    · rcases mem_previewFrom hid with ⟨hnone, -⟩ | ⟨before, p, after, he, ht, hempty, hid⟩
      · cases hnone
      · exact hkeep before p after he ht hempty hid
    · obtain ⟨before, p, after, rfl, ht, hnots⟩ := exists_first_plain h
      have hrest : id ∈ combined (p :: after) :=
        ⟨fun q hq => hid.1 q (List.mem_append_right _ hq),
          fun q hq => hid.2 q (List.mem_append_right _ hq)⟩
      rw [Finset.mem_coe, previewIds_append, previewIds_nots hnots]
      exact combined_subset_previewFrom ht hrest

theorem restartsKeep_of_nots (h : ∀ q ∈ executed, q.1.type = .not) :
    RestartsKeep (p :: executed) := by
  rintro (_ | ⟨q, before⟩) p' after he ht -
  · rw [he]
    exact subset_rfl
  · obtain ⟨-, rfl⟩ := List.cons.inj he
    exact absurd (h p' (List.mem_append_right _ List.mem_cons_self)) ht

end Loop

section Order

variable {nautobot : Nautobot} {faults : Faults}

mutual

theorem executeOperation_place (hr : ∀ path path', faults.raises path = faults.raises path')
    (hl : ∀ path path', faults.lookupFails path = faults.lookupFails path')
    (path path' : List ℕ) (devices : List DeviceInfo) :
    ∀ op, executeOperation nautobot faults path devices op =
      executeOperation nautobot faults path' devices op
  | ⟨type, conditions, nested⟩ => by
    have hnested := fun devices =>
      executeNestedOperations_place hr hl path path' devices 0 0 nested
    unfold executeOperation
    simp only [hr path path', hl path path', hnested]

theorem executeNestedOperations_place
    (hr : ∀ path path', faults.raises path = faults.raises path')
    (hl : ∀ path path', faults.lookupFails path = faults.lookupFails path')
    (path path' : List ℕ) (devices : List DeviceInfo) (i j : ℕ) :
    ∀ ops, executeNestedOperations nautobot faults path devices i ops =
      executeNestedOperations nautobot faults path' devices j ops
  | [] => by
    unfold executeNestedOperations
    rfl
  | op :: ops => by
    unfold executeNestedOperations
    rw [executeOperation_place hr hl (i :: path) (j :: path') devices op,
      executeNestedOperations_place hr hl path path' devices (i + 1) (j + 1) ops]

end

theorem executeNestedOperations_fst (path : List ℕ) (devices : List DeviceInfo) (i : ℕ)
    (ops : List LogicalOperation) :
    (executeNestedOperations nautobot faults path devices i ops).map Prod.fst = ops := by
  induction ops generalizing i with
  | nil =>
    unfold executeNestedOperations
    rfl
  | cons op ops ih =>
    unfold executeNestedOperations
    rw [List.map_cons, ih]

theorem returnedIds_of_nots {op : LogicalOperation} {nots : List LogicalOperation}
    (ht : op.type ≠ .not) (hnots : ∀ n ∈ nots, n.type = .not) (devices : List DeviceInfo) :
    (returnedIds nautobot faults devices (op :: nots) : Set String) =
      combined (executeOperations nautobot faults devices (op :: nots)) := by
  have hplain : ∀ (s : Selection) rest, ∃ p ∈ (op, s) :: rest, p.1.type ≠ .not :=
    fun s rest => ⟨(op, s), List.mem_cons_self, ht⟩
  rw [returnedIds_eq (List.cons_ne_nil _ _), executeOperations, executeNestedOperations]
  refine (previewIds_eq_combined_iff (hplain _ _)).mpr ?_
  refine restartsKeep_of_nots fun q hq => hnots q.1 ?_
  have hmem := List.mem_map_of_mem (f := Prod.fst) hq
  rwa [executeNestedOperations_fst] at hmem

theorem executeOperations_eq_map (devices : List DeviceInfo) (operations : List LogicalOperation) :
    executeOperations nautobot .none devices operations =
      operations.map fun op => (op, executeOperation nautobot .none [] devices op) := by
  unfold executeOperations
  generalize 0 = i
  induction operations generalizing i with
  | nil =>
    unfold executeNestedOperations
    rfl
  | cons op operations ih =>
    unfold executeNestedOperations
    rw [ih, List.map_cons, executeOperation_place (fun _ _ => rfl) (fun _ _ => rfl) [i] []]

/-- The result at the top is what all plain operations select, less what the NOTs select, if and
only if the loop forgets nothing where it starts again; among orders of the operations in which it
does not, all give the same devices. -/
theorem previewInventory_combines_iff (nautobot : Nautobot) (devices : List DeviceInfo)
    {operations : List LogicalOperation} (h : ∃ op ∈ operations, op.type ≠ .not) :
    ((returnedIds nautobot .none devices operations : Set String) =
        combined (executeOperations nautobot .none devices operations) ↔
      RestartsKeep (executeOperations nautobot .none devices operations)) ∧
    (RestartsKeep (executeOperations nautobot .none devices operations) →
      ∀ operations' : List LogicalOperation, operations.Perm operations' →
        RestartsKeep (executeOperations nautobot .none devices operations') →
        returnedIds nautobot .none devices operations' =
          returnedIds nautobot .none devices operations) := by
  have hiff : ∀ {operations : List LogicalOperation}, (∃ op ∈ operations, op.type ≠ .not) →
      ((returnedIds nautobot .none devices operations : Set String) =
          combined (executeOperations nautobot .none devices operations) ↔
        RestartsKeep (executeOperations nautobot .none devices operations)) := by
    rintro operations ⟨op, hop, ht⟩
    rw [returnedIds_eq (List.ne_nil_of_mem hop)]
    refine previewIds_eq_combined_iff ?_
    rw [executeOperations_eq_map]
    exact ⟨_, List.mem_map_of_mem hop, ht⟩
  refine ⟨hiff h, fun hkeep operations' hperm hkeep' => ?_⟩
  have h' : ∃ op ∈ operations', op.type ≠ .not := by
    obtain ⟨op, hop, ht⟩ := h
    exact ⟨op, hperm.mem_iff.mp hop, ht⟩
  have hcombined : combined (executeOperations nautobot .none devices operations') =
      combined (executeOperations nautobot .none devices operations) := by
    rw [executeOperations_eq_map, executeOperations_eq_map]
    exact (combined_perm (hperm.map _)).symm
  exact Finset.coe_injective
    (((hiff h').mpr hkeep').trans (hcombined.trans ((hiff h).mpr hkeep).symm))

def threeRoles : List DeviceInfo :=
  [{ id := "d1", role := some "leaf" }, { id := "d2", role := some "spine" },
    { id := "d3", role := some "core" }]

def hasRole (role : String) : LogicalOperation := ⟨"AND", [⟨"role", "equals", role⟩], []⟩

def notRole (role : String) : LogicalOperation := ⟨"NOT", [⟨"role", "equals", role⟩], []⟩

/-- No device has all three roles, but the last operation starts again. -/
theorem threeRoles_lastWins :
    (∃ op ∈ [hasRole "leaf", hasRole "spine", hasRole "core"], op.type ≠ .not) ∧
      ¬ (returnedIds oneSite .none threeRoles [hasRole "leaf", hasRole "spine", hasRole "core"] :
        Set String) = combined (executeOperations oneSite .none threeRoles
          [hasRole "leaf", hasRole "spine", hasRole "core"]) := by
  refine ⟨⟨hasRole "leaf", List.mem_cons_self, by decide⟩, fun heq => ?_⟩
  have hleft : "d3" ∈ returnedIds oneSite .none threeRoles
      [hasRole "leaf", hasRole "spine", hasRole "core"] := by decide +kernel
  have hmem : "d3" ∈ combined (executeOperations oneSite .none threeRoles
      [hasRole "leaf", hasRole "spine", hasRole "core"]) := heq ▸ hleft
  have hleaf := hmem.1 _ List.mem_cons_self (by decide +kernel)
  revert hleaf
  decide +kernel

theorem leafNotSpine_combines :
    (returnedIds oneSite .none threeRoles [hasRole "leaf", notRole "spine"] : Set String) =
      combined (executeOperations oneSite .none threeRoles [hasRole "leaf", notRole "spine"]) := by
  refine (previewInventory_combines_iff oneSite threeRoles
    ⟨hasRole "leaf", List.mem_cons_self, by decide⟩).1.mpr ?_
  rw [executeOperations_eq_map]
  refine restartsKeep_of_nots fun q hq => ?_
  obtain ⟨op, hop, rfl⟩ := List.mem_map.mp hq
  cases List.mem_singleton.mp hop
  decide

end Order

end Manus
