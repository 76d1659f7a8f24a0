import Manus.Inventory.Preview
import Manus.Inventory.Reading

/-! # Saved inventories

A saved inventory is a tree of conditions and groups. It is turned into logical
operations before it is evaluated. A NOT group becomes a NOT operation, and this
loses how the items of the group were to be combined: a NOT operation excludes
what any of its items selects.
-/

namespace Manus

inductive GroupLogic where
  | and
  | or
  | not
  deriving DecidableEq, Repr

inductive InternalLogic where
  | and
  | or
  deriving DecidableEq, Repr

def InternalLogic.name : InternalLogic → String
  | .and => "AND"
  | .or => "OR"

inductive ConditionItem where
  | condition (c : LogicalCondition)
  | group (logic : GroupLogic) (internalLogic : InternalLogic) (items : List ConditionItem)

structure ConditionTree where
  internalLogic : InternalLogic := .and
  items : List ConditionItem

namespace ConditionItem

def isNot : ConditionItem → Bool
  | .group .not _ _ => true
  | _ => false

def condition? : ConditionItem → Option LogicalCondition
  | .condition c => some c
  | .group _ _ _ => none

end ConditionItem

section Conversion

mutual

def convertItem : ConditionItem → LogicalOperation
  | .condition c => ⟨"AND", [c], []⟩
  | .group _ internalLogic items =>
    ⟨internalLogic.name, items.filterMap ConditionItem.condition?, convertGroups items⟩

/-- The operations of the groups among some items; a NOT group becomes a NOT. -/
def convertGroups : List ConditionItem → List LogicalOperation
  | [] => []
  | .condition _ :: items => convertGroups items
  | .group logic internalLogic subItems :: items =>
    let converted := convertItem (.group logic internalLogic subItems)
    (if logic = .not then { converted with operationType := "NOT" } else converted) ::
      convertGroups items

end

def isGroupOperation (op : LogicalOperation) : Bool :=
  decide (1 < op.conditions.length) || decide (0 < op.nestedOperations.length)

def joinOperations (internalLogic : InternalLogic) (ops : List LogicalOperation) :
    LogicalOperation :=
  ⟨internalLogic.name,
    (ops.filter fun op => !isGroupOperation op && decide (op.conditions.length = 1)).flatMap
      LogicalOperation.conditions,
    ops.filter isGroupOperation⟩

def treeToOperations (tree : ConditionTree) : List LogicalOperation :=
  let regularItems := (tree.items.filter fun item => !item.isNot).map convertItem
  let notItems := (tree.items.filter ConditionItem.isNot).map fun item =>
    { convertItem item with operationType := "NOT" }
  let main := match regularItems with
    | [] => []
    | [op] => [op]
    | ops => [joinOperations tree.internalLogic ops]
  main ++ notItems

end Conversion

section Meaning

/-- Items combined by the logic of their group; the NOT groups among them exclude. -/
def combineItems (internalLogic : InternalLogic) (items : List (ConditionItem × Bool)) : Bool :=
  let plain := (items.filter fun p => !p.1.isNot).map Prod.snd
  let excluded := (items.filter fun p => p.1.isNot).map Prod.snd
  (match internalLogic with
    | .and => plain.all id
    | .or => plain.any id) && !excluded.any id

mutual

/-- Whether a device for which the given conditions hold satisfies an item. -/
def ConditionItem.meaning (holds : LogicalCondition → Bool) : ConditionItem → Bool
  | .condition c => holds c
  | .group _ internalLogic items => combineItems internalLogic (itemMeanings holds items)

def itemMeanings (holds : LogicalCondition → Bool) :
    List ConditionItem → List (ConditionItem × Bool)
  | [] => []
  | item :: items => (item, item.meaning holds) :: itemMeanings holds items

end

def ConditionTree.meaning (tree : ConditionTree) (holds : LogicalCondition → Bool) : Bool :=
  combineItems tree.internalLogic (itemMeanings holds tree.items)

mutual

def ConditionItem.Proper : ConditionItem → Prop
  | .condition _ => True
  | .group _ _ items => (∃ item ∈ items, item.isNot = false) ∧ ItemsProper items

def ItemsProper : List ConditionItem → Prop
  | [] => True
  | item :: items => item.Proper ∧ ItemsProper items

end

def ConditionTree.Proper (tree : ConditionTree) : Prop :=
  (∃ item ∈ tree.items, item.isNot = false) ∧ ItemsProper tree.items

mutual

/-- A property of the conditions by which an item may narrow the devices down: a condition by
itself, and those directly in an AND group that is no NOT group. -/
def ConditionItem.AllNarrowing (P : LogicalCondition → Prop) : ConditionItem → Prop
  | .condition c => P c
  | .group logic internalLogic items =>
    (logic ≠ .not → internalLogic = .and → ∀ c ∈ items.filterMap ConditionItem.condition?, P c) ∧
      GroupsNarrowing P items

def GroupsNarrowing (P : LogicalCondition → Prop) : List ConditionItem → Prop
  | [] => True
  | .condition _ :: items => GroupsNarrowing P items
  | .group logic internalLogic subItems :: items =>
    (ConditionItem.group logic internalLogic subItems).AllNarrowing P ∧ GroupsNarrowing P items

end

/-- A condition, or the only one of a group. -/
def ConditionItem.lone? : ConditionItem → Option LogicalCondition
  | .condition c => some c
  | .group _ _ [.condition c] => some c
  | .group _ _ _ => none

/-- At the top, where there are several plain items, the lone conditions stand together. -/
def ConditionTree.AllNarrowing (P : LogicalCondition → Prop) (tree : ConditionTree) : Prop :=
  (match tree.items.filter fun item => !item.isNot with
    | [item] => item.AllNarrowing P
    | items =>
      (tree.internalLogic = .and → ∀ c ∈ items.filterMap ConditionItem.lone?, P c) ∧
        ∀ item ∈ items, item.lone? = none → item.AllNarrowing P) ∧
    ∀ item ∈ tree.items, item.isNot = true → item.AllNarrowing P

mutual

/-- A device that satisfies one of the plain items of a NOT group satisfies the group, for every
NOT group of the item. What stands in a NOT group inside another one has no effect. -/
def ConditionItem.NotsExact (holds : LogicalCondition → Bool) : ConditionItem → Prop
  | .condition _ => True
  | .group logic internalLogic items =>
    (logic = .not → (∃ item ∈ items, item.isNot = false ∧ item.meaning holds = true) →
      combineItems internalLogic (itemMeanings holds items) = true) ∧
    NotsExactIn holds (decide (logic = .not)) items

def NotsExactIn (holds : LogicalCondition → Bool) (inNot : Bool) : List ConditionItem → Prop
  | [] => True
  | item :: items =>
    ((inNot = true ∧ item.isNot = true) ∨ item.NotsExact holds) ∧ NotsExactIn holds inNot items

end

end Meaning

section Structure

variable {holds : LogicalCondition → Bool} {items : List ConditionItem}

theorem itemMeanings_eq_map :
    itemMeanings holds items = items.map fun item => (item, item.meaning holds) := by
  induction items with
  | nil =>
    unfold itemMeanings
    rfl
  | cons item items ih =>
    unfold itemMeanings
    rw [ih, List.map_cons]

theorem combineItems_iff {internalLogic : InternalLogic} :
    combineItems internalLogic (itemMeanings holds items) = true ↔
      (match internalLogic with
        | .and => ∀ item ∈ items, item.isNot = false → item.meaning holds = true
        | .or => ∃ item ∈ items, item.isNot = false ∧ item.meaning holds = true) ∧
      ∀ item ∈ items, item.isNot = true → item.meaning holds = false := by
  rw [itemMeanings_eq_map]
  cases internalLogic <;> simp [combineItems, List.filter_map, or_iff_not_imp_left]

theorem itemsProper_iff : ItemsProper items ↔ ∀ item ∈ items, item.Proper := by
  induction items with
  | nil => simp [ItemsProper]
  | cons item items ih => simp [ItemsProper, ih]

theorem notsExactIn_iff {inNot : Bool} : NotsExactIn holds inNot items ↔
    ∀ item ∈ items, (inNot = true ∧ item.isNot = true) ∨ item.NotsExact holds := by
  induction items with
  | nil => simp [NotsExactIn]
  | cons item items ih => simp [NotsExactIn, ih]

def convertInGroup (item : ConditionItem) : LogicalOperation :=
  if item.isNot then { convertItem item with operationType := "NOT" } else convertItem item

theorem mem_convertGroups {op : LogicalOperation} : op ∈ convertGroups items ↔
    ∃ item ∈ items, item.condition? = none ∧ op = convertInGroup item := by
  induction items with
  | nil => simp [convertGroups]
  | cons item items ih =>
    cases item with
    | condition c => simp [convertGroups, ih, ConditionItem.condition?]
    | group logic internalLogic subItems =>
      unfold convertGroups
      rw [List.mem_cons, ih, List.exists_mem_cons_iff]
      refine or_congr_left ?_
      simp only [ConditionItem.condition?, true_and]
      cases logic <;> exact Iff.rfl

theorem mem_groupConditions {c : LogicalCondition} :
    c ∈ items.filterMap ConditionItem.condition? ↔ .condition c ∈ items := by
  rw [List.mem_filterMap]
  constructor
  · rintro ⟨item, hmem, hc⟩
    cases item with
    | condition c' =>
      cases hc
      exact hmem
    | group => cases hc
  · exact fun hmem => ⟨_, hmem, rfl⟩

section Types

variable (conditions : List LogicalCondition) (nested : List LogicalOperation)

theorem type_and : (⟨"AND", conditions, nested⟩ : LogicalOperation).type = .and := by
  have hname : String.ofList ("AND".toList.map Char.toUpper) = "AND" := by decide
  rw [LogicalOperation.type, hname]
  rfl

theorem type_or : (⟨"OR", conditions, nested⟩ : LogicalOperation).type = .or := by
  have hname : String.ofList ("OR".toList.map Char.toUpper) = "OR" := by decide
  rw [LogicalOperation.type, hname]
  rfl

theorem type_not : (⟨"NOT", conditions, nested⟩ : LogicalOperation).type = .not := by
  have hname : String.ofList ("NOT".toList.map Char.toUpper) = "NOT" := by decide
  rw [LogicalOperation.type, hname]
  rfl

theorem type_internal (internalLogic : InternalLogic) :
    (⟨internalLogic.name, conditions, nested⟩ : LogicalOperation).type ≠ .not := by
  cases internalLogic with
  | and =>
    rw [InternalLogic.name, type_and]
    nofun
  | or =>
    rw [InternalLogic.name, type_or]
    nofun

end Types

end Structure

section Correctness

variable {holds : LogicalCondition → Bool} {items : List ConditionItem} {item : ConditionItem}

theorem selects_condition (holds : LogicalCondition → Bool) (c : LogicalCondition) :
    (⟨"AND", [c], []⟩ : LogicalOperation).selects holds = holds c := by
  rw [Bool.eq_iff_iff, selects_iff, type_and]
  simp

theorem convertInGroup_type : (convertInGroup item).type = .not ↔ item.isNot = true := by
  unfold convertInGroup
  split
  · rename_i hnot
    exact iff_of_true (type_not _ _) hnot
  · rename_i hnot
    refine iff_of_false ?_ hnot
    cases item with
    | condition c =>
      unfold convertItem
      rw [type_and]
      nofun
    | group logic internalLogic subItems =>
      unfold convertItem
      exact type_internal _ _ internalLogic

theorem exists_plain_iff (holds : LogicalCondition → Bool) (items : List ConditionItem)
    (A : Bool → Prop) :
    ((∃ c ∈ items.filterMap ConditionItem.condition?, A (holds c)) ∨
      ∃ n ∈ convertGroups items, n.type ≠ .not ∧ A (n.selects holds)) ↔
    ∃ item ∈ items, item.isNot = false ∧ A ((convertInGroup item).selects holds) := by
  constructor
  · rintro (⟨c, hc, ha⟩ | ⟨n, hn, ht, ha⟩)
    · refine ⟨_, mem_groupConditions.mp hc, rfl, ?_⟩
      rw [convertInGroup, convertItem]
      exact (selects_condition holds c).symm ▸ ha
    · obtain ⟨item, hmem, -, rfl⟩ := mem_convertGroups.mp hn
      exact ⟨item, hmem, by simpa using mt convertInGroup_type.mpr ht, ha⟩
  · rintro ⟨item, hmem, hnot, ha⟩
    cases item with
    | condition c =>
      rw [convertInGroup, convertItem] at ha
      exact .inl ⟨c, mem_groupConditions.mpr hmem, (selects_condition holds c) ▸ ha⟩
    | group logic internalLogic subItems =>
      refine .inr ⟨_, mem_convertGroups.mpr ⟨_, hmem, rfl, rfl⟩, fun ht => ?_, ha⟩
      rw [convertInGroup_type, hnot] at ht
      cases ht

theorem forall_plain_iff :
    ((∀ c ∈ items.filterMap ConditionItem.condition?, holds c = true) ∧
      ∀ n ∈ convertGroups items, n.type ≠ .not → n.selects holds = true) ↔
    ∀ item ∈ items, item.isNot = false → (convertInGroup item).selects holds = true := by
  have hsome := not_congr (exists_plain_iff holds items fun b => ¬ b = true)
  simpa only [not_or, not_exists, not_and, not_not] using hsome

theorem forall_not_iff :
    (∀ n ∈ convertGroups items, n.type = .not → n.selects holds = false) ↔
    ∀ item ∈ items, item.isNot = true → (convertInGroup item).selects holds = false := by
  constructor
  · intro h item hmem hnot
    cases item with
    | condition c => cases hnot
    | group logic internalLogic subItems =>
      exact h _ (mem_convertGroups.mpr ⟨_, hmem, rfl, rfl⟩) (convertInGroup_type.mpr hnot)
  · rintro h n hn ht
    obtain ⟨item, hmem, -, rfl⟩ := mem_convertGroups.mp hn
    exact h item hmem (convertInGroup_type.mp ht)

theorem selects_convertItem_group {logic : GroupLogic} {internalLogic : InternalLogic}
    (hplain : ∃ item ∈ items, item.isNot = false) :
    (convertItem (.group logic internalLogic items)).selects holds = true ↔
      (match internalLogic with
        | .and => ∀ item ∈ items, item.isNot = false → (convertInGroup item).selects holds = true
        | .or => ∃ item ∈ items, item.isNot = false ∧
            (convertInGroup item).selects holds = true) ∧
      ∀ item ∈ items, item.isNot = true → (convertInGroup item).selects holds = false := by
  rw [convertItem, selects_iff]
  cases internalLogic with
  | and =>
    have hsome := (exists_plain_iff holds items fun _ => True).mpr
      (by simpa using hplain)
    rw [InternalLogic.name, type_and]
    dsimp only
    rw [forall_plain_iff, forall_not_iff]
    refine and_iff_right ?_
    rcases hsome with ⟨c, hc, -⟩ | ⟨n, hn, ht, -⟩
    · exact .inl (List.ne_nil_of_mem hc)
    · exact .inr ⟨n, hn, ht⟩
  | or =>
    rw [InternalLogic.name, type_or]
    dsimp only
    rw [exists_plain_iff _ _ fun b => b = true, forall_not_iff]

theorem selects_convertInGroup_not {internalLogic : InternalLogic} :
    (convertInGroup (.group .not internalLogic items)).selects holds = true ↔
      ∃ item ∈ items, item.isNot = false ∧ (convertInGroup item).selects holds = true := by
  have hnot : (ConditionItem.group .not internalLogic items).isNot = true := rfl
  rw [convertInGroup, if_pos hnot, convertItem, selects_iff, type_not]
  dsimp only
  exact exists_plain_iff _ _ fun b => b = true

theorem plain_congr {internalLogic : InternalLogic} {f g : ConditionItem → Bool}
    (h : ∀ item ∈ items, f item = g item) :
    ((match internalLogic with
        | .and => ∀ item ∈ items, item.isNot = false → f item = true
        | .or => ∃ item ∈ items, item.isNot = false ∧ f item = true) ∧
      ∀ item ∈ items, item.isNot = true → f item = false) ↔
    (match internalLogic with
        | .and => ∀ item ∈ items, item.isNot = false → g item = true
        | .or => ∃ item ∈ items, item.isNot = false ∧ g item = true) ∧
      ∀ item ∈ items, item.isNot = true → g item = false := by
  have hall : ∀ (q b : Bool), (∀ item ∈ items, item.isNot = q → f item = b) ↔
      ∀ item ∈ items, item.isNot = q → g item = b := fun q b =>
    forall_congr' fun item => forall_congr' fun hmem => by rw [h item hmem]
  have hsome : (∃ item ∈ items, item.isNot = false ∧ f item = true) ↔
      ∃ item ∈ items, item.isNot = false ∧ g item = true :=
    exists_congr fun item => and_congr_right fun hmem => by rw [h item hmem]
  cases internalLogic with
  | and => exact and_congr (hall false true) (hall true false)
  | or => exact and_congr hsome (hall true false)

mutual

/-- Inside its group, an item selects what it means, as long as its NOT groups do. -/
theorem selects_convertInGroup : ∀ item : ConditionItem, item.Proper → item.NotsExact holds →
    (convertInGroup item).selects holds = item.meaning holds
  | .condition c, _, _ => by
    rw [convertInGroup, convertItem, ConditionItem.meaning]
    exact selects_condition _ c
  | .group logic internalLogic items, hproper, hexact => by
    unfold ConditionItem.Proper at hproper
    unfold ConditionItem.NotsExact at hexact
    unfold ConditionItem.meaning
    have ih := selects_convertInGroup_items items hproper.2
    have hitems := notsExactIn_iff.mp hexact.2
    have hplain : ∀ item ∈ items, item.isNot = false →
        (convertInGroup item).selects holds = item.meaning holds := by
      intro item hmem hnot
      refine ih item hmem ((hitems item hmem).resolve_left ?_)
      simp [hnot]
    rw [Bool.eq_iff_iff]
    by_cases hlogic : logic = .not
    · subst hlogic
      rw [selects_convertInGroup_not]
      have hsame : (∃ item ∈ items, item.isNot = false ∧
          (convertInGroup item).selects holds = true) ↔
          ∃ item ∈ items, item.isNot = false ∧ item.meaning holds = true :=
        exists_congr fun item => and_congr_right fun hmem => and_congr_right fun hnot => by
          rw [hplain item hmem hnot]
      rw [hsame]
      refine ⟨hexact.1 rfl, fun hmeaning => ?_⟩
      -- a group that holds has a plain item that holds
      obtain ⟨item, hmem, hnot⟩ := hproper.1
      rw [combineItems_iff] at hmeaning
      cases internalLogic with
      | and => exact ⟨item, hmem, hnot, hmeaning.1 item hmem hnot⟩
      | or => exact hmeaning.1
    · have hnot : ¬ (ConditionItem.group logic internalLogic items).isNot = true := by
        cases logic <;> simp [ConditionItem.isNot] at hlogic ⊢
      have hall : ∀ item ∈ items, (convertInGroup item).selects holds = item.meaning holds := by
        intro item hmem
        refine ih item hmem ((hitems item hmem).resolve_left ?_)
        simp [hlogic]
      rw [convertInGroup, if_neg hnot, selects_convertItem_group hproper.1, combineItems_iff]
      exact plain_congr hall

theorem selects_convertInGroup_items : ∀ items : List ConditionItem, ItemsProper items →
    ∀ item ∈ items, item.NotsExact holds →
      (convertInGroup item).selects holds = item.meaning holds
  | [], _, item, hmem, _ => absurd hmem List.not_mem_nil
  | item' :: items, hproper, item, hmem, hexact => by
    unfold ItemsProper at hproper
    rcases List.mem_cons.mp hmem with he | hmem
    · rw [he] at hexact ⊢
      exact selects_convertInGroup item' hproper.1 hexact
    · exact selects_convertInGroup_items items hproper.2 item hmem hexact

end

end Correctness

section Root

variable {holds : LogicalCondition → Bool} {ops : List LogicalOperation}

/-- A converted item at the top: it is an AND or an OR and it is not empty. -/
structure Convertible (op : LogicalOperation) : Prop where
  type : op.type = .and ∨ op.type = .or
  parts : op.conditions ≠ [] ∨ op.nestedOperations ≠ []

theorem Convertible.type_ne {op : LogicalOperation} (h : Convertible op) : op.type ≠ .not := by
  rcases h.type with ht | ht <;> rw [ht] <;> nofun

theorem convertItem_convertible {item : ConditionItem} (hproper : item.Proper) :
    Convertible (convertItem item) := by
  cases item with
  | condition c =>
    rw [convertItem]
    exact ⟨.inl (type_and _ _), .inl (List.cons_ne_nil _ _)⟩
  | group logic internalLogic items =>
    unfold ConditionItem.Proper at hproper
    rw [convertItem]
    constructor
    · cases internalLogic with
      | and => exact .inl (type_and _ _)
      | or => exact .inr (type_or _ _)
    · have hsome := (exists_plain_iff (fun _ => true) items fun _ => True).mpr
        (by simpa using hproper.1)
      rcases hsome with ⟨c, hc, -⟩ | ⟨n, hn, -⟩
      · exact .inl (List.ne_nil_of_mem hc)
      · exact .inr (List.ne_nil_of_mem hn)

theorem selects_single (holds : LogicalCondition → Bool) {op : LogicalOperation}
    (ht : op.type = .and ∨ op.type = .or)
    {c : LogicalCondition} (hc : op.conditions = [c]) (hn : op.nestedOperations = []) :
    op.selects holds = holds c := by
  rw [Bool.eq_iff_iff, selects_iff, hc, hn]
  rcases ht with ht | ht <;> rw [ht] <;> simp

theorem single_of_not_group {op : LogicalOperation} (h : Convertible op)
    (hg : isGroupOperation op = false) :
    ∃ c, op.conditions = [c] ∧ op.nestedOperations = [] := by
  simp only [isGroupOperation, Bool.or_eq_false_iff, decide_eq_false_iff_not, not_lt,
    Nat.le_zero, List.length_eq_zero_iff] at hg
  obtain ⟨hlen, hnested⟩ := hg
  have hne := h.parts.resolve_right (not_not.mpr hnested)
  have hone : op.conditions.length = 1 := by
    have := List.length_pos_iff.mpr hne
    omega
  obtain ⟨c, hc⟩ := List.length_eq_one_iff.mp hone
  exact ⟨c, hc, hnested⟩

theorem exists_joined_iff (holds : LogicalCondition → Bool)
    (hops : ∀ op ∈ ops, Convertible op) (internalLogic : InternalLogic) (A : Bool → Prop) :
    ((∃ c ∈ (joinOperations internalLogic ops).conditions, A (holds c)) ∨
      ∃ n ∈ (joinOperations internalLogic ops).nestedOperations, n.type ≠ .not ∧
        A (n.selects holds)) ↔
    ∃ op ∈ ops, A (op.selects holds) := by
  constructor
  · rintro (⟨c, hc, ha⟩ | ⟨n, hn, -, ha⟩)
    · obtain ⟨op, hop, hc⟩ := List.mem_flatMap.mp hc
      obtain ⟨hmem, hsingle⟩ := List.mem_filter.mp hop
      simp only [Bool.and_eq_true, Bool.not_eq_true'] at hsingle
      obtain ⟨c', hc', hn⟩ := single_of_not_group (hops op hmem) hsingle.1
      rw [hc', List.mem_singleton] at hc
      subst hc
      exact ⟨op, hmem, selects_single holds (hops op hmem).type hc' hn ▸ ha⟩
    · exact ⟨n, (List.mem_filter.mp hn).1, ha⟩
  · rintro ⟨op, hmem, ha⟩
    cases hg : isGroupOperation op with
    | true => exact .inr ⟨op, List.mem_filter.mpr ⟨hmem, hg⟩, (hops op hmem).type_ne, ha⟩
    | false =>
      obtain ⟨c, hc, hn⟩ := single_of_not_group (hops op hmem) hg
      rw [selects_single _ (hops op hmem).type hc hn] at ha
      refine .inl ⟨c, List.mem_flatMap.mpr ⟨op, List.mem_filter.mpr ⟨hmem, ?_⟩, ?_⟩, ha⟩
      · simp [hg, hc]
      · simp [hc]

theorem selects_join (hops : ∀ op ∈ ops, Convertible op) (hne : ops ≠ [])
    (internalLogic : InternalLogic) :
    (joinOperations internalLogic ops).selects holds = true ↔
      match internalLogic with
      | .and => ∀ op ∈ ops, op.selects holds = true
      | .or => ∃ op ∈ ops, op.selects holds = true := by
  have hnots : ∀ n ∈ (joinOperations internalLogic ops).nestedOperations, n.type = .not →
      n.selects holds = false := fun n hn ht =>
    absurd ht (hops n (List.mem_filter.mp hn).1).type_ne
  rw [selects_iff]
  cases internalLogic with
  | and =>
    have hall := not_congr (exists_joined_iff holds hops .and fun b => ¬ b = true)
    simp only [not_or, not_exists, not_and, not_not] at hall
    have hsome := (exists_joined_iff holds hops .and fun _ => True).mpr
      (by simpa using List.exists_mem_of_ne_nil ops hne)
    rw [show (joinOperations .and ops).type = .and from type_and _ _]
    dsimp only
    rw [hall]
    refine ⟨fun h => h.2.1, fun h => ⟨?_, h, hnots⟩⟩
    rcases hsome with ⟨c, hc, -⟩ | ⟨n, hn, ht, -⟩
    · exact .inl (List.ne_nil_of_mem hc)
    · exact .inr ⟨n, hn, ht⟩
  | or =>
    rw [show (joinOperations .or ops).type = .or from type_or _ _]
    dsimp only
    rw [exists_joined_iff _ hops .or fun b => b = true]
    exact and_iff_left hnots

theorem exists_main (internalLogic : InternalLogic) (ops : List LogicalOperation) (hne : ops ≠ [])
    (hops : ∀ op ∈ ops, Convertible op) :
    ∃ main, (match ops with
        | [] => []
        | [op] => [op]
        | ops => [joinOperations internalLogic ops]) = [main] ∧ main.type ≠ .not ∧
      ∀ holds, main.selects holds = true ↔
        match internalLogic with
        | .and => ∀ op ∈ ops, op.selects holds = true
        | .or => ∃ op ∈ ops, op.selects holds = true := by
  match ops, hne with
  | [op], _ =>
    refine ⟨op, rfl, (hops op List.mem_cons_self).type_ne, ?_⟩
    cases internalLogic <;> simp
  | op :: op' :: rest, hne =>
    refine ⟨_, rfl, ?_, fun holds => selects_join hops hne internalLogic⟩
    exact type_internal _ _ internalLogic

/-- A tree becomes one plain operation for its plain items, and a NOT for each NOT group. -/
theorem treeToOperations_eq {tree : ConditionTree} (hproper : tree.Proper) :
    ∃ main, treeToOperations tree =
        main :: (tree.items.filter ConditionItem.isNot).map convertInGroup ∧ main.type ≠ .not ∧
      ∀ holds, main.selects holds = true ↔
        match tree.internalLogic with
        | .and => ∀ item ∈ tree.items, item.isNot = false →
            (convertInGroup item).selects holds = true
        | .or => ∃ item ∈ tree.items, item.isNot = false ∧
            (convertInGroup item).selects holds = true := by
  obtain ⟨⟨plain, hplain, hnot⟩, hitems⟩ := hproper
  rw [itemsProper_iff] at hitems
  have hregular : ∀ op, op ∈ (tree.items.filter fun item => !item.isNot).map convertItem ↔
      ∃ item ∈ tree.items, item.isNot = false ∧ op = convertInGroup item := by
    intro op
    simp only [List.mem_map, List.mem_filter, Bool.not_eq_true', and_assoc]
    refine exists_congr fun item => and_congr_right fun _ => and_congr_right fun hnot => ?_
    rw [convertInGroup, if_neg (by simp [hnot]), eq_comm]
  obtain ⟨main, hmain, ht, hselects⟩ := exists_main tree.internalLogic
    ((tree.items.filter fun item => !item.isNot).map convertItem)
    (List.ne_nil_of_mem ((hregular _).mpr ⟨plain, hplain, hnot, rfl⟩)) fun op hop => by
      obtain ⟨item, hmem, rfl⟩ := List.mem_map.mp hop
      exact convertItem_convertible (hitems item (List.mem_filter.mp hmem).1)
  refine ⟨main, ?_, ht, fun holds => ?_⟩
  · unfold treeToOperations
    dsimp only
    rw [hmain, List.singleton_append]
    refine congrArg _ (List.map_congr_left fun item hitem => ?_)
    rw [convertInGroup, if_pos (List.mem_filter.mp hitem).2]
  · rw [hselects holds]
    cases tree.internalLogic with
    | and =>
      constructor
      · exact fun h item hmem hnot => h _ ((hregular _).mpr ⟨item, hmem, hnot, rfl⟩)
      · intro h op hop
        obtain ⟨item, hmem, hnot, rfl⟩ := (hregular op).mp hop
        exact h item hmem hnot
    | or =>
      constructor
      · rintro ⟨op, hop, hsel⟩
        obtain ⟨item, hmem, hnot, rfl⟩ := (hregular op).mp hop
        exact ⟨item, hmem, hnot, hsel⟩
      · rintro ⟨item, hmem, hnot, hsel⟩
        exact ⟨_, (hregular _).mpr ⟨item, hmem, hnot, rfl⟩, hsel⟩

end Root

section Selection

variable {nautobot : Nautobot} {faults : Faults} {devices : List DeviceInfo} {d : DeviceInfo}

theorem LogicalOperation.allNarrowing_iff {P : LogicalCondition → Prop} {op : LogicalOperation} :
    op.AllNarrowing P ↔ (op.type = .and → ∀ c ∈ op.conditions, P c) ∧
      ∀ n ∈ op.nestedOperations, n.AllNarrowing P := by
  obtain ⟨type, conditions, nested⟩ := op
  rw [LogicalOperation.AllNarrowing, nestedNarrowing_iff]

mutual

theorem allNarrowing_convertInGroup {P : LogicalCondition → Prop} :
    ∀ item : ConditionItem, item.AllNarrowing P → (convertInGroup item).AllNarrowing P
  | .condition c, h => by
    unfold ConditionItem.AllNarrowing at h
    rw [convertInGroup, convertItem, LogicalOperation.allNarrowing_iff]
    simpa [ConditionItem.isNot] using fun _ => h
  | .group logic internalLogic items, h => by
    unfold ConditionItem.AllNarrowing at h
    have hnested : ∀ n ∈ (convertInGroup (.group logic internalLogic items)).nestedOperations,
        n.AllNarrowing P := by
      intro n hn
      have hgroups : n ∈ convertGroups items := by
        revert hn
        unfold convertInGroup convertItem
        split <;> exact id
      obtain ⟨item, hmem, hgroup, rfl⟩ := mem_convertGroups.mp hgroups
      exact allNarrowing_convertGroups items h.2 item hmem hgroup
    rw [LogicalOperation.allNarrowing_iff]
    refine ⟨fun ht => ?_, hnested⟩
    by_cases hnot : (ConditionItem.group logic internalLogic items).isNot = true
    · rw [convertInGroup_type.mpr hnot] at ht
      cases ht
    · have hlogic : logic ≠ .not := by
        rintro rfl
        exact hnot rfl
      revert ht
      rw [convertInGroup, if_neg hnot, convertItem]
      cases internalLogic with
      | and => exact fun _ => h.1 hlogic rfl
      | or =>
        rw [InternalLogic.name, type_or]
        exact nofun

theorem allNarrowing_convertGroups {P : LogicalCondition → Prop} :
    ∀ items : List ConditionItem, GroupsNarrowing P items → ∀ item ∈ items,
      item.condition? = none → (convertInGroup item).AllNarrowing P
  | [], _, _, hmem, _ => absurd hmem List.not_mem_nil
  | .condition c :: items, h, item, hmem, hgroup => by
    unfold GroupsNarrowing at h
    rcases List.mem_cons.mp hmem with he | hmem
    · rw [he] at hgroup
      cases hgroup
    · exact allNarrowing_convertGroups items h item hmem hgroup
  | .group logic internalLogic subItems :: items, h, item, hmem, hgroup => by
    unfold GroupsNarrowing at h
    rcases List.mem_cons.mp hmem with he | hmem
    · rw [he]
      exact allNarrowing_convertInGroup (.group logic internalLogic subItems) h.1
    · exact allNarrowing_convertGroups items h.2 item hmem hgroup

end

theorem lone_iff {item : ConditionItem} {c : LogicalCondition} : item.lone? = some c ↔
    (convertItem item).conditions = [c] ∧ (convertItem item).nestedOperations = [] := by
  unfold ConditionItem.lone?
  split
  · simp [convertItem]
  · simp [convertItem, convertGroups, ConditionItem.condition?]
  · rename_i logic internalLogic items hother
    refine iff_of_false nofun ?_
    rintro ⟨hconditions, hnested⟩
    unfold convertItem at hconditions hnested
    dsimp only at hconditions hnested
    match items with
    | [] => cases hconditions
    | [.condition c'] => exact hother c' rfl
    | .group _ _ _ :: _ => simp [convertGroups] at hnested
    | .condition _ :: .group _ _ _ :: _ => simp [convertGroups] at hnested
    | .condition _ :: .condition _ :: _ => simp [ConditionItem.condition?] at hconditions

theorem allNarrowing_treeToOperations {P : LogicalCondition → Prop} {tree : ConditionTree}
    (h : tree.AllNarrowing P) : ∀ op ∈ treeToOperations tree, op.AllNarrowing P := by
  obtain ⟨hplain, hnots⟩ := h
  have hitem : ∀ item : ConditionItem, item.isNot = false → item.AllNarrowing P →
      (convertItem item).AllNarrowing P := by
    intro item hnot hitem
    have hconverted := allNarrowing_convertInGroup item hitem
    rwa [convertInGroup, if_neg (by simp [hnot])] at hconverted
  intro op hop
  unfold treeToOperations at hop
  rcases List.mem_append.mp hop with hop | hop
  · have hmem : ∀ item ∈ tree.items.filter (fun item => !item.isNot), item.isNot = false := by
      intro item hitem
      simpa using (List.mem_filter.mp hitem).2
    revert hplain hop hmem
    generalize tree.items.filter (fun item => !item.isNot) = plain
    intro hplain hop hmem
    match plain with
    | [] => cases hop
    | [item] =>
      rw [List.mem_singleton.mp hop]
      exact hitem item (hmem item List.mem_cons_self) hplain
    | item :: item' :: rest =>
      rw [List.mem_singleton.mp hop, LogicalOperation.allNarrowing_iff]
      constructor
      · intro ht c hc
        have hand : tree.internalLogic = .and := by
          cases hlogic : tree.internalLogic with
          | and => rfl
          | or =>
            rw [joinOperations, hlogic, InternalLogic.name, type_or] at ht
            cases ht
        obtain ⟨op, hop, hc⟩ := List.mem_flatMap.mp hc
        obtain ⟨hop, hsingle⟩ := List.mem_filter.mp hop
        rw [← List.map_cons] at hop
        obtain ⟨item, hitem, rfl⟩ := List.mem_map.mp hop
        simp only [isGroupOperation, Bool.and_eq_true, Bool.not_eq_true', Bool.or_eq_false_iff,
          decide_eq_false_iff_not, decide_eq_true_iff, not_lt, Nat.le_zero,
          List.length_eq_zero_iff] at hsingle
        obtain ⟨c', hc'⟩ := List.length_eq_one_iff.mp hsingle.2
        rw [hc', List.mem_singleton] at hc
        subst hc
        exact hplain.1 hand c
          (List.mem_filterMap.mpr ⟨item, hitem, lone_iff.mpr ⟨hc', hsingle.1.2⟩⟩)
      · intro n hn
        obtain ⟨hn, hgroup⟩ := List.mem_filter.mp hn
        rw [← List.map_cons] at hn
        obtain ⟨item, hmem', rfl⟩ := List.mem_map.mp hn
        refine hitem item (hmem item hmem') (hplain.2 item hmem' ?_)
        cases hlone : item.lone? with
        | none => rfl
        | some c =>
          obtain ⟨hc, hnone⟩ := lone_iff.mp hlone
          rw [isGroupOperation, hc, hnone] at hgroup
          cases hgroup
  · obtain ⟨item, hmem, rfl⟩ := List.mem_map.mp hop
    obtain ⟨hmem, hnot⟩ := List.mem_filter.mp hmem
    have hconverted := allNarrowing_convertInGroup item (hnots item hmem hnot)
    rwa [convertInGroup, if_pos hnot] at hconverted

theorem mem_combined_executed (hn : (devices.map DeviceInfo.id).Nodup)
    (hr : ∀ path i, faults.raises path i = false) (hd : d ∈ devices)
    {ops : List LogicalOperation} (hops : ∀ op ∈ ops, op.AllNarrowing d.IndexAgrees) :
    d.id ∈ combined (executeOperations nautobot faults devices ops) ↔
      (∀ op ∈ ops, op.type ≠ .not → op.selects (holdsFor nautobot devices d) = true) ∧
        ∀ op ∈ ops, op.type = .not → op.selects (holdsFor nautobot devices d) = false := by
  have hmap : (executeNestedOperations nautobot faults [] devices 0 ops).map _ = _ :=
    mem_executeNestedOperations hn hr [] (List.Sublist.refl devices) hd 0 ops
      (nestedNarrowing_iff.mpr hops)
  rw [nestedReadings_eq_map] at hmap
  -- both lists pair an operation with what it says about the device
  have hall : ∀ Q : LogicalOperation → Bool → Prop,
      (∀ p ∈ executeOperations nautobot faults devices ops, Q p.1 (decide (d.id ∈ p.2.ids))) ↔
        ∀ op ∈ ops, Q op (op.selects (holdsFor nautobot devices d)) := by
    intro Q
    have hpairs := congrArg (fun l : List (LogicalOperation × Bool) => ∀ q ∈ l, Q q.1 q.2) hmap
    simp only [List.forall_mem_map, eq_iff_iff] at hpairs
    exact hpairs
  have hplain := hall fun op b => op.type ≠ .not → b = true
  have hnots := hall fun op b => op.type = .not → b = false
  simp only [decide_eq_true_iff, decide_eq_false_iff_not] at hplain hnots
  exact and_congr hplain hnots

/-- A saved inventory selects a device if its tree describes it, as long as the device does not
satisfy one of the plain items of a NOT group without satisfying the group, and the index answers
for it as the queries do where the devices are narrowed down. -/
theorem savedInventory_selects {tree : ConditionTree} (hn : (devices.map DeviceInfo.id).Nodup)
    (hr : ∀ path i, faults.raises path i = false) (hproper : tree.Proper) :
    ∀ d ∈ devices, NotsExactIn (holdsFor nautobot devices d) false tree.items →
      tree.AllNarrowing d.IndexAgrees →
      (d.id ∈ returnedIds nautobot faults devices (treeToOperations tree) ↔
        tree.meaning (holdsFor nautobot devices d) = true) := by
  intro d hd hexact hagrees
  obtain ⟨main, he, ht, hselects⟩ := treeToOperations_eq hproper
  have hread : ∀ item ∈ tree.items, (convertInGroup item).selects (holdsFor nautobot devices d) =
      item.meaning (holdsFor nautobot devices d) := by
    intro item hmem
    refine selects_convertInGroup_items tree.items hproper.2 item hmem ?_
    exact (notsExactIn_iff.mp hexact item hmem).resolve_left (by simp)
  have hnots : ∀ op ∈ (tree.items.filter ConditionItem.isNot).map convertInGroup,
      op.type = .not := by
    intro op hop
    obtain ⟨item, hmem, rfl⟩ := List.mem_map.mp hop
    exact convertInGroup_type.mpr (List.mem_filter.mp hmem).2
  have hops := allNarrowing_treeToOperations hagrees
  have hreturned : d.id ∈ returnedIds nautobot faults devices (treeToOperations tree) ↔
      d.id ∈ combined (executeOperations nautobot faults devices (treeToOperations tree)) := by
    rw [he, ← returnedIds_of_nots ht hnots]
    exact Finset.mem_coe.symm
  rw [hreturned, mem_combined_executed hn hr hd hops, he, ConditionTree.meaning, combineItems_iff,
    ← plain_congr hread, ← hselects]
  simp only [List.forall_mem_cons, List.forall_mem_map, List.mem_filter, and_imp]
  constructor
  · rintro ⟨⟨hmain, -⟩, -, hexcluded⟩
    exact ⟨hmain ht, fun item hmem hnot =>
      hexcluded item hmem hnot (convertInGroup_type.mpr hnot)⟩
  · rintro ⟨hmain, hexcluded⟩
    refine ⟨⟨fun _ => hmain, fun item hmem hnot hplain => ?_⟩, fun h => absurd h ht,
      fun item hmem hnot _ => hexcluded item hmem hnot⟩
    exact absurd (convertInGroup_type.mpr hnot) hplain

def plannedLeaf : DeviceInfo :=
  { id := "d1", role := some "leaf", status := some "Planned", tags := ["core"] }

def notActiveLeafs : ConditionTree where
  items := [.condition isCore,
    .group .not .and [.condition ⟨"role", "equals", "leaf"⟩,
      .condition ⟨"status", "equals", "Active"⟩]]

/-- The planned leaf is excluded with the active ones. -/
theorem notActiveLeafs_excludesPlanned :
    notActiveLeafs.Proper ∧ notActiveLeafs.AllNarrowing plannedLeaf.IndexAgrees ∧
      notActiveLeafs.meaning (holdsFor oneSite [plannedLeaf] plannedLeaf) = true ∧
      plannedLeaf.id ∉ returnedIds oneSite .none [plannedLeaf]
        (treeToOperations notActiveLeafs) := by
  refine ⟨?_, ?_, by decide +kernel, by decide +kernel⟩
  · simp [ConditionTree.Proper, notActiveLeafs, ItemsProper, ConditionItem.Proper,
      ConditionItem.isNot]
  · have hcore : plannedLeaf.IndexAgrees isCore := plannedLeaf.indexAgrees_of_not_blank (by decide)
    simpa [ConditionTree.AllNarrowing, notActiveLeafs, ConditionItem.isNot,
      ConditionItem.AllNarrowing, GroupsNarrowing] using hcore

def neitherLeafNorActive : ConditionTree where
  items := [.condition isCore,
    .group .not .or [.condition ⟨"role", "equals", "leaf"⟩,
      .condition ⟨"status", "equals", "Active"⟩]]

/-- Here any item of the NOT group excludes, as its logic says. -/
theorem neitherLeafNorActive_excludesPlanned :
    neitherLeafNorActive.Proper ∧ (plannedLeaf.id ∈ returnedIds oneSite .none [plannedLeaf]
        (treeToOperations neitherLeafNorActive) ↔
      neitherLeafNorActive.meaning (holdsFor oneSite [plannedLeaf] plannedLeaf) = true) := by
  have hproper : neitherLeafNorActive.Proper := by
    simp [ConditionTree.Proper, neitherLeafNorActive, ItemsProper, ConditionItem.Proper,
      ConditionItem.isNot]
  refine ⟨hproper, savedInventory_selects (by decide) (fun _ _ => rfl) hproper plannedLeaf
    List.mem_cons_self ?_ ?_⟩
  · simp only [neitherLeafNorActive, NotsExactIn, ConditionItem.NotsExact, combineItems_iff]
    simp [ConditionItem.isNot]
  · have hcore : plannedLeaf.IndexAgrees isCore := plannedLeaf.indexAgrees_of_not_blank (by decide)
    simpa [ConditionTree.AllNarrowing, neitherLeafNorActive, ConditionItem.isNot,
      ConditionItem.AllNarrowing, GroupsNarrowing] using hcore

end Selection

end Manus
