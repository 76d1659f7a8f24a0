import Manus.Inventory.Failures

/-! # What an operation says about one device

Every condition is answered for each device by itself, from the list of devices
or by the inventory system, and operations combine the answers for each device
by themselves. So it does not matter which other devices are in effect, and
narrowing the list down changes nothing for the devices that are left, provided
the index and the queries agree: for a blank value they need not.
-/

namespace Manus

section Readings

def combineReadings (type : OperationType) (conditionReadings notReadings : List Bool) : Bool :=
  match type with
  | .and => !conditionReadings.isEmpty && conditionReadings.all id && !notReadings.any id
  | .or => conditionReadings.any id && !notReadings.any id
  | .not => conditionReadings.any id
  | .unknown => false

def readOperation (op : LogicalOperation) (conditions : List Bool)
    (nested : List (LogicalOperation × Bool)) : Bool :=
  combineReadings op.type
    (conditions ++ (nested.filter fun p => p.1.type ≠ .not).map Prod.snd)
    ((nested.filter fun p => p.1.type = .not).map Prod.snd)

mutual

/-- Whether an operation selects a device for which the given conditions hold. -/
def LogicalOperation.selects (holds : LogicalCondition → Bool) : LogicalOperation → Bool
  | ⟨operationType, conditions, nestedOperations⟩ =>
    readOperation ⟨operationType, conditions, nestedOperations⟩ (conditions.map holds)
      (nestedReadings holds nestedOperations)

def nestedReadings (holds : LogicalCondition → Bool) :
    List LogicalOperation → List (LogicalOperation × Bool)
  | [] => []
  | op :: ops => (op, op.selects holds) :: nestedReadings holds ops

end

theorem nestedReadings_eq_map (holds : LogicalCondition → Bool) (ops : List LogicalOperation) :
    nestedReadings holds ops = ops.map fun op => (op, op.selects holds) := by
  induction ops with
  | nil =>
    unfold nestedReadings
    rfl
  | cons op ops ih =>
    unfold nestedReadings
    rw [ih, List.map_cons]

theorem mem_intersectSets {id : String} {l : List (Finset String)} :
    id ∈ intersectSets l ↔ l ≠ [] ∧ ∀ s ∈ l, id ∈ s := by
  have hfold : ∀ (l : List (Finset String)) (a : Finset String),
      id ∈ l.foldl (· ∩ ·) a ↔ id ∈ a ∧ ∀ s ∈ l, id ∈ s := by
    intro l
    induction l with
    | nil => simp
    | cons x l ih => simp [ih, and_assoc]
  cases l with
  | nil => simp [intersectSets]
  | cons s l => simp [intersectSets, hfold]

theorem mem_subtractNotResults {id : String} {a : Finset String} {l : List (Finset String)} :
    id ∈ subtractNotResults a l ↔ id ∈ a ∧ ∀ s ∈ l, id ∉ s := by
  unfold subtractNotResults
  induction l generalizing a with
  | nil => simp
  | cons x l ih => simp [ih, and_assoc]

theorem mem_combineLogicalResults_iff {type : OperationType} {c n : List (Finset String)}
    {id : String} :
    id ∈ combineLogicalResults type c n ↔ combineReadings type (c.map fun s => decide (id ∈ s))
      (n.map fun s => decide (id ∈ s)) = true := by
  cases type with
  | and =>
    simp [combineLogicalResults, combineReadings, mem_subtractNotResults, mem_intersectSets]
  | or => simp [combineLogicalResults, combineReadings, mem_subtractNotResults, mem_unionSets]
  | not => simp [combineLogicalResults, combineReadings, mem_unionSets]
  | unknown => simp [combineLogicalResults, combineReadings]

theorem mem_finishOperation {op : LogicalOperation} {seed conditions : List Selection}
    {nested : List (LogicalOperation × Selection)} {id : String} :
    id ∈ (finishOperation op seed conditions nested).ids ↔
      readOperation op ((seed ++ conditions).map fun s => decide (id ∈ s.ids))
        (nested.map fun p => (p.1, decide (id ∈ p.2.ids))) = true := by
  simp only [finishOperation, mem_combineLogicalResults_iff, readOperation, List.filter_map,
    List.map_map, List.map_append]
  exact Iff.rfl

end Readings

section Conditions

variable {nautobot : Nautobot} {devices scope : List DeviceInfo} {d : DeviceInfo}
  {c : LogicalCondition}

theorem eq_of_id (hn : (devices.map DeviceInfo.id).Nodup) {d' : DeviceInfo} (hd : d ∈ devices)
    (hd' : d' ∈ devices) (h : d.id = d'.id) : d = d' :=
  List.inj_on_of_nodup_map hn hd hd' h

theorem mem_filter_ids (hn : (devices.map DeviceInfo.id).Nodup) (hd : d ∈ devices)
    (p : DeviceInfo → Bool) : d.id ∈ (devices.filter p).map DeviceInfo.id ↔ p d = true := by
  constructor
  · intro h
    obtain ⟨d', hd', he⟩ := List.mem_map.mp h
    obtain ⟨hmem, hp⟩ := List.mem_filter.mp hd'
    rwa [eq_of_id hn hd hmem he.symm]
  · intro h
    exact List.mem_map_of_mem (List.mem_filter.mpr ⟨hd, h⟩)

theorem applyClientNegation_filter (hn : (devices.map DeviceInfo.id).Nodup)
    (p : DeviceInfo → Bool) :
    applyClientNegation devices (devices.filter p) = devices.filter fun d => !p d := by
  refine List.filter_congr fun d hd => ?_
  rw [Bool.eq_iff_iff, decide_eq_true_iff, mem_filter_ids hn hd, Bool.not_eq_true,
    Bool.not_eq_true']

def Scans (query : List DeviceInfo → List DeviceInfo) : Prop :=
  ∃ p : DeviceInfo → Bool, ∀ devices, query devices = devices.filter p

theorem scans_empty : Scans fun _ => [] :=
  ⟨fun _ => false, fun devices => by simp⟩

theorem scans_filter (p : DeviceInfo → Bool) : Scans fun devices => devices.filter p :=
  ⟨p, fun _ => rfl⟩

theorem scans_unless (blank : Bool) (p : DeviceInfo → Bool) :
    Scans fun devices => if blank then [] else devices.filter p := by
  cases blank with
  | true => exact scans_empty
  | false => exact scans_filter p

theorem scans_mappedField (nautobot : Nautobot) {field : String} (value : String)
    (contains : Bool) (h : field ≠ "location") :
    (∀ devices, queryMappedField nautobot devices field value contains = none) ∨
      ∃ query, Scans query ∧ ∀ devices,
        queryMappedField nautobot devices field value contains = some (.ok (query devices)) := by
  unfold queryMappedField
  split
  · exact .inr ⟨_, scans_unless _ _, fun _ => rfl⟩
  · exact absurd rfl h
  all_goals first
    | exact .inr ⟨_, scans_unless _ _, fun _ => rfl⟩
    | exact .inr ⟨_, scans_filter _, fun _ => rfl⟩
    | exact .inl fun _ => rfl

theorem queryNativeNotEquals_attribute {field value : String}
    (h : field ∈ ["device_type", "manufacturer", "role"]) :
    queryNativeNotEquals nautobot devices field value =
      some (.ok (devicesByAttribute devices field value true, 1)) := by
  simp only [List.mem_cons, List.not_mem_nil, or_false] at h
  rcases h with rfl | rfl | rfl <;> rfl

theorem queryNativeNotEquals_none {field value : String} (hloc : field ≠ "location")
    (h : field ∉ ["device_type", "manufacturer", "role"]) :
    queryNativeNotEquals nautobot devices field value = none := by
  simp only [List.mem_cons, List.not_mem_nil, or_false, not_or] at h
  unfold queryNativeNotEquals
  split
  · exact absurd rfl hloc
  · exact absurd rfl h.1
  · exact absurd rfl h.2.1
  · exact absurd rfl h.2.2
  · rfl

theorem queryLocation_const (h : c.field = "location") :
    ∃ answer, ∀ devices, (if c.operator = "not_equals" then
        queryNativeNotEquals nautobot devices c.field c.value else none).or
      ((queryMappedField nautobot devices c.field c.value (useContains c.operator)).map
        fun answer => answer.map fun matched =>
          (if isNegated c.operator then applyClientNegation devices matched else matched, 1)) =
      answer := by
  rw [h]
  by_cases hop : c.operator = "not_equals"
  · exact ⟨_, fun devices => by rw [if_pos hop]; rfl⟩
  · simp only [if_neg hop, Option.none_or, queryMappedField, Option.map_some]
    cases hc : useContains c.operator with
    | true =>
      simp only [if_true, Except.map]
      exact ⟨_, fun devices => rfl⟩
    | false =>
      have hneg : isNegated c.operator = false := by
        simp only [useContains, isNegated, List.mem_cons, List.not_mem_nil, or_false,
          decide_eq_false_iff_not, not_or] at hc ⊢
        exact ⟨hop, hc.2⟩
      simp only [hneg, Bool.false_eq_true, if_false]
      exact ⟨_, fun devices => rfl⟩

/-- A condition is answered without the list of devices, or for each device of it by itself. -/
theorem queryCondition_cases (nautobot : Nautobot) (c : LogicalCondition) :
    (∃ answer, ∀ devices, queryCondition nautobot devices c = answer) ∨
      ∃ (p : DeviceInfo → Bool) (count : ℕ), ∀ devices, (devices.map DeviceInfo.id).Nodup →
        queryCondition nautobot devices c = some (.ok (devices.filter p, count)) := by
  -- a scan, negated or not
  have hscan : ∀ query : List DeviceInfo → List DeviceInfo, Scans query →
      ∃ p : DeviceInfo → Bool, ∀ devices : List DeviceInfo,
        (devices.map DeviceInfo.id).Nodup →
        (if isNegated c.operator then applyClientNegation devices (query devices)
          else query devices) = devices.filter p := by
    rintro query ⟨p, hp⟩
    split
    · exact ⟨fun d => !p d, fun devices hn => by rw [hp, applyClientNegation_filter hn]⟩
    · exact ⟨p, fun devices _ => hp devices⟩
  unfold queryCondition
  split
  · exact .inl ⟨_, fun _ => rfl⟩
  · split
    · exact .inl ⟨_, fun _ => rfl⟩
    · split
      · obtain ⟨p, hp⟩ := hscan (fun devices => queryDevicesByCustomField nautobot devices
          c.field c.value (useContains c.operator)) (scans_unless _ _)
        exact .inr ⟨p, 1, fun devices hn => by rw [← hp devices hn]⟩
      · by_cases hloc : c.field = "location"
        · exact .inl (queryLocation_const hloc)
        · by_cases hnative : c.operator = "not_equals" ∧
              c.field ∈ ["device_type", "manufacturer", "role"]
          · obtain ⟨p, hp⟩ := scans_unless (isBlank c.value) fun d => d.matches c.field c.value true
            refine .inr ⟨p, 1, fun devices _ => ?_⟩
            rw [if_pos hnative.1, queryNativeNotEquals_attribute hnative.2, Option.some_or,
              ← hp devices]
            rfl
          · have hnone : ∀ devices, (if c.operator = "not_equals" then
                queryNativeNotEquals nautobot devices c.field c.value else none) = none := by
              intro devices
              split
              · rename_i hop
                exact queryNativeNotEquals_none hloc fun hmem => hnative ⟨hop, hmem⟩
              · rfl
            rcases scans_mappedField nautobot c.value (useContains c.operator) hloc with
              hq | ⟨query, hscans, hq⟩
            · exact .inl ⟨none, fun devices => by rw [hnone, hq]; rfl⟩
            · obtain ⟨p, hp⟩ := hscan _ hscans
              refine .inr ⟨p, 1, fun devices hn => ?_⟩
              rw [hnone, hq, ← hp devices hn]
              rfl

theorem mem_executeCondition (hn : (devices.map DeviceInfo.id).Nodup)
    (hs : scope.Sublist devices) (hd : d ∈ scope) (c : LogicalCondition) :
    d.id ∈ (executeCondition nautobot scope false c).ids ↔
      d.id ∈ (executeCondition nautobot devices false c).ids := by
  unfold executeCondition
  split
  · exact Iff.rfl
  · rcases queryCondition_cases nautobot c with ⟨answer, ha⟩ | ⟨p, count, hp⟩
    · rw [ha, ha]
    · have hn' := hn.sublist (hs.map DeviceInfo.id)
      rw [hp scope hn', hp devices hn]
      simp only [Bool.false_eq_true, if_false, packDevices, List.mem_toFinset]
      rw [mem_filter_ids hn' hd, mem_filter_ids hn (hs.subset hd)]

theorem matches_true (d : DeviceInfo) (field value : String) :
    d.matches field value true = !d.matches field value false := by
  unfold DeviceInfo.matches
  cases decide (d.attribute field = some value) <;> rfl

theorem queryMappedField_indexed {field value : String} (contains : Bool)
    (h : field ∈ indexedFields) : queryMappedField nautobot devices field value contains =
      some (.ok (devicesByAttribute devices field value false)) := by
  simp only [indexedFields, List.mem_cons, List.not_mem_nil, or_false] at h
  rcases h with rfl | rfl | rfl | rfl | rfl <;> rfl

theorem queryCondition_of_indexed (h : c.field ∈ indexedFields) :
    queryCondition nautobot devices c = (if c.operator = "not_equals" then
        queryNativeNotEquals nautobot devices c.field c.value else none).or
      (some (.ok (if isNegated c.operator then
          applyClientNegation devices (devicesByAttribute devices c.field c.value false)
        else devicesByAttribute devices c.field c.value false, 1))) := by
  have hfield : c.field ≠ "ip_prefix" ∧ c.field ≠ "primary_prefix" ∧
      ¬ startsWith c.field "cf_" = true := by
    have hall : ∀ field ∈ indexedFields, field ≠ "ip_prefix" ∧ field ≠ "primary_prefix" ∧
      ¬ startsWith field "cf_" = true := by decide
    exact hall _ h
  rw [queryCondition, if_neg hfield.1, if_neg hfield.2.1, if_neg hfield.2.2,
    queryMappedField_indexed _ h]
  rfl

def DeviceInfo.selectedBy (d : DeviceInfo) (c : LogicalCondition) : Bool :=
  d.matches c.field c.value (c.operator == "not_equals")

/-- What the query of an indexed condition answers for a device. For a blank value it finds nothing,
which is negated in the query itself or afterwards. -/
def DeviceInfo.answeredBy (d : DeviceInfo) (c : LogicalCondition) : Bool :=
  if isBlank c.value then
    decide (c.operator = "not_equals" ∧ c.field ∉ ["device_type", "manufacturer", "role"])
  else d.selectedBy c

theorem devicesByAttribute_false (field value : String) : devicesByAttribute devices field value
    false = devices.filter fun d => !isBlank value && d.matches field value false := by
  unfold devicesByAttribute
  cases isBlank value <;> simp

theorem queryCondition_indexed (hn : (devices.map DeviceInfo.id).Nodup)
    (hi : isIndexedCondition c = true) : queryCondition nautobot devices c =
      some (.ok (devices.filter fun d => d.answeredBy c, 1)) := by
  simp only [isIndexedCondition, Bool.and_eq_true, decide_eq_true_iff] at hi
  obtain ⟨⟨hfield, hop⟩, -⟩ := hi
  rw [queryCondition_of_indexed hfield, devicesByAttribute_false]
  unfold DeviceInfo.answeredBy DeviceInfo.selectedBy
  simp only [List.mem_cons, List.not_mem_nil, or_false] at hop
  rcases hop with hop | hop
  · have hneg : isNegated "equals" = false := by decide
    rw [hop, if_neg (by decide), hneg, Option.none_or]
    cases isBlank c.value <;> simp
  · rw [hop, if_pos rfl]
    by_cases hnative : c.field ∈ ["device_type", "manufacturer", "role"]
    · rw [queryNativeNotEquals_attribute hnative, devicesByAttribute]
      cases isBlank c.value <;> simp [hnative]
    · have hloc : c.field ≠ "location" := fun h => absurd (h ▸ hfield) (by decide)
      have hneg : isNegated "not_equals" = true := by decide
      rw [queryNativeNotEquals_none hloc hnative, Option.none_or, hneg, if_pos rfl,
        applyClientNegation_filter hn]
      cases isBlank c.value <;> simp [hnative, matches_true]

theorem mem_executeCondition_indexed (hn : (devices.map DeviceInfo.id).Nodup) (hd : d ∈ devices)
    (hi : isIndexedCondition c = true) :
    d.id ∈ (executeCondition nautobot devices false c).ids ↔ d.answeredBy c = true := by
  have hne : ¬ (c.field = "" ∨ c.value = "") := by
    simp only [isIndexedCondition, Bool.and_eq_true, decide_eq_true_iff] at hi
    rintro (h | h)
    · rw [h] at hi
      exact absurd hi.1.1 (by decide)
    · exact hi.2 h
  rw [executeCondition, if_neg hne, queryCondition_indexed hn hi]
  simp only [Bool.false_eq_true, if_false, packDevices, List.mem_toFinset]
  exact mem_filter_ids hn hd _

end Conditions

section Operations

mutual

def LogicalOperation.All (P : LogicalCondition → Prop) : LogicalOperation → Prop
  | ⟨_, conditions, nestedOperations⟩ => (∀ c ∈ conditions, P c) ∧ AllNested P nestedOperations

def AllNested (P : LogicalCondition → Prop) : List LogicalOperation → Prop
  | [] => True
  | op :: ops => op.All P ∧ AllNested P ops

end

mutual

/-- A property of the conditions by which the devices in effect may be narrowed down. -/
def LogicalOperation.AllNarrowing (P : LogicalCondition → Prop) : LogicalOperation → Prop
  | ⟨operationType, conditions, nestedOperations⟩ =>
    ((⟨operationType, conditions, nestedOperations⟩ : LogicalOperation).type = .and →
      ∀ c ∈ conditions, P c) ∧ NestedNarrowing P nestedOperations

def NestedNarrowing (P : LogicalCondition → Prop) : List LogicalOperation → Prop
  | [] => True
  | op :: ops => op.AllNarrowing P ∧ NestedNarrowing P ops

end

theorem nestedNarrowing_iff {P : LogicalCondition → Prop} {ops : List LogicalOperation} :
    NestedNarrowing P ops ↔ ∀ op ∈ ops, op.AllNarrowing P := by
  induction ops with
  | nil => simp [NestedNarrowing]
  | cons op ops ih => simp [NestedNarrowing, ih]

/-- The index says of a device what the query of the condition says. -/
def DeviceInfo.IndexAgrees (d : DeviceInfo) (c : LogicalCondition) : Prop :=
  isIndexedCondition c = true → d.selectedBy c = d.answeredBy c

theorem DeviceInfo.indexAgrees_of_not_blank (d : DeviceInfo) {c : LogicalCondition}
    (h : isBlank c.value = false) : d.IndexAgrees c := by
  intro _
  rw [answeredBy, h]
  rfl

variable {nautobot : Nautobot} {faults : Faults} {devices scope : List DeviceInfo}

def holdsFor (nautobot : Nautobot) (devices : List DeviceInfo) (d : DeviceInfo)
    (c : LogicalCondition) : Bool :=
  decide (d.id ∈ (executeCondition nautobot devices false c).ids)

theorem holdsFor_indexed {d : DeviceInfo} {c : LogicalCondition}
    (hn : (devices.map DeviceInfo.id).Nodup) (hd : d ∈ devices)
    (hi : isIndexedCondition c = true) : holdsFor nautobot devices d c = d.answeredBy c := by
  rw [Bool.eq_iff_iff, holdsFor, decide_eq_true_iff, mem_executeCondition_indexed hn hd hi]

theorem mem_candidates (nautobot : Nautobot) {d : DeviceInfo} {conditions : List LogicalCondition}
    (hn : (devices.map DeviceInfo.id).Nodup) (hs : scope.Sublist devices) (hd : d ∈ scope)
    (hc : ∀ c ∈ conditions, d.IndexAgrees c) :
    (d ∈ scope.filter fun d => (conditions.filter isIndexedCondition).all fun c =>
      d.selectedBy c) ↔
      ∀ c ∈ conditions, isIndexedCondition c = true → holdsFor nautobot devices d c = true := by
  simp only [List.mem_filter, hd, true_and, List.all_eq_true, and_imp]
  refine forall_congr' fun c => forall_congr' fun hmem => forall_congr' fun hi => ?_
  rw [holdsFor_indexed hn (hs.subset hd) hi, hc c hmem hi]

theorem readOperation_and {op : LogicalOperation} (ht : op.type = .and) {conditions : List Bool}
    {nested : List (LogicalOperation × Bool)} (hne : conditions ≠ []) :
    readOperation op conditions nested = true ↔ (∀ b ∈ conditions, b = true) ∧
      (∀ p ∈ nested, p.1.type ≠ .not → p.2 = true) ∧
        ∀ p ∈ nested, p.1.type = .not → p.2 = false := by
  simp [readOperation, ht, combineReadings, hne, forall_and, and_assoc]

theorem zipIdx_filter_fst {α : Type} (l : List α) (p : α → Bool) :
    (l.zipIdx.filter fun q => p q.1).map Prod.fst = l.filter p := by
  have hmap := List.filter_map (f := Prod.fst) (p := p) (l := l.zipIdx)
  rw [List.zipIdx_map_fst] at hmap
  exact hmap.symm

theorem narrowByIndex_eq_some {lookupFails : Bool} {op : LogicalOperation}
    {candidates : List DeviceInfo} {remaining : List (LogicalCondition × ℕ)} {count : ℕ}
    (h : narrowByIndex lookupFails scope op = some (candidates, remaining, count)) :
    op.type = .and ∧ (∃ c ∈ op.conditions, isIndexedCondition c = true) ∧
      (candidates = scope.filter fun d => (op.conditions.filter isIndexedCondition).all fun c =>
        d.selectedBy c) ∧
      remaining = op.conditions.zipIdx.filter fun p => !isIndexedCondition p.1 := by
  unfold narrowByIndex at h
  dsimp only at h
  split at h
  · cases h
  · rename_i hnot
    simp only [not_or, not_not] at hnot
    cases h
    obtain ⟨c, hc⟩ := List.exists_mem_of_ne_nil _ hnot.2.1
    exact ⟨hnot.1, ⟨c, List.mem_filter.mp hc⟩, rfl, rfl⟩

theorem selects_iff {holds : LogicalCondition → Bool} {op : LogicalOperation} :
    op.selects holds = true ↔ match op.type with
      | .and => (op.conditions ≠ [] ∨ ∃ n ∈ op.nestedOperations, n.type ≠ .not) ∧
          ((∀ c ∈ op.conditions, holds c = true) ∧
            ∀ n ∈ op.nestedOperations, n.type ≠ .not → n.selects holds = true) ∧
          ∀ n ∈ op.nestedOperations, n.type = .not → n.selects holds = false
      | .or => ((∃ c ∈ op.conditions, holds c = true) ∨
            ∃ n ∈ op.nestedOperations, n.type ≠ .not ∧ n.selects holds = true) ∧
          ∀ n ∈ op.nestedOperations, n.type = .not → n.selects holds = false
      | .not => (∃ c ∈ op.conditions, holds c = true) ∨
          ∃ n ∈ op.nestedOperations, n.type ≠ .not ∧ n.selects holds = true
      | .unknown => False := by
  obtain ⟨type, conditions, nested⟩ := op
  conv_lhs => unfold LogicalOperation.selects
  rw [nestedReadings_eq_map, readOperation]
  cases ht : (⟨type, conditions, nested⟩ : LogicalOperation).type with
  | and => simp [combineReadings, List.filter_map, and_assoc, or_iff_not_imp_left]
  | or => simp [combineReadings, List.filter_map]
  | not => simp [combineReadings, List.filter_map]
  | unknown => simp [combineReadings]

mutual

/-- An operation over any part of the devices selects the devices of it for which it does so by
the conditions, asked one by one over all devices. -/
theorem mem_executeOperation (hn : (devices.map DeviceInfo.id).Nodup)
    (hr : ∀ path i, faults.raises path i = false) (path : List ℕ)
    {scope : List DeviceInfo} (hs : scope.Sublist devices) {d : DeviceInfo} (hd : d ∈ scope) :
    ∀ op : LogicalOperation, op.AllNarrowing d.IndexAgrees →
      (d.id ∈ (executeOperation nautobot faults path scope op).ids ↔
        op.selects (holdsFor nautobot devices d) = true)
  | ⟨type, conditions, nested⟩, h => by
    unfold LogicalOperation.AllNarrowing at h
    obtain ⟨hconditions, hnested⟩ := h
    unfold executeOperation LogicalOperation.selects
    dsimp only
    -- the conditions over a part of the devices
    have hasked : ∀ {scope : List DeviceInfo}, scope.Sublist devices → d ∈ scope →
        ∀ l : List (LogicalCondition × ℕ), (l.map fun p => executeCondition nautobot scope
          (faults.raises path p.2) p.1).map (fun s => decide (d.id ∈ s.ids)) =
            (l.map Prod.fst).map (holdsFor nautobot devices d) := by
      intro scope hs hd l
      rw [List.map_map, List.map_map]
      refine List.map_congr_left fun p _ => ?_
      rw [Function.comp_apply, Function.comp_apply, hr, holdsFor, decide_eq_decide]
      exact mem_executeCondition hn hs hd p.1
    cases hnarrow : narrowByIndex (faults.lookupFails path) scope ⟨type, conditions, nested⟩ with
    | none =>
      dsimp only
      rw [mem_finishOperation, mem_executeNestedOperations hn hr path hs hd 0 nested hnested,
        List.nil_append, hasked hs hd, List.zipIdx_map_fst]
    | some narrowed =>
      obtain ⟨candidates, remaining, count⟩ := narrowed
      obtain ⟨hand, ⟨c, hc, hi⟩, hcandidates, hremaining⟩ := narrowByIndex_eq_some hnarrow
      have hmem := mem_candidates nautobot hn hs hd (hconditions hand)
      rw [← hcandidates] at hmem
      have hsub : candidates.Sublist scope := hcandidates ▸ List.filter_sublist
      rw [readOperation_and hand (by simpa using List.ne_nil_of_mem hc), List.forall_mem_map]
      -- a device that is no candidate fails one of the indexed conditions
      have hdropped : d ∉ candidates → ¬ ∀ c ∈ conditions, holdsFor nautobot devices d c = true :=
        fun hno hall => hno (hmem.mpr fun c hc _ => hall c hc)
      cases candidates with
      | nil => simpa using fun hall => absurd hall (hdropped List.not_mem_nil)
      | cons first rest =>
        dsimp only
        rw [mem_finishOperation, List.cons_append, List.nil_append, List.map_cons,
          readOperation_and hand (List.cons_ne_nil _ _), List.forall_mem_cons]
        by_cases hin : d ∈ first :: rest
        · have hseed : decide (d.id ∈ (packDevices (first :: rest) count).ids) = true :=
            decide_eq_true (List.mem_toFinset.mpr (List.mem_map_of_mem hin))
          have hsplit : (∀ c ∈ conditions, holdsFor nautobot devices d c = true) ↔
              ∀ c ∈ remaining.map Prod.fst, holdsFor nautobot devices d c = true := by
            have hleft : remaining.map Prod.fst =
                conditions.filter fun c => !isIndexedCondition c := by
              rw [hremaining]
              exact zipIdx_filter_fst conditions fun c => !isIndexedCondition c
            rw [hleft]
            constructor
            · exact fun hall c hc => hall c (List.mem_filter.mp hc).1
            · intro hall c hc
              cases hi : isIndexedCondition c with
              | true => exact hmem.mp hin c hc hi
              | false => exact hall c (List.mem_filter.mpr ⟨hc, by rw [hi]; rfl⟩)
          rw [hasked (hsub.trans hs) hin,
            mem_executeNestedOperations hn hr path (hsub.trans hs) hin 0 nested hnested, hsplit,
            List.forall_mem_map]
          simp only [hseed, true_and]
        · have hseed : ¬ decide (d.id ∈ (packDevices (first :: rest) count).ids) = true := by
            rw [decide_eq_true_iff, packDevices, List.mem_toFinset]
            intro hid
            obtain ⟨d', hd', he⟩ := List.mem_map.mp hid
            rw [eq_of_id hn ((hsub.trans hs).subset hd') (hs.subset hd) he] at hd'
            exact hin hd'
          exact iff_of_false (fun h => hseed h.1.1) fun h => hdropped hin h.1

theorem mem_executeNestedOperations (hn : (devices.map DeviceInfo.id).Nodup)
    (hr : ∀ path i, faults.raises path i = false) (path : List ℕ)
    {scope : List DeviceInfo} (hs : scope.Sublist devices) {d : DeviceInfo} (hd : d ∈ scope) :
    ∀ i ops, NestedNarrowing d.IndexAgrees ops →
      (executeNestedOperations nautobot faults path scope i ops).map
        (fun p => (p.1, decide (d.id ∈ p.2.ids))) =
          nestedReadings (holdsFor nautobot devices d) ops
  | i, [], _ => by
    unfold executeNestedOperations nestedReadings
    rfl
  | i, op :: ops, h => by
    unfold NestedNarrowing at h
    unfold executeNestedOperations nestedReadings
    rw [List.map_cons, mem_executeNestedOperations hn hr path hs hd (i + 1) ops h.2]
    refine congrArg (· :: _) (Prod.ext rfl ?_)
    rw [Bool.eq_iff_iff, decide_eq_true_iff]
    exact mem_executeOperation hn hr (i :: path) hs hd op h.1

end

end Operations

end Manus
