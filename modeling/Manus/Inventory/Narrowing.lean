import Manus.Inventory.Cache
import Manus.Inventory.Preview

/-! # Narrowing changes no result

With the devices in Redis, an evaluation selects what it would select with the
list of all devices at hand and every condition asked one by one. Every call of
the service is described by what it answers over the list in effect; the list in
effect stays the same through the call.
-/

namespace Manus

section Index

variable {field value : String} {devices : List DeviceInfo}

theorem get?_addToIndex (hv : value ≠ "") (index : Dict (List String)) (d : DeviceInfo) :
    (addToIndex field index d).get? value = if d.matches field value false then
      some ((index.get? value).getD [] ++ [d.id]) else index.get? value := by
  unfold addToIndex
  cases ha : d.attribute field with
  | none => simp [DeviceInfo.matches, ha]
  | some value' =>
    by_cases he : value' = value
    · subst he
      simp [DeviceInfo.matches, ha, hv]
    · have hother : (if value' = "" then index
          else index.insert value' ((index.get? value').getD [] ++ [d.id])).get? value =
            index.get? value := by
        split
        · rfl
        · rw [Dict.get?_insert, if_neg (Ne.symm he)]
      simpa [DeviceInfo.matches, ha, he] using hother

theorem get?_foldl_addToIndex (hv : value ≠ "") (index : Dict (List String)) :
    (devices.foldl (addToIndex field) index).get? value =
    match devices.filter fun d => d.matches field value false with
    | [] => index.get? value
    | found => some ((index.get? value).getD [] ++ found.map DeviceInfo.id) := by
  induction devices generalizing index with
  | nil => rfl
  | cons d devices ih =>
    rw [List.foldl_cons, ih, get?_addToIndex hv, List.filter_cons]
    cases d.matches field value false with
    | false => rfl
    | true => cases devices.filter fun d => d.matches field value false <;> simp

theorem get?_buildIndex (hv : value ≠ "") : (buildIndex devices field).get? value =
    match devices.filter fun d => d.matches field value false with
    | [] => none
    | found => some (found.map DeviceInfo.id) := by
  unfold buildIndex
  rw [get?_foldl_addToIndex hv]
  simp

end Index

section Answers

variable {α β : Type} {r : Redis} {calm : Prop} {devices : List DeviceInfo}

/-- With the given devices in effect, the call ends with the given answer, unless it is cancelled.
The list the service holds is the same at the end, or it held none and now holds all devices. -/
def Answers (r : Redis) (calm : Prop) (devices : List DeviceInfo) (x : Service α)
    (answer : Except String α) : Prop :=
  ∀ cache : Option (List DeviceInfo), cache.getD r.devices = devices →
    (x cache).Gives (fun o => calm → o.cancelled = false) r fun result =>
      (result.1 = answer.mapError .failed ∨ ¬ calm ∧ result.1 = .error .cancelled) ∧
        (result.2 = cache ∨ cache = none ∧ result.2 = some r.devices)

namespace Answers

variable {x : Service α} {answer : Except String α} {a : α}

theorem pure : Answers r calm devices (Pure.pure a : Service α) (.ok a) :=
  fun _ _ => ⟨.inl rfl, .inl rfl⟩

theorem raises {message : String} :
    Answers r calm devices (Service.raises message : Service α) (.error message) :=
  fun _ _ => ⟨.inl rfl, .inl rfl⟩

theorem bind {k : α → Service β} {answers : α → Except String β}
    (hx : Answers r calm devices x answer)
    (hk : ∀ a, answer = .ok a → Answers r calm devices (k a) (answers a)) :
    Answers r calm devices (x >>= k) (answer >>= answers) := by
  intro cache hcache
  refine (hx cache hcache).bind fun result h => ?_
  obtain ⟨result, cache'⟩ := result
  obtain ⟨hresult, hcache'⟩ := h
  have hsame : cache'.getD r.devices = devices := by
    rcases hcache' with rfl | ⟨rfl, rfl⟩ <;> exact hcache
  rcases hresult with rfl | ⟨hcalm, rfl⟩
  · cases answer with
    | error message => exact ⟨.inl rfl, hcache'⟩
    | ok a =>
      refine (hk a rfl cache' hsame).imp fun result h => ⟨h.1, ?_⟩
      rcases hcache' with rfl | ⟨rfl, rfl⟩
      · exact h.2
      · exact .inr ⟨rfl, h.2.elim id fun hne => nomatch hne.1⟩
  · exact ⟨.inr ⟨hcalm, rfl⟩, hcache'⟩

theorem andThen {k : α → Service β} {answer' : Except String β}
    (hx : Answers r calm devices x (.ok a)) (hk : Answers r calm devices (k a) answer') :
    Answers r calm devices (x >>= k) answer' := by
  have hbind : Answers r calm devices (x >>= k) (.ok a >>= fun _ => answer') := by
    refine hx.bind fun a' ha' => ?_
    cases ha'
    exact hk
  exact hbind

theorem map {k : α → β} (hx : Answers r calm devices x answer) :
    Answers r calm devices (x >>= fun a => Pure.pure (k a)) (k <$> answer) := by
  have hmap : Answers r calm devices (x >>= fun a => Pure.pure (k a))
      (answer >>= fun a => .ok (k a)) := hx.bind fun a _ => .pure
  cases answer <;> exact hmap

theorem awaits {answer : Except String α} :
    Answers r calm devices (Service.awaits fun _ => answer) answer := by
  intro cache hcache t ht
  refine ⟨_, rfl, ?_, .inl rfl⟩
  cases hc : t.oracle.cancelled with
  | false => exact .inl rfl
  | true => exact .inr ⟨fun hcalm => by simp [ht hcalm] at hc, rfl⟩

theorem orElse {handler : α} (hx : Answers r calm devices x answer) :
    Answers r calm devices (x.orElse handler) (.ok ((answer.toOption).getD handler)) := by
  intro cache hcache
  refine (hx cache hcache).bind fun result h => ?_
  obtain ⟨result, cache'⟩ := result
  obtain ⟨rfl | ⟨hcalm, rfl⟩, hcache'⟩ := h
  · cases answer <;> exact ⟨.inl rfl, hcache'⟩
  · exact ⟨.inr ⟨hcalm, rfl⟩, hcache'⟩

theorem narrowedTo {narrowed : List DeviceInfo} (hx : Answers r calm narrowed x answer) :
    Answers r calm devices (x.narrowedTo narrowed) answer := fun _ _ =>
  (hx (some narrowed) rfl).bind fun _ h => ⟨h.1, .inl rfl⟩

end Answers

end Answers

section Lookups

variable {r : Redis} {calm : Prop} {devices : List DeviceInfo} {A : Outside → Prop}
  {field value : String} {negate : Bool}

def Redis.Warm (r : Redis) : Prop := r.up = true ∧ r.devices ≠ []

theorem Redis.values_data (r : Redis) : r.data.values = r.devices := by
  simp only [Redis.data, Dict.values, List.map_map]
  exact List.map_id r.devices

theorem Redis.keys_data (r : Redis) : r.data.keys = r.devices.map DeviceInfo.id := by
  simp [Redis.data, Dict.keys]

theorem Redis.get?_data {r : Redis} {d : DeviceInfo} (h : d ∈ r.devices) :
    r.data.get? d.id = some d := by
  rw [Dict.get?_eq_some_iff]
  exact List.mem_map_of_mem (f := fun d => (d.id, d)) h

theorem Redis.Warm.hvals {r : Redis} (h : r.Warm) :
    (if r.up && !r.data.isEmpty then some r.data.values else none) = some r.devices := by
  have hsome : r.data.isEmpty = false := by
    simpa [Redis.data, Dict.isEmpty] using h.2
  rw [h.1, hsome, r.values_data]
  rfl

theorem answers_getAllDevicesCached (h : r.Warm) :
    Answers r calm devices Service.getAllDevicesCached (.ok devices) := by
  rintro (_ | held) rfl
  · refine Prog.Gives.get_bind ?_
    rw [h.hvals]
    exact ⟨.inl rfl, .inr ⟨rfl, rfl⟩⟩
  · exact ⟨.inl rfl, .inl rfl⟩

theorem complement_gives (ids : List String) :
    (readIndexIds.complement negate ids).Gives A r fun found => ∀ ids', found = some ids' →
      ids' = if negate then (r.devices.map DeviceInfo.id).filter fun id => id ∉ ids else ids := by
  unfold readIndexIds.complement
  cases negate with
  | false => exact fun ids' hids => (Option.some.inj hids).symm
  | true =>
    refine Prog.Gives.get_bind fun ids' hids => ?_
    cases hup : r.up with
    | false => simp [hup] at hids
    | true =>
      simp only [hup, if_true, r.keys_data, Option.ite_none_left_eq_some] at hids
      exact (Option.some.inj hids.2).symm

/-- What the index says is true of the devices. -/
theorem readIndexIds_gives (hv : value ≠ "") :
    (readIndexIds field value negate).Gives A r fun found => ∀ ids, found = some ids →
      ids = (r.devices.filter fun d => d.matches field value negate).map DeviceInfo.id := by
  have hcomplement : (readIndexIds.complement negate ((r.devices.filter fun d =>
      d.matches field value false).map DeviceInfo.id)).Gives A r fun found => ∀ ids,
        found = some ids →
        ids = (r.devices.filter fun d => d.matches field value negate).map DeviceInfo.id := by
    refine (complement_gives _).imp fun found hfound ids hids => ?_
    rw [hfound ids hids]
    cases negate with
    | false => rfl
    | true =>
      rw [if_pos rfl, List.filter_map]
      refine congrArg _ (List.filter_congr fun d hd => ?_)
      rw [Function.comp_apply, matches_true, Bool.eq_iff_iff, decide_eq_true_iff,
        mem_filter_ids r.unique hd, Bool.not_eq_true, Bool.not_eq_true']
  unfold readIndexIds
  refine Prog.Gives.get_bind ?_
  cases hup : r.up with
  | false => exact nofun
  | true =>
    rw [if_pos rfl, Redis.index, get?_buildIndex hv]
    cases hfound : r.devices.filter fun d => d.matches field value false with
    | nil =>
      rw [hfound] at hcomplement
      refine Prog.Gives.get_bind ?_
      split
      · exact hcomplement
      · exact nofun
    | cons d found =>
      rw [hfound] at hcomplement
      exact hcomplement

theorem fetchDevices_gives {predicates : List Predicate} {found : List DeviceInfo}
    (h : found.Sublist r.devices) : (fetchDevices (found.map DeviceInfo.id) predicates).Gives A r
      fun fetched => ∀ devices, fetched = some devices → devices = found := by
  unfold fetchDevices
  cases found with
  | nil => exact fun devices hdevices => (Option.some.inj hdevices).symm
  | cons d found =>
    refine Prog.Gives.get_bind ?_
    have hget : ((d :: found).map DeviceInfo.id).map r.data.get? = (d :: found).map some := by
      rw [List.map_map]
      exact List.map_congr_left fun d' hd' => Redis.get?_data (h.subset hd')
    cases hup : r.up with
    | false => exact nofun
    | true =>
      rw [if_pos rfl, hget]
      intro devices hdevices
      have hsome := Option.ite_none_right_eq_some.mp hdevices
      rw [← Option.some.inj hsome.2, List.filterMap_map]
      exact List.filterMap_some

theorem reads_gives {α β : Type} {p : Prog Outside Redis α} {k : α → Service β} {Q : α → Prop}
    {R : Except Raised β × Option (List DeviceInfo) → Prop} (hp : p.Gives A r Q)
    (hk : ∀ a, Q a → (k a none).Gives A r R) : ((Service.reads p >>= k) none).Gives A r R := by
  have hread : (Service.reads p none).Gives A r fun result => ∃ a, result = (.ok a, none) ∧ Q a :=
    hp.bind fun a ha => ⟨a, rfl, ha⟩
  refine hread.bind ?_
  rintro _ ⟨a, rfl, ha⟩
  exact hk a ha

theorem answers_query {α : Type} (h : r.Warm) (query : List DeviceInfo → α) :
    Answers r calm devices (Service.getAllDevicesCached >>= fun l => pure (query l))
      (.ok (query devices)) :=
  (answers_getAllDevicesCached h).map

theorem answers_idsByAttribute (h : r.Warm) (hv : value ≠ "") :
    Answers r calm devices (Service.idsByAttribute field value negate)
      (.ok ((devices.filter fun d => d.matches field value negate).map DeviceInfo.id)) := by
  have hfull : Answers r calm devices _ _ := answers_query h fun l =>
    (l.filter fun d => d.matches field value negate).map DeviceInfo.id
  rintro (_ | held) rfl
  · refine reads_gives (readIndexIds_gives hv) fun found hfound => ?_
    cases found with
    | none => exact hfull none rfl
    | some ids => exact ⟨.inl (congrArg _ (hfound ids rfl)), .inl rfl⟩
  · exact hfull (some held) rfl

theorem answers_devicesByIds (h : r.Warm) {ids : List String} {predicates : List Predicate}
    (hne : predicates ≠ []) (hids : devices = r.devices →
      ids = (devices.filter fun d => matchesAll d predicates).map DeviceInfo.id) :
    Answers r calm devices (Service.devicesByIds ids predicates)
      (.ok (devices.filter fun d => matchesAll d predicates)) := by
  have hfull : Answers r calm devices _ _ := answers_query h fun l =>
    if predicates.isEmpty then l.filter fun d => d.id ∈ ids
      else l.filter fun d => matchesAll d predicates
  rw [if_neg (by simpa using hne)] at hfull
  rintro (_ | held) rfl
  · rw [hids rfl] at hfull ⊢
    refine reads_gives (fetchDevices_gives List.filter_sublist) fun found hfound => ?_
    cases found with
    | none => exact hfull none rfl
    | some fetched => exact ⟨.inl (congrArg _ (hfound fetched rfl)), .inl rfl⟩
  · exact hfull (some held) rfl

theorem answers_devicesByAttribute (h : r.Warm) (hv : value ≠ "") :
    Answers r calm devices (Service.devicesByAttribute field value negate)
      (.ok (devices.filter fun d => d.matches field value negate)) := by
  have hfull : Answers r calm devices _ _ := answers_query h fun l =>
    l.filter fun d => d.matches field value negate
  rintro (_ | held) rfl
  · cases negate with
    | true => exact hfull none rfl
    | false =>
      let Fetched (fetched : Option (List DeviceInfo)) : Prop := ∀ devices,
        fetched = some devices → devices = r.devices.filter fun d => d.matches field value false
      refine reads_gives ((readIndexIds_gives hv).bind fun found hfound =>
        (?_ : Prog.Gives _ r Fetched _)) fun found hfound => ?_
      · cases found with
        | none => rintro devices ⟨⟩
        | some ids =>
          rw [hfound ids rfl]
          exact fetchDevices_gives List.filter_sublist
      cases found with
      | none => exact hfull none rfl
      | some fetched => exact ⟨.inl (congrArg _ (hfound fetched rfl)), .inl rfl⟩
  · cases negate <;> exact hfull (some held) rfl

end Lookups

section Conditions

variable {nautobot : Nautobot} {r : Redis} {calm : Prop} {devices : List DeviceInfo}

theorem answers_scan (h : r.Warm) (filter : String) (query : List DeviceInfo → List DeviceInfo)
    (hblank : isBlank filter = true → query devices = []) :
    Answers r calm devices (Cached.scan filter query) (.ok (query devices)) := by
  unfold Cached.scan
  split
  · rename_i hb
    rw [hblank hb]
    exact .pure
  · exact answers_query h query

theorem answers_queryDevicesByAttribute (h : r.Warm) {field value : String} {negate : Bool} :
    Answers r calm devices (Cached.queryDevicesByAttribute field value negate)
      (.ok (devicesByAttribute devices field value negate)) := by
  unfold Cached.queryDevicesByAttribute devicesByAttribute
  split
  · exact .pure
  · rename_i hb
    refine answers_devicesByAttribute h ?_
    rintro rfl
    exact hb rfl

def Corresponds {α : Type} (r : Redis) (calm : Prop) (devices : List DeviceInfo) :
    Option (Service α) → Option (Except String α) → Prop
  | none, none => True
  | some x, some answer => Answers r calm devices x answer
  | _, _ => False

theorem corresponds_queryNativeNotEquals (h : r.Warm) (field value : String) :
    Corresponds r calm devices (Cached.queryNativeNotEquals nautobot field value)
      (queryNativeNotEquals nautobot devices field value) := by
  have hattribute : ∀ field, Answers r calm devices
      (do let found ← Cached.queryDevicesByAttribute field value true; return (found, 1))
      (.ok (devicesByAttribute devices field value true, 1)) :=
    fun field => (answers_queryDevicesByAttribute h).map
  unfold Cached.queryNativeNotEquals
  split
  · exact Answers.awaits.map
  · exact hattribute "device_type"
  · exact hattribute "manufacturer"
  · exact hattribute "role"
  · rename_i hloc htype hmanufacturer hrole
    rw [queryNativeNotEquals_none hloc (by simp_all)]
    trivial

theorem corresponds_queryMappedField (h : r.Warm) (field value : String) (contains : Bool) :
    Corresponds r calm devices (Cached.queryMappedField nautobot field value contains)
      (queryMappedField nautobot devices field value contains) := by
  have hattribute : ∀ field, Answers r calm devices
      (Cached.queryDevicesByAttribute field value false)
      (.ok (devicesByAttribute devices field value false)) :=
    fun field => answers_queryDevicesByAttribute h
  unfold Cached.queryMappedField
  split
  · exact answers_scan h value (fun l => queryDevicesByName nautobot l value contains)
      fun hb => if_pos hb
  · cases contains with
    | true => exact .raises
    | false => exact .awaits
  · exact hattribute "role"
  · exact hattribute "status"
  · exact hattribute "device_type"
  · exact hattribute "manufacturer"
  · exact hattribute "platform"
  · exact answers_scan h value (fun l => queryDevicesByTag l value) fun hb => if_pos hb
  · exact answers_query h fun l => queryDevicesByHasPrimary nautobot l value
  · unfold queryMappedField
    split
    all_goals trivial

theorem answers_withNegation (h : r.Warm) (operator : String) {x : Service (List DeviceInfo)}
    {answer : Except String (List DeviceInfo)} (hx : Answers r calm devices x answer) :
    Answers r calm devices (Cached.withNegation operator x) (answer.map fun matched =>
      (if isNegated operator then applyClientNegation devices matched else matched, 1)) := by
  have hbind : Answers r calm devices (Cached.withNegation operator x)
      (answer >>= fun matched => .ok
        (if isNegated operator then applyClientNegation devices matched else matched, 1)) := by
    refine hx.bind fun matched _ => ?_
    cases isNegated operator with
    | false => exact .pure
    | true => exact (answers_query h fun l => applyClientNegation l matched).map
  cases answer <;> exact hbind

theorem Corresponds.or {α : Type} {x y : Option (Service α)} {a b : Option (Except String α)}
    (hx : Corresponds r calm devices x a) (hy : Corresponds r calm devices y b) :
    Corresponds r calm devices (x.or y) (a.or b) := by
  cases x with
  | none =>
    cases a with
    | none => exact hy
    | some answer => exact hx.elim
  | some x =>
    cases a with
    | none => exact hx.elim
    | some answer => exact hx

theorem Corresponds.map {α β : Type} {x : Option (Service α)} {a : Option (Except String α)}
    {f : Service α → Service β} {k : Except String α → Except String β}
    (hx : Corresponds r calm devices x a) (hf : ∀ {y : Service α} {answer : Except String α},
      Answers r calm devices y answer → Answers r calm devices (f y) (k answer)) :
    Corresponds r calm devices (x.map f) (a.map k) := by
  cases x with
  | none =>
    cases a with
    | none => trivial
    | some answer => exact hx.elim
  | some y =>
    cases a with
    | none => exact hx.elim
    | some answer => exact hf hx

theorem corresponds_queryCondition (h : r.Warm) (nautobot : Nautobot) (c : LogicalCondition) :
    Corresponds r calm devices (Cached.queryCondition nautobot c)
      (queryCondition nautobot devices c) := by
  unfold Cached.queryCondition queryCondition
  by_cases hip : c.field = "ip_prefix"
  · rw [if_pos hip, if_pos hip]
    exact Answers.awaits.map
  · rw [if_neg hip, if_neg hip]
    by_cases hprimary : c.field = "primary_prefix"
    · rw [if_pos hprimary, if_pos hprimary]
      exact Answers.awaits.map
    · rw [if_neg hprimary, if_neg hprimary]
      by_cases hcustom : startsWith c.field "cf_" = true
      · rw [if_pos hcustom, if_pos hcustom]
        exact answers_withNegation h c.operator (answers_scan h c.value
          (fun l => queryDevicesByCustomField nautobot l c.field c.value (useContains c.operator))
          fun hb => if_pos hb)
      · rw [if_neg hcustom, if_neg hcustom]
        refine Corresponds.or ?_ ((corresponds_queryMappedField h c.field c.value _).map
          (answers_withNegation h c.operator))
        split
        · exact corresponds_queryNativeNotEquals h c.field c.value
        · trivial

theorem answers_executeCondition (h : r.Warm) (c : LogicalCondition) :
    Answers r calm devices (Cached.executeCondition nautobot c)
      (.ok (executeCondition nautobot devices false c)) := by
  have hquery : Corresponds r calm devices _ _ := corresponds_queryCondition h nautobot c
  unfold Cached.executeCondition executeCondition
  split
  · exact .pure
  · revert hquery
    cases Cached.queryCondition nautobot c with
    | none =>
      cases queryCondition nautobot devices c with
      | none => exact fun _ => .pure
      | some answer => exact False.elim
    | some query =>
      cases queryCondition nautobot devices c with
      | none => exact False.elim
      | some answer =>
        intro hquery
        have hpack : Answers r calm devices (query >>= fun found =>
            pure (packDevices found.1 found.2)) _ := Answers.map hquery
        cases answer with
        | error message => exact hpack.orElse
        | ok found => exact hpack.orElse

theorem answers_executeOperationConditions (h : r.Warm) (conditions : List LogicalCondition) :
    Answers r calm devices (Cached.executeOperationConditions nautobot conditions)
      (.ok (conditions.map fun c => executeCondition nautobot devices false c)) := by
  induction conditions with
  | nil => exact .pure
  | cons c conditions ih =>
    exact (answers_executeCondition h c).andThen ih.map

end Conditions

section Operations

variable {nautobot : Nautobot} {r : Redis} {calm : Prop} {devices : List DeviceInfo}

theorem answers_lookupIds (h : r.Warm) {conditions : List LogicalCondition}
    (hv : ∀ c ∈ conditions, c.value ≠ "") :
    Answers r calm devices (Cached.lookupIds conditions) (.ok (conditions.map fun c =>
      (devices.filter fun d => d.matches c.field c.value (c.operator == "not_equals")).map
        DeviceInfo.id)) := by
  induction conditions with
  | nil => exact .pure
  | cons c conditions ih =>
    rw [List.forall_mem_cons] at hv
    exact (answers_idsByAttribute h hv.1).andThen (ih hv.2).map

theorem commonIds_map (hn : (devices.map DeviceInfo.id).Nodup) (ps : List (DeviceInfo → Bool))
    (hne : ps ≠ []) : Cached.commonIds (ps.map fun p => (devices.filter p).map DeviceInfo.id) =
      (devices.filter fun d => ps.all fun p => p d).map DeviceInfo.id := by
  cases ps with
  | nil => exact absurd rfl hne
  | cons p ps =>
    rw [List.map_cons, Cached.commonIds, List.filter_map, List.filter_filter]
    refine congrArg _ (List.filter_congr fun d hd => ?_)
    have hrest : ((ps.map fun p => (devices.filter p).map DeviceInfo.id).all fun ids =>
        decide (d.id ∈ ids)) = ps.all fun p => p d := by
      rw [List.all_map]
      refine congrArg _ (funext fun p => ?_)
      rw [Function.comp_apply, Bool.eq_iff_iff, decide_eq_true_iff, mem_filter_ids hn hd]
    rw [Function.comp_apply, hrest, List.all_cons, Bool.and_comm]

theorem matchesAll_predicate (indexed : List LogicalCondition) (d : DeviceInfo) :
    matchesAll d (indexed.map Cached.predicate) = indexed.all fun c =>
      d.matches c.field c.value (c.operator == "not_equals") := by
  rw [matchesAll, List.all_map]
  rfl

theorem answers_narrow (h : r.Warm) {indexed : List LogicalCondition} (hne : indexed ≠ [])
    (hv : ∀ c ∈ indexed, c.value ≠ "") :
    Answers r calm devices (Cached.narrow indexed) (.ok (devices.filter fun d =>
      indexed.all fun c => d.matches c.field c.value (c.operator == "not_equals"))) := by
  refine (answers_lookupIds h hv).andThen ?_
  simp only [← matchesAll_predicate]
  refine answers_devicesByIds h (by simpa using hne) ?_
  rintro rfl
  have hcommon := commonIds_map r.unique (indexed.map fun c (d : DeviceInfo) =>
    d.matches c.field c.value (c.operator == "not_equals")) (by simpa using hne)
  rw [List.map_map] at hcommon
  refine hcommon.trans (congrArg _ (List.filter_congr fun d _ => ?_))
  rw [matchesAll_predicate, List.all_map]
  rfl

theorem value_ne_of_indexed {c : LogicalCondition} (h : isIndexedCondition c = true) :
    c.value ≠ "" := by
  simp only [isIndexedCondition, Bool.and_eq_true, decide_eq_true_iff] at h
  exact h.2

theorem answers_narrowByIndex (h : r.Warm) (op : LogicalOperation) :
    Answers r calm devices (Cached.narrowByIndex op)
      (.ok ((narrowByIndex false devices op).map fun p => (p.1, p.2.1.map Prod.fst, p.2.2))) := by
  unfold Cached.narrowByIndex narrowByIndex
  dsimp only
  by_cases hno : op.type ≠ .and ∨ op.conditions.filter isIndexedCondition = []
  · rw [if_pos hno, if_pos (hno.imp_right .inl)]
    exact .pure
  · rw [if_neg hno, if_neg (by simpa [or_assoc] using hno)]
    rw [not_or] at hno
    have hnarrow : Answers r calm devices _ _ := answers_narrow h hno.2 fun c hc =>
      value_ne_of_indexed (List.mem_filter.mp hc).2
    rw [Option.map_some, zipIdx_filter_fst op.conditions fun c => !isIndexedCondition c]
    exact (hnarrow.map (k := fun candidates => some (candidates,
      op.conditions.filter fun c => !isIndexedCondition c,
      (op.conditions.filter isIndexedCondition).length))).orElse

mutual

/-- With Redis or without, an operation selects the same over the same devices. -/
theorem answers_executeOperation (h : r.Warm) :
    ∀ {devices : List DeviceInfo} (op : LogicalOperation), Answers r calm devices
      (Cached.executeOperation nautobot op) (.ok (executeOperation nautobot .none [] devices op))
  | devices, ⟨type, conditions, nested⟩ => by
    unfold Cached.executeOperation executeOperation
    refine (answers_narrowByIndex h ⟨type, conditions, nested⟩).andThen ?_
    have hall : conditions.zipIdx.map (fun p => executeCondition nautobot devices
        (Faults.none.raises [] p.2) p.1) =
        conditions.map fun c => executeCondition nautobot devices false c := by
      conv_rhs => rw [← List.zipIdx_map_fst 0 conditions, List.map_map]
      rfl
    have hlookup : Faults.none.lookupFails [] = false := rfl
    dsimp only
    rw [hall, hlookup]
    cases narrowByIndex false devices ⟨type, conditions, nested⟩ with
    | none =>
      exact (answers_executeOperationConditions h conditions).andThen
        (answers_executeNestedOperations h nested).map
    | some narrowed =>
      obtain ⟨candidates, remaining, count⟩ := narrowed
      cases candidates with
      | nil => exact .pure
      | cons first rest =>
        have hremaining : remaining.map (fun p => executeCondition nautobot (first :: rest)
            (Faults.none.raises [] p.2) p.1) = (remaining.map Prod.fst).map fun c =>
              executeCondition nautobot (first :: rest) false c := by
          rw [List.map_map]
          rfl
        dsimp only [Option.map_some]
        rw [hremaining]
        exact Answers.narrowedTo ((answers_executeOperationConditions h _).andThen
          (answers_executeNestedOperations h nested).map)

theorem answers_executeNestedOperations (h : r.Warm) :
    ∀ {devices : List DeviceInfo} (ops : List LogicalOperation), Answers r calm devices
      (Cached.executeNestedOperations nautobot ops)
      (.ok (executeNestedOperations nautobot .none [] devices 0 ops))
  | devices, [] => by
    unfold Cached.executeNestedOperations executeNestedOperations
    exact .pure
  | devices, op :: ops => by
    unfold Cached.executeNestedOperations executeNestedOperations
    rw [executeOperation_place (fun _ _ => rfl) (fun _ _ => rfl) [0] [],
      executeNestedOperations_place (fun _ _ => rfl) (fun _ _ => rfl) [] [] devices (0 + 1) 0]
    exact (answers_executeOperation h op).andThen (answers_executeNestedOperations h ops).map

end

end Operations

section Transparent

variable {nautobot : Nautobot} {faults : Faults} {devices scope : List DeviceInfo}

structure Nautobot.AnswersFrom (nautobot : Nautobot) (devices : List DeviceInfo) : Prop where
  location : ∀ {value negate found}, nautobot.queryDevicesByLocation value negate = .ok found →
    found ⊆ devices
  ipPrefix : ∀ {value operator found}, nautobot.queryDevicesByIpPrefix value operator = .ok found →
    found ⊆ devices
  primaryPrefix : ∀ {value operator found},
    nautobot.queryDevicesByPrimaryPrefix value operator = .ok found → found ⊆ devices

def oneByOne : Faults where
  raises _ _ := false
  lookupFails _ := true

theorem queryNativeNotEquals_subset (h : nautobot.AnswersFrom devices) (hs : scope ⊆ devices)
    {field value : String} {found : List DeviceInfo} {count : ℕ}
    (hq : queryNativeNotEquals nautobot scope field value = some (.ok (found, count))) :
    found ⊆ devices := by
  have hattribute : ∀ field, devicesByAttribute scope field value true ⊆ devices := by
    intro field
    unfold devicesByAttribute
    split
    · exact List.nil_subset _
    · exact List.Subset.trans List.filter_sublist.subset hs
  unfold queryNativeNotEquals at hq
  split at hq
  · cases ha : nautobot.queryDevicesByLocation value true with
    | error message =>
      rw [ha] at hq
      cases hq
    | ok answer =>
      rw [ha] at hq
      cases hq
      exact h.location ha
  · cases hq
    exact hattribute _
  · cases hq
    exact hattribute _
  · cases hq
    exact hattribute _
  · cases hq

theorem queryMappedField_subset (h : nautobot.AnswersFrom devices) (hs : scope ⊆ devices)
    {field value : String} {contains : Bool} {found : List DeviceInfo}
    (hq : queryMappedField nautobot scope field value contains = some (.ok found)) :
    found ⊆ devices := by
  by_cases hloc : field = "location"
  · subst hloc
    cases contains with
    | true => cases hq
    | false => exact h.location (Option.some.inj hq)
  · rcases scans_mappedField nautobot value contains hloc with hnone | ⟨query, ⟨p, hp⟩, hquery⟩
    · rw [hnone] at hq
      cases hq
    · rw [hquery, hp] at hq
      cases hq
      exact List.Subset.trans List.filter_sublist.subset hs

theorem negation_subset {operator : String} {matched : List DeviceInfo} (hs : scope ⊆ devices)
    (hm : matched ⊆ devices) :
    (if isNegated operator then applyClientNegation scope matched else matched) ⊆ devices := by
  split
  · exact List.Subset.trans List.filter_sublist.subset hs
  · exact hm

/-- A condition finds devices of the snapshot only. -/
theorem queryCondition_subset (h : nautobot.AnswersFrom devices) (hs : scope ⊆ devices)
    {c : LogicalCondition} {found : List DeviceInfo} {count : ℕ}
    (hq : queryCondition nautobot scope c = some (.ok (found, count))) : found ⊆ devices := by
  have hmap : ∀ {answer : Except String (List DeviceInfo)} {k : List DeviceInfo → List DeviceInfo},
      some (answer.map fun ds => (k ds, 1)) = some (.ok (found, count)) →
      ∃ ds, answer = .ok ds ∧ found = k ds := by
    intro answer k he
    cases answer with
    | error message => cases he
    | ok ds =>
      cases he
      exact ⟨ds, rfl, rfl⟩
  unfold queryCondition at hq
  split at hq
  · obtain ⟨ds, ha, rfl⟩ := hmap (k := id) hq
    exact h.ipPrefix ha
  · split at hq
    · obtain ⟨ds, ha, rfl⟩ := hmap (k := id) hq
      exact h.primaryPrefix ha
    · split at hq
      · cases hq
        refine negation_subset hs ?_
        unfold queryDevicesByCustomField
        split
        · exact List.nil_subset _
        · exact List.Subset.trans List.filter_sublist.subset hs
      · rcases Option.or_eq_some_iff.mp hq with hnative | ⟨-, hmapped⟩
        · split at hnative
          · exact queryNativeNotEquals_subset h hs hnative
          · cases hnative
        · obtain ⟨answer, ha, he⟩ := Option.map_eq_some_iff.mp hmapped
          obtain ⟨ds, rfl, rfl⟩ := hmap (k := fun matched => if isNegated c.operator then
            applyClientNegation scope matched else matched) (congrArg some he)
          exact negation_subset hs (queryMappedField_subset h hs ha)

theorem executeCondition_ids (h : nautobot.AnswersFrom devices) (hs : scope ⊆ devices)
    {raises : Bool} {c : LogicalCondition} {id : String}
    (hid : id ∈ (executeCondition nautobot scope raises c).ids) :
    id ∈ devices.map DeviceInfo.id := by
  unfold executeCondition at hid
  split at hid
  · cases hid
  · split at hid
    · cases hid
    · rename_i answer hq
      cases raises with
      | true => cases hid
      | false =>
        cases answer with
        | error message => cases hid
        | ok found =>
          obtain ⟨d, hd, rfl⟩ := List.mem_map.mp (List.mem_toFinset.mp hid)
          exact List.mem_map_of_mem (queryCondition_subset h hs hq hd)

theorem readOperation_some {op : LogicalOperation} {conditions : List Bool}
    {nested : List (LogicalOperation × Bool)} (h : readOperation op conditions nested = true) :
    true ∈ conditions ∨ ∃ p ∈ nested, p.2 = true := by
  have hsome : ∀ {type : OperationType} {c n : List Bool}, combineReadings type c n = true →
      true ∈ c := by
    intro type c n hc
    cases type with
    | and =>
      cases c with
      | nil => cases hc
      | cons b c => simp_all [combineReadings]
    | or => simp_all [combineReadings]
    | not => simp_all [combineReadings]
    | unknown => cases hc
  rcases List.mem_append.mp (hsome h) with hc | hn
  · exact .inl hc
  · obtain ⟨p, hp, he⟩ := List.mem_map.mp hn
    exact .inr ⟨p, (List.mem_filter.mp hp).1, he⟩

theorem finishOperation_ids {op : LogicalOperation} {seed conditions : List Selection}
    {nested : List (LogicalOperation × Selection)} {id : String}
    (h : id ∈ (finishOperation op seed conditions nested).ids) :
    (∃ s ∈ seed, id ∈ s.ids) ∨ (∃ s ∈ conditions, id ∈ s.ids) ∨ ∃ p ∈ nested, id ∈ p.2.ids := by
  rcases readOperation_some (mem_finishOperation.mp h) with hs | ⟨p, hp, he⟩
  · obtain ⟨s, hs, he⟩ := List.mem_map.mp hs
    rcases List.mem_append.mp hs with hs | hs
    · exact .inl ⟨s, hs, of_decide_eq_true he⟩
    · exact .inr (.inl ⟨s, hs, of_decide_eq_true he⟩)
  · obtain ⟨q, hq, rfl⟩ := List.mem_map.mp hp
    exact .inr (.inr ⟨q, hq, of_decide_eq_true he⟩)

mutual

theorem executeOperation_ids (h : nautobot.AnswersFrom devices) (path : List ℕ) {id : String} :
    ∀ {scope : List DeviceInfo}, scope ⊆ devices → ∀ op : LogicalOperation,
      id ∈ (executeOperation nautobot faults path scope op).ids → id ∈ devices.map DeviceInfo.id
  | scope, hs, ⟨type, conditions, nested⟩, hid => by
    unfold executeOperation at hid
    dsimp only at hid
    cases hnarrow : narrowByIndex (faults.lookupFails path) scope ⟨type, conditions, nested⟩ with
    | none =>
      rw [hnarrow] at hid
      rcases finishOperation_ids hid with ⟨s, hseed, -⟩ | ⟨s, hcond, hin⟩ | ⟨p, hp, hin⟩
      · cases hseed
      · obtain ⟨q, -, rfl⟩ := List.mem_map.mp hcond
        exact executeCondition_ids h hs hin
      · exact executeNestedOperations_ids h path hs 0 nested p hp hin
    | some narrowed =>
      obtain ⟨candidates, remaining, count⟩ := narrowed
      obtain ⟨-, -, hcandidates, -⟩ := narrowByIndex_eq_some hnarrow
      have hsub : candidates ⊆ devices := by
        rw [hcandidates]
        exact List.Subset.trans List.filter_sublist.subset hs
      rw [hnarrow] at hid
      cases candidates with
      | nil => cases hid
      | cons first rest =>
        rcases finishOperation_ids hid with ⟨s, hseed, hin⟩ | ⟨s, hcond, hin⟩ | ⟨p, hp, hin⟩
        · obtain rfl := List.mem_singleton.mp hseed
          obtain ⟨d, hd, rfl⟩ := List.mem_map.mp (List.mem_toFinset.mp hin)
          exact List.mem_map_of_mem (hsub hd)
        · obtain ⟨q, -, rfl⟩ := List.mem_map.mp hcond
          exact executeCondition_ids h hsub hin
        · exact executeNestedOperations_ids h path hsub 0 nested p hp hin

theorem executeNestedOperations_ids (h : nautobot.AnswersFrom devices) (path : List ℕ)
    {id : String} : ∀ {scope : List DeviceInfo}, scope ⊆ devices → ∀ i ops,
      ∀ p ∈ executeNestedOperations nautobot faults path scope i ops, id ∈ p.2.ids →
        id ∈ devices.map DeviceInfo.id
  | scope, hs, i, [], p, hp, hid => by
    unfold executeNestedOperations at hp
    cases hp
  | scope, hs, i, op :: ops, p, hp, hid => by
    unfold executeNestedOperations at hp
    rcases List.mem_cons.mp hp with rfl | hp
    · exact executeOperation_ids h (i :: path) hs op hid
    · exact executeNestedOperations_ids h path hs (i + 1) ops p hp hid

end

mutual

theorem allNarrowing_of_all {P Q : LogicalCondition → Prop} (h : ∀ c, P c → Q c) :
    ∀ op : LogicalOperation, op.All P → op.AllNarrowing Q
  | ⟨type, conditions, nested⟩, hop => by
    unfold LogicalOperation.All at hop
    unfold LogicalOperation.AllNarrowing
    exact ⟨fun _ c hc => h c (hop.1 c hc), nestedNarrowing_of_all h nested hop.2⟩

theorem nestedNarrowing_of_all {P Q : LogicalCondition → Prop} (h : ∀ c, P c → Q c) :
    ∀ ops : List LogicalOperation, AllNested P ops → NestedNarrowing Q ops
  | [], _ => by
    unfold NestedNarrowing
    trivial
  | op :: ops, hops => by
    unfold AllNested at hops
    unfold NestedNarrowing
    exact ⟨allNarrowing_of_all h op hops.1, nestedNarrowing_of_all h ops hops.2⟩

end

theorem executeOperation_narrowed (hn : (devices.map DeviceInfo.id).Nodup)
    (h : nautobot.AnswersFrom devices) {op : LogicalOperation}
    (hop : op.All fun c => isBlank c.value = false) :
    (executeOperation nautobot .none [] devices op).ids =
      (executeOperation nautobot oneByOne [] devices op).ids := by
  ext id
  have hids : ∀ faults : Faults, id ∈ (executeOperation nautobot faults [] devices op).ids →
      id ∈ devices.map DeviceInfo.id := fun faults =>
    executeOperation_ids h [] (List.Subset.refl devices) op
  by_cases hid : id ∈ devices.map DeviceInfo.id
  · obtain ⟨d, hd, rfl⟩ := List.mem_map.mp hid
    have hagrees := allNarrowing_of_all (fun c hc => d.indexAgrees_of_not_blank hc) op hop
    rw [mem_executeOperation hn (fun _ _ => rfl) [] (List.Sublist.refl devices) hd op hagrees,
      mem_executeOperation hn (fun _ _ => rfl) [] (List.Sublist.refl devices) hd op hagrees]
  · exact ⟨fun hin => absurd (hids _ hin) hid, fun hin => absurd (hids _ hin) hid⟩

/-- With the devices in Redis, an operation selects what it selects when every condition is asked
one by one over the list in effect. At the end, returned or cancelled, the service holds what it
held before, or it held nothing and now holds the list of all devices. -/
theorem cachedOperation_transparent {r : Redis} (hr : r.Warm) (cache : Option (List DeviceInfo))
    (hn : ((cache.getD r.devices).map DeviceInfo.id).Nodup)
    (h : nautobot.AnswersFrom (cache.getD r.devices)) {op : LogicalOperation}
    (hop : op.All fun c => isBlank c.value = false) :
    ((Cached.executeOperation nautobot op cache).Gives (fun _ => True) r fun result =>
      (∀ selected, result.1 = .ok selected →
        selected.ids = (executeOperation nautobot oneByOne [] (cache.getD r.devices) op).ids) ∧
      (result.2 = cache ∨ cache = none ∧ result.2 = some r.devices)) ∧
    (Cached.executeOperation nautobot op cache).Gives (fun o => o.cancelled = false) r
      fun result => ∃ selected, result.1 = .ok selected := by
  have hanswers : ∀ calm : Prop, Answers r calm (cache.getD r.devices)
      (Cached.executeOperation nautobot op)
      (.ok (executeOperation nautobot .none [] (cache.getD r.devices) op)) :=
    fun _ => answers_executeOperation hr op
  constructor
  · refine ((hanswers False cache rfl).weaken fun o _ => nofun).imp
      fun result hresult => ⟨?_, hresult.2⟩
    intro selected hok
    rw [← executeOperation_narrowed hn h hop]
    rcases hresult.1 with he | ⟨-, he⟩
    · rw [he] at hok
      cases hok
      rfl
    · rw [he] at hok
      cases hok
  · refine ((hanswers True cache rfl).weaken fun o ho _ => ho).imp fun result hresult => ?_
    rcases hresult.1 with he | ⟨hnot, -⟩
    · exact ⟨_, he⟩
    · exact absurd trivial hnot

def oneDevice : Redis where
  devices := [coreDevice]
  unique := by simp

def coreByRole : LogicalOperation := ⟨"AND", [⟨"role", "equals", "leaf"⟩, isCore], []⟩

def byName : LogicalOperation := ⟨"AND", [⟨"name", "equals", "sw1"⟩], []⟩

theorem coreByRole_transparent :
    (Cached.executeOperation oneSite coreByRole none).Gives (fun _ => True) oneDevice
      fun result => ∀ selected, result.1 = .ok selected → selected.ids =
        (executeOperation oneSite oneByOne [] oneDevice.devices coreByRole).ids := by
  have hfrom : oneSite.AnswersFrom oneDevice.devices := by
    constructor
    · intro value negate found hfound
      cases hfound
      split
      · exact List.Subset.refl _
      · exact List.nil_subset _
    · intro value operator found hfound
      cases hfound
      exact List.nil_subset _
    · intro value operator found hfound
      cases hfound
      exact List.nil_subset _
  have hblank : coreByRole.All fun c => isBlank c.value = false := by
    simp only [coreByRole, LogicalOperation.All, AllNested]
    decide +kernel
  have hwarm : oneDevice.Warm := ⟨rfl, by simp [oneDevice]⟩
  exact (cachedOperation_transparent hwarm none oneDevice.unique hfrom hblank).1.imp
    fun _ hresult => hresult.1

/-- A scan by name leaves the list of all devices with the service. -/
theorem byName_keepsList : oneDevice.Warm ∧ (byName.All fun c => isBlank c.value = false) ∧
    ¬ (Cached.executeOperation oneSite byName none).Gives (fun _ => True) oneDevice
      fun result => result.2 = none := by
  have hblank : byName.All fun c => isBlank c.value = false := by
    simp only [byName, LogicalOperation.All, AllNested]
    decide +kernel
  refine ⟨⟨rfl, by simp [oneDevice]⟩, hblank, fun h => ?_⟩
  have hrun : ∃ result, (Cached.executeOperation oneSite byName none).beside
      [.inl ⟨0, [], {}⟩] oneDevice = some (result, [oneDevice, oneDevice]) ∧
      result.2.isSome = true := ⟨_, rfl, rfl⟩
  obtain ⟨result, hrun, hsome⟩ := hrun
  rw [h.beside hrun (by simp)] at hsome
  cases hsome

end Transparent

end Manus
