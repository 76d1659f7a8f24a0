import Manus.Expression.Rounds

/-! # Batched routing is direct routing

Routing may be done with the answers of an oracle at hand, one route after the other.
The rounds of questions come to the same outcomes, provided that no round goes wrong:
once a round leaves nothing open, every route reads the answers that the oracle gives.
-/

namespace Manus.Expression

section Direct

variable (letters : TextCase) (occurredAt : DeviceError → String)
  (oracle : RegexKey → RegexAnswer) (config : Dict Json) (nodeId : String)
  (context : WorkflowContext)

def executeDirectly : Except RouteError (List StepOutcome) :=
  if context.devices.isEmpty then .ok [⟨"success", context⟩]
  else do
    let plan ← (parseConfig letters config).mapError .raised
    let routed ← (routeDevices letters occurredAt plan { results := fun key => some (oracle key) }
      context.devices).mapError .raised
    return outcomes plan nodeId routed context

end Direct

section Deep

def RegexAnswer.holds : RegexAnswer → Bool
  | .found b => b
  | _ => false

variable {letters : TextCase} {occurredAt : DeviceError → String} {plan : RoutePlan}
  {devices : Dict DeviceContext} {oracle : RegexKey → RegexAnswer}

theorem known_collecting (asked : Finset RegexKey) :
    (collecting (answersTo oracle asked)).known =
      Dialogue.answersTo (fun key => (oracle key).holds) asked := by
  funext key
  unfold RegexLookup.known collecting answersTo Dialogue.answersTo
  by_cases h : key ∈ asked
  · simp only [h, if_true, Option.map_some]
    cases oracle key <;> rfl
  · simp [h]

/-- The computation has questions that depend on each other through more levels than there are
rounds: more of them than rounds, asked in this order when every answer is known, each of which
makes the next one come up when it is answered. -/
def DependsDeeply {α : Type} (oracle : RegexKey → RegexAnswer)
    (f : RegexLookup → Evaluation α) : Prop :=
  Asks f ∧ ∀ t, Follows f t → ∃ chain : List RegexKey, maxRegexPasses < chain.length ∧
    chain.Nodup ∧ chain.Sublist (t.trace fun key => (oracle key).holds) ∧
    chain.IsChain (t.Feeds fun key => (oracle key).holds)

/-- Rounds that leave something open to the last leave a deep dependency in one device. -/
theorem exists_dependsDeeply (h : ∀ j ≤ maxRegexPasses, ∃ pending, pending ≠ ∅ ∧
      collectRound letters occurredAt plan devices oracle j = .ok pending) :
    ∃ device ∈ devices.values,
      DependsDeeply oracle fun regex => collectDevice letters occurredAt plan regex device := by
  obtain ⟨last, hne, hlast⟩ := h maxRegexPasses le_rfl
  obtain ⟨key, hkey⟩ := Finset.nonempty_iff_ne_empty.mpr hne
  obtain ⟨device, hdevice, ⟨⟨⟩, opened⟩, hcollect, hopened⟩ :=
    ((collect_eq_ok.mp hlast).2 key).mp hkey
  refine ⟨device, hdevice, collectDevice_asks device, fun t ht => ?_⟩
  have hrun : ∀ (asked opened : Finset RegexKey), collectDevice letters occurredAt plan
      (collecting (answersTo oracle asked)) device ∅ = .ok ((), opened) →
      opened = t.unanswered (Dialogue.answersTo (fun key => (oracle key).holds) asked) := by
    intro asked opened hok
    rw [← known_collecting]
    have heq := (Dialogue.run_eq_ok.mp ((ht.run _ ∅).symm.trans hok)).2
    rwa [Finset.empty_union] at heq
  have hrounds : ∀ m < maxRegexPasses, askedAfter letters occurredAt plan devices oracle m ∪
      t.unanswered (Dialogue.answersTo (fun key => (oracle key).holds)
        (askedAfter letters occurredAt plan devices oracle m)) ⊆
      askedAfter letters occurredAt plan devices oracle (m + 1) := by
    intro m hm
    obtain ⟨pending, -, hround⟩ := h m hm.le
    obtain ⟨hreturns, hpending⟩ := collect_eq_ok.mp hround
    obtain ⟨⟨⟨⟩, opened⟩, hok⟩ := hreturns device hdevice
    rw [askedAfter_succ hround, ← hrun _ _ hok]
    apply Finset.union_subset_union_right
    exact fun k hk => (hpending k).mpr ⟨device, hdevice, _, hok, hk⟩
  have hleft := hrun _ _ hcollect
  rw [hleft] at hopened
  obtain ⟨before, k, after, htrace, hbefore, hk⟩ :=
    Dialogue.exists_first_unanswered ⟨key, hopened⟩
  obtain ⟨l, hlength, hsub, hnodup, hchain⟩ :=
    Dialogue.exists_chain hrounds htrace (fun hmem => hk (hbefore k hmem)) hk
  refine ⟨l ++ [k], ?_, hnodup, ?_, hchain⟩
  · rw [List.length_append, hlength, List.length_singleton]
    exact Nat.lt_succ_self _
  · rw [htrace]
    exact hsub.append (List.Sublist.cons_cons k (List.nil_sublist _))

end Deep

section Settled

variable {letters : TextCase} {occurredAt : DeviceError → String} {plan : RoutePlan}
  {devices : Dict DeviceContext} {oracle : RegexKey → RegexAnswer} {asked : Finset RegexKey}

theorem known_settled (key : RegexKey) (r : Except PyException Bool)
    (h : (collecting (answersTo oracle asked)).known key = some r) :
    RegexLookup.known { results := answersTo oracle asked } key =
      RegexLookup.known { results := fun key => some (oracle key) } key ∧
    ∃ b, r = .ok b ∧
      (RegexLookup.known { results := answersTo oracle asked } key = some (.ok b) ∨
        ∃ e, RegexLookup.known { results := answersTo oracle asked } key = some (.error e)) := by
  unfold RegexLookup.known collecting answersTo at *
  by_cases hmem : key ∈ asked
  · simp only [hmem, if_true, Option.map_some, Option.some.injEq, true_and] at h ⊢
    subst h
    cases oracle key with
    | found b => exact ⟨b, rfl, .inl rfl⟩
    | invalid => exact ⟨false, rfl, .inr ⟨_, rfl⟩⟩
    | stopped => exact ⟨false, rfl, .inr ⟨_, rfl⟩⟩
  · simp [hmem] at h

variable {device : DeviceContext} {error : Option ReportedError} {deviceValue : Option String}

theorem firstMatch_cons {regex : RegexLookup} {route : Route} {routes : List Route}
    {t : Dialogue RegexKey Bool PyException Bool}
    (ht : Follows (fun regex => matchRoute letters plan device deviceValue regex error route) t)
    (pending : Finset RegexKey) :
    firstMatch letters plan device deviceValue regex error (route :: routes) pending =
      t.run regex.known pending >>= fun r =>
        (if r.1 = true then pure (some route.outcome) else
          firstMatch letters plan device deviceValue regex error routes : Evaluation _) r.2 := by
  rw [← ht.run regex pending]
  rfl

/-- The routes that collecting settled are matched as with the oracle at hand. -/
theorem firstMatch_settled {routes : List Route} (hsettled : ∀ route ∈ routes, ∃ b,
      matchRoute letters plan device deviceValue (collecting (answersTo oracle asked)) error route
        ∅ = .ok (b, ∅)) (pending pending' : Finset RegexKey) :
    (firstMatch letters plan device deviceValue { results := answersTo oracle asked } error routes
      pending).map Prod.fst =
    (firstMatch letters plan device deviceValue { results := fun key => some (oracle key) } error
      routes pending').map Prod.fst := by
  induction routes generalizing pending pending' with
  | nil => rfl
  | cons route routes ih =>
    have ih := ih fun r hr => hsettled r (List.mem_cons_of_mem _ hr)
    obtain ⟨b, hb⟩ := hsettled route List.mem_cons_self
    obtain ⟨t, ht⟩ := @matchRoute_asks letters plan device error deviceValue route
    have hunanswered := (Dialogue.run_eq_ok.mp ((ht.run _ ∅).symm.trans hb)).2
    rw [Finset.empty_union] at hunanswered
    have hsame := Dialogue.result_of_settled known_settled hunanswered.symm
    rw [firstMatch_cons ht, firstMatch_cons ht]
    simp only [Dialogue.run, ← hsame]
    generalize t.result (RegexLookup.known { results := answersTo oracle asked }) = result
    cases result with
    | error e => simp only [Except.map, bind, Except.bind]
    | ok hit =>
      cases hit with
      | true =>
        simp only [Except.map, bind, Except.bind, if_true]
        rfl
      | false =>
        simp only [Except.map, bind, Except.bind, Bool.false_eq_true, if_false]
        exact ih _ _

theorem routes_settled {regex : RegexLookup}
    (h : collectDevice letters occurredAt plan regex device ∅ = .ok ((), ∅)) :
    ∃ inputs, deviceInputs occurredAt plan device = .ok inputs ∧ ∀ route ∈ plan.routes, ∃ b,
      matchRoute letters plan device inputs.2.2 regex inputs.1 route ∅ = .ok (b, ∅) := by
  obtain ⟨⟨inputs, pending⟩, hinputs, hloop⟩ := bind_eq_ok.mp h
  rw [lift_apply] at hinputs
  obtain ⟨inputs', hok, heq⟩ := map_eq_ok.mp hinputs
  cases heq
  refine ⟨inputs, hok, fun route hroute => ?_⟩
  obtain ⟨hreturns, hopen⟩ := (forM_eq_ok fun route _ =>
    @discard_asks letters plan device inputs.1 inputs.2.2 route).mp hloop
  obtain ⟨⟨⟨⟩, opened⟩, hturn⟩ := hreturns route hroute
  have hnothing : opened = ∅ := by
    rw [Finset.eq_empty_iff_forall_notMem]
    intro key hkey
    exact Finset.notMem_empty key ((hopen key).mpr (.inr ⟨route, hroute, _, hturn, hkey⟩))
  subst hnothing
  obtain ⟨⟨b, opened⟩, hmatch, heq⟩ := bind_eq_ok.mp hturn
  cases heq
  exact ⟨b, hmatch⟩

theorem routeDevice_settled
    (h : collectDevice letters occurredAt plan (collecting (answersTo oracle asked)) device ∅ =
      .ok ((), ∅)) :
    routeDevice letters occurredAt plan { results := answersTo oracle asked } device =
      routeDevice letters occurredAt plan { results := fun key => some (oracle key) } device := by
  obtain ⟨⟨error, state, deviceValue⟩, hinputs, hroutes⟩ := routes_settled h
  have hsame := firstMatch_settled hroutes ∅ ∅
  simp only [routeDevice, hinputs, bind, Except.bind]
  generalize firstMatch letters plan device deviceValue { results := answersTo oracle asked } error
    plan.routes ∅ = x at hsame
  generalize firstMatch letters plan device deviceValue { results := fun key => some (oracle key) }
    error plan.routes ∅ = y at hsame
  cases x with
  | error e =>
    cases y with
    | error e' =>
      simp only [Except.map, Except.error.injEq] at hsame
      rw [hsame]
    | ok r => simp [Except.map] at hsame
  | ok r =>
    cases y with
    | error e => simp [Except.map] at hsame
    | ok r' =>
      obtain ⟨name, opened⟩ := r
      obtain ⟨name', opened'⟩ := r'
      simp only [Except.map, Except.ok.injEq] at hsame
      subst hsame
      cases name <;> simp only

theorem routeDevices_settled
    (h : collect letters occurredAt plan devices (answersTo oracle asked) = .ok ∅) :
    routeDevices letters occurredAt plan { results := answersTo oracle asked } devices =
      routeDevices letters occurredAt plan { results := fun key => some (oracle key) } devices := by
  obtain ⟨hreturns, hopen⟩ := collect_eq_ok.mp h
  have hdevice : ∀ entry ∈ devices.entries,
      routeDevice letters occurredAt plan { results := answersTo oracle asked } entry.2 =
        routeDevice letters occurredAt plan
          { results := fun key => some (oracle key) } entry.2 := by
    intro entry hentry
    have hvalue : entry.2 ∈ devices.values := List.mem_map_of_mem hentry
    obtain ⟨⟨⟨⟩, opened⟩, hok⟩ := hreturns entry.2 hvalue
    have hnothing : opened = ∅ := by
      rw [Finset.eq_empty_iff_forall_notMem]
      intro key hkey
      exact Finset.notMem_empty key ((hopen key).mpr ⟨entry.2, hvalue, _, hok, hkey⟩)
    exact routeDevice_settled (hnothing ▸ hok)
  apply mapM_congr
  intro entry hentry
  rw [hdevice entry hentry]

end Settled

section Outcomes

variable {letters : TextCase} {occurredAt : DeviceError → String} {plan : RoutePlan}

theorem parseRoute_outcome {seen : List String} {index : ℕ} {raw : Json} {route : Route}
    (h : parseRoute letters seen index raw = .ok route) : route.outcome ∉ seen := by
  cases raw with
  | obj fields =>
    obtain ⟨outcome, -, h⟩ := bind_eq_ok.mp h
    split at h
    · cases h
    · rename_i hproblem
      have hnew : outcome ∉ seen := by
        unfold outcomeProblem at hproblem
        split at hproblem
        · cases hproblem
        · split at hproblem
          · cases hproblem
          · split at hproblem
            · cases hproblem
            · assumption
      split at h
      · cases h
        exact hnew
      · cases h
      · cases h
  | _ => cases h

theorem parseRoutesFrom_nodup {raws : List Json} {seen : List String} {index : ℕ}
    {routes : List Route} (h : parseRoutesFrom letters seen index raws = .ok routes) :
    (routes.map Route.outcome).Nodup ∧ ∀ route ∈ routes, route.outcome ∉ seen := by
  induction raws generalizing seen index routes with
  | nil =>
    cases h
    simp
  | cons raw raws ih =>
    obtain ⟨route, hroute, h⟩ := bind_eq_ok.mp h
    obtain ⟨rest, hrest, h⟩ := bind_eq_ok.mp h
    cases h
    obtain ⟨hnodup, hnew⟩ := ih hrest
    constructor
    · rw [List.map_cons, List.nodup_cons]
      refine ⟨?_, hnodup⟩
      intro hmem
      obtain ⟨route', hroute', heq⟩ := List.mem_map.mp hmem
      exact hnew route' hroute' (heq ▸ List.mem_cons_self)
    · intro route' hroute'
      rcases List.mem_cons.mp hroute' with rfl | hroute'
      · exact parseRoute_outcome hroute
      · exact fun hseen => hnew route' hroute' (List.mem_cons_of_mem _ hseen)

theorem parseRoutes_nodup {config : Dict Json} {routes : List Route}
    (h : parseRoutes letters config = .ok routes) : (routes.map Route.outcome).Nodup := by
  have hlist : ∀ raw, parseRoutes.parseList letters raw = .ok routes →
      (routes.map Route.outcome).Nodup := by
    intro raw hraw
    unfold parseRoutes.parseList at hraw
    split at hraw
    · exact (parseRoutesFrom_nodup hraw).1
    · cases hraw
  unfold parseRoutes at h
  split at h
  · exact hlist _ h
  · exact hlist _ h

theorem parseConfig_nodup {config : Dict Json} (h : parseConfig letters config = .ok plan) :
    (outcomeNames plan).Nodup := by
  obtain ⟨path, -, h⟩ := bind_eq_ok.mp h
  split at h
  · cases h
  · obtain ⟨routes, hroutes, h⟩ := bind_eq_ok.mp h
    obtain ⟨outcome, -, h⟩ := bind_eq_ok.mp h
    split at h
    · cases h
    · cases h
      have hnodup := parseRoutes_nodup hroutes
      unfold outcomeNames
      dsimp only
      split
      · split
        · exact hnodup
        · rename_i name _ hnew
          rw [List.nodup_append]
          refine ⟨hnodup, List.nodup_singleton _, ?_⟩
          rintro x hx y hy rfl
          cases List.mem_singleton.mp hy
          exact hnew hx
      · exact hnodup

theorem firstMatch_mem {device : DeviceContext} {deviceValue : Option String} {regex : RegexLookup}
    {error : Option ReportedError} {routes : List Route} {pending : Finset RegexKey}
    {r : Option String × Finset RegexKey} {name : String}
    (h : firstMatch letters plan device deviceValue regex error routes pending = .ok r)
    (hname : r.1 = some name) : name ∈ routes.map Route.outcome := by
  induction routes generalizing pending with
  | nil =>
    cases h
    cases hname
  | cons route routes ih =>
    obtain ⟨⟨hit, pending'⟩, -, h⟩ := bind_eq_ok.mp h
    cases hit with
    | true =>
      cases h
      cases hname
      exact List.mem_cons_self
    | false => exact List.mem_cons_of_mem _ (ih h)

/-- A device is put in one of the outcomes that there are. -/
theorem routeDevice_placement {regex : RegexLookup} {device : DeviceContext} {r : RoutedDevice}
    {name : String} (h : routeDevice letters occurredAt plan regex device = .ok r)
    (hname : r.placement = .outcome name) : name ∈ outcomeNames plan := by
  have hroutes : ∀ name ∈ plan.routes.map Route.outcome, name ∈ outcomeNames plan := by
    intro name hmem
    unfold outcomeNames
    dsimp only
    split
    · split
      · exact hmem
      · exact List.mem_append_left _ hmem
    · exact hmem
  obtain ⟨⟨error, state, deviceValue⟩, -, h⟩ := bind_eq_ok.mp h
  dsimp only at h
  split at h
  · rename_i hfirst
    cases h
    cases hname
    exact hroutes name (firstMatch_mem hfirst rfl)
  · cases h
    simp only [defaultPlacement] at hname
    split at hname
    · rename_i default hdefault
      cases hname
      simp only [outcomeNames, hdefault]
      split
      · assumption
      · exact List.mem_append_right _ List.mem_cons_self
    · cases hname
  · cases h
    cases hname
  · cases h

theorem routeDevices_lookup {regex : RegexLookup} {devices : Dict DeviceContext}
    {routed : List (String × RoutedDevice)}
    (h : routeDevices letters occurredAt plan regex devices = .ok routed) {id : String}
    (hid : id ∈ devices.keys) : ∃ r, routed.lookup id = some r ∧
      ∀ name, r.placement = .outcome name → name ∈ outcomeNames plan := by
  unfold routeDevices at h
  unfold Dict.keys at hid
  generalize devices.entries = entries at h hid
  induction entries generalizing routed with
  | nil => cases hid
  | cons entry entries ih =>
    rw [List.mapM_cons] at h
    obtain ⟨first, hfirst, h⟩ := bind_eq_ok.mp h
    obtain ⟨rest, hrest, h⟩ := bind_eq_ok.mp h
    cases h
    obtain ⟨r, hr, hfirst⟩ := bind_eq_ok.mp hfirst
    cases hfirst
    rw [Dict.lookup_pair_cons]
    by_cases heq : id = entry.1
    · rw [if_pos heq]
      exact ⟨r, rfl, fun name => routeDevice_placement hr⟩
    · rw [if_neg heq]
      exact ih hrest ((List.mem_cons.mp hid).resolve_left heq)

variable {devices : Dict DeviceContext} {routed : List (String × RoutedDevice)} {id : String}
  {r : RoutedDevice}

theorem mem_bucket (hlookup : routed.lookup id = some r) (hid : id ∈ devices.keys) (name : String) :
    id ∈ (bucket routed devices name).keys ↔ r.placement = .outcome name := by
  rw [Dict.mem_keys_iff, bucket, Dict.get?_restrict, hlookup]
  have hsome := Dict.mem_keys_iff.mp hid
  by_cases h : r.placement = .outcome name <;> simp [h, hsome]

theorem mem_unmatched {nodeId : String} (hlookup : routed.lookup id = some r)
    (hid : id ∈ devices.keys) : id ∈ (unmatched nodeId routed devices).keys ↔
      ∃ code message, r.placement = .failure code message := by
  rw [Dict.mem_keys_iff, unmatched, Dict.get?_ofPairs]
  rw [List.lookup_isSome_iff]
  simp only [List.mem_reverse, List.mem_filterMap]
  constructor
  · rintro ⟨p, ⟨entry, hentry, hfailed⟩, heq⟩
    split at hfailed
    · rename_i code message hplace
      cases hfailed
      obtain rfl : id = entry.1 := by simpa using heq
      rw [hlookup] at hplace
      exact ⟨code, message, Option.some.inj hplace⟩
    · cases hfailed
  · rintro ⟨code, message, hplace⟩
    obtain ⟨entry, hentry, rfl⟩ := List.mem_map.mp hid
    refine ⟨(entry.1, markDeviceFailed entry.2 nodeId "route-on-attribute" code message),
      ⟨entry, hentry, ?_⟩, ?_⟩
    · simp only [hlookup, Option.map_some, hplace]
    · exact beq_self_eq_true _

/-- Every device is in one outcome, and in no other. -/
theorem outcomes_count {context : WorkflowContext} {nodeId : String}
    (hnodup : (outcomeNames plan).Nodup) (hid : id ∈ context.devices.keys)
    (hlookup : routed.lookup id = some r)
    (hname : ∀ name, r.placement = .outcome name → name ∈ outcomeNames plan) :
    (outcomes plan nodeId routed context).countP
      (fun outcome => decide (id ∈ outcome.context.devices.keys)) = 1 := by
  unfold outcomes
  dsimp only
  rw [List.countP_append, List.countP_map]
  have hbucket : (outcomeNames plan).countP ((fun outcome : StepOutcome =>
      decide (id ∈ outcome.context.devices.keys)) ∘ fun name => ⟨name, { context with
        devices := bucket routed context.devices name
        metadata := routedMetadata plan nodeId routed context }⟩) =
      (outcomeNames plan).countP fun name => decide (r.placement = .outcome name) := by
    apply List.countP_congr
    intro name _
    simp [mem_bucket hlookup hid]
  rw [hbucket]
  cases hplace : r.placement with
  | outcome name =>
    have hone : (outcomeNames plan).countP
        (fun name' => decide (Placement.outcome name = .outcome name')) = 1 := by
      rw [← List.count_eq_one_of_mem hnodup (hname name hplace), List.count]
      apply List.countP_congr
      intro name' _
      rw [decide_eq_true_iff, Placement.outcome.injEq, beq_iff_eq, eq_comm]
    have hnot : id ∉ (unmatched nodeId routed context.devices).keys := by
      rw [mem_unmatched hlookup hid, hplace]
      rintro ⟨code, message, heq⟩
      cases heq
    rw [hone]
    split
    · rfl
    · rw [List.countP_singleton, decide_eq_false hnot]
      rfl
  | failure code message =>
    have hmem : id ∈ (unmatched nodeId routed context.devices).keys :=
      (mem_unmatched hlookup hid).mpr ⟨code, message, hplace⟩
    have hfull : ¬ (unmatched nodeId routed context.devices).isEmpty = true := by
      intro hempty
      rw [Dict.mem_keys_iff, Dict.isEmpty_iff.mp hempty id] at hmem
      cases hmem
    have hnone : (outcomeNames plan).countP
        (fun name => decide (Placement.failure code message = .outcome name)) = 0 := by
      rw [List.countP_eq_zero]
      intro name _
      rw [decide_eq_true_iff]
      exact Placement.noConfusion
    rw [hnone, if_neg hfull, List.countP_singleton, decide_eq_true hmem]
    rfl

end Outcomes

section Refinement

variable (letters : TextCase) (occurredAt : DeviceError → String)
  (oracle : RegexKey → RegexAnswer) (config : Dict Json) (nodeId : String)
  (context : WorkflowContext)

structure RoutesAsDirectly : Prop where
  /-- The same outcomes, unless the rounds do not come to an end. -/
  sameOutcomes :
    execute letters occurredAt (answersBy oracle) config nodeId context ≠ .error levelsDeep →
    (execute letters occurredAt (answersBy oracle) config nodeId context).toOption =
      (executeDirectly letters occurredAt oracle config nodeId context).toOption
  onceEach : ∀ outcomes, execute letters occurredAt (answersBy oracle) config nodeId context =
    .ok outcomes → ∀ id ∈ context.devices.keys,
      outcomes.countP (fun outcome => decide (id ∈ outcome.context.devices.keys)) = 1
  /-- The rounds come to an end unless the questions of a device depend on each other deeply. -/
  deepOnly : execute letters occurredAt (answersBy oracle) config nodeId context =
    .error levelsDeep → ∃ plan, parseConfig letters config = .ok plan ∧
      ∃ device ∈ context.devices.values, DependsDeeply oracle fun regex =>
        collectDevice letters occurredAt plan regex device

/-- No lookup and no expression of a route goes wrong, for any device, with the answers that are
known in any of the rounds. -/
def RoundsReturn : Prop :=
  ∀ plan, parseConfig letters config = .ok plan → ∀ n ≤ maxRegexPasses,
    ∀ device ∈ context.devices.values, ¬ DeviceFails letters occurredAt plan
      (answersTo oracle (askedAfter letters occurredAt plan context.devices oracle n)) device

variable {letters occurredAt oracle config nodeId context}

theorem execute_empty (h : context.devices.isEmpty = true) :
    execute letters occurredAt (answersBy oracle) config nodeId context =
      executeDirectly letters occurredAt oracle config nodeId context := by
  simp only [execute, executeDirectly, h, if_true]

theorem execute_refused {e : PyException} (hfull : ¬ context.devices.isEmpty = true)
    (h : parseConfig letters config = .error e) :
    execute letters occurredAt (answersBy oracle) config nodeId context = .error (.raised e) ∧
      executeDirectly letters occurredAt oracle config nodeId context = .error (.raised e) := by
  unfold execute executeDirectly
  rw [if_neg hfull, if_neg hfull, h]
  exact ⟨rfl, rfl⟩

theorem execute_accepted {plan : RoutePlan} (hfull : ¬ context.devices.isEmpty = true)
    (hplan : parseConfig letters config = .ok plan) :
    execute letters occurredAt (answersBy oracle) config nodeId context =
      answerRegexQuestions letters occurredAt (answersBy oracle) plan context.devices >>=
        fun answers => (routeDevices letters occurredAt plan { results := answers }
          context.devices).mapError .raised >>= fun routed =>
            .ok (outcomes plan nodeId routed context) := by
  unfold execute
  rw [if_neg hfull, hplan]
  rfl

theorem executeDirectly_accepted {plan : RoutePlan} (hfull : ¬ context.devices.isEmpty = true)
    (hplan : parseConfig letters config = .ok plan) :
    executeDirectly letters occurredAt oracle config nodeId context =
      (routeDevices letters occurredAt plan { results := fun key => some (oracle key) }
        context.devices).mapError .raised >>= fun routed =>
          .ok (outcomes plan nodeId routed context) := by
  unfold executeDirectly
  rw [if_neg hfull, hplan]
  rfl

theorem execute_cases {plan : RoutePlan} (hfull : ¬ context.devices.isEmpty = true)
    (hplan : parseConfig letters config = .ok plan) :
    (execute letters occurredAt (answersBy oracle) config nodeId context =
        executeDirectly letters occurredAt oracle config nodeId context ∧
      ∀ n, ∃ pending, collectRound letters occurredAt plan context.devices oracle n =
        .ok pending) ∨
    (execute letters occurredAt (answersBy oracle) config nodeId context = .error levelsDeep ∧
      ∀ n ≤ maxRegexPasses, ∃ pending, pending ≠ ∅ ∧
        collectRound letters occurredAt plan context.devices oracle n = .ok pending) ∨
    ∃ n ≤ maxRegexPasses, ∃ e,
      execute letters occurredAt (answersBy oracle) config nodeId context = .error (.raised e) ∧
      collectRound letters occurredAt plan context.devices oracle n = .error e := by
  have hends := @answerRegexQuestions_ends letters occurredAt plan context.devices oracle
  rw [execute_accepted hfull hplan, executeDirectly_accepted hfull hplan]
  generalize answerRegexQuestions letters occurredAt (answersBy oracle) plan context.devices = r
    at hends
  cases hends with
  | settled m hm hall =>
    left
    refine ⟨?_, fun n => hall n (Nat.zero_le n)⟩
    rw [← routeDevices_settled hm]
    rfl
  | deep hall => exact .inr (.inl ⟨rfl, fun n hn => hall n (Nat.zero_le n) hn⟩)
  | raised n e _ hn hround => exact .inr (.inr ⟨n, hn, e, rfl, hround⟩)

theorem roundsReturn_iff {plan : RoutePlan} (hplan : parseConfig letters config = .ok plan) :
    RoundsReturn letters occurredAt oracle config context ↔ ∀ n ≤ maxRegexPasses,
      ∃ pending, collectRound letters occurredAt plan context.devices oracle n = .ok pending := by
  simp only [collectRound, collect_returns_iff, RoundsReturn, hplan, Except.ok.injEq,
    forall_eq']

theorem outcomes_of_directly {outcomes : List StepOutcome} {id : String}
    (h : executeDirectly letters occurredAt oracle config nodeId context = .ok outcomes)
    (hid : id ∈ context.devices.keys) :
    outcomes.countP (fun outcome => decide (id ∈ outcome.context.devices.keys)) = 1 := by
  unfold executeDirectly at h
  split at h
  · rename_i hempty
    rw [Dict.mem_keys_iff, Dict.isEmpty_iff.mp hempty id] at hid
    cases hid
  · obtain ⟨plan, hplan, h⟩ := bind_eq_ok.mp h
    obtain ⟨routed, hrouted, h⟩ := bind_eq_ok.mp h
    cases h
    obtain ⟨r, hlookup, hname⟩ := routeDevices_lookup (mapError_eq_ok.mp hrouted) hid
    exact outcomes_count (parseConfig_nodup (mapError_eq_ok.mp hplan)) hid hlookup hname

theorem executeDirectly_not_deep :
    executeDirectly letters occurredAt oracle config nodeId context ≠ .error levelsDeep := by
  intro h
  unfold executeDirectly at h
  split at h
  · cases h
  · cases hplan : parseConfig letters config with
    | error e =>
      rw [hplan] at h
      cases h
    | ok plan =>
      rw [hplan] at h
      change ((routeDevices letters occurredAt plan { results := fun key => some (oracle key) }
        context.devices).mapError RouteError.raised >>= fun routed =>
          .ok (outcomes plan nodeId routed context)) = _ at h
      generalize routeDevices letters occurredAt plan { results := fun key => some (oracle key) }
        context.devices = routed at h
      cases routed <;> cases h

theorem routesAsDirectly_of_eq
    (h : execute letters occurredAt (answersBy oracle) config nodeId context =
      executeDirectly letters occurredAt oracle config nodeId context) :
    RoutesAsDirectly letters occurredAt oracle config nodeId context where
  sameOutcomes _ := by rw [h]
  onceEach outcomes houtcomes id hid := outcomes_of_directly (h.symm.trans houtcomes) hid
  deepOnly hdeep := absurd (h.symm.trans hdeep) executeDirectly_not_deep

theorem routesAsDirectly_of_raised {e : PyException} {e' : RouteError}
    (h : execute letters occurredAt (answersBy oracle) config nodeId context = .error (.raised e))
    (h' : executeDirectly letters occurredAt oracle config nodeId context = .error e') :
    RoutesAsDirectly letters occurredAt oracle config nodeId context where
  sameOutcomes _ := by
    rw [h, h']
    rfl
  onceEach outcomes houtcomes := by
    rw [h] at houtcomes
    cases houtcomes
  deepOnly hdeep := by
    rw [h] at hdeep
    cases hdeep

theorem routesAsDirectly_of_deep {plan : RoutePlan} (hplan : parseConfig letters config = .ok plan)
    (h : execute letters occurredAt (answersBy oracle) config nodeId context = .error levelsDeep)
    (hrounds : ∀ n ≤ maxRegexPasses, ∃ pending, pending ≠ ∅ ∧
      collectRound letters occurredAt plan context.devices oracle n = .ok pending) :
    RoutesAsDirectly letters occurredAt oracle config nodeId context where
  sameOutcomes hnot := absurd h hnot
  onceEach outcomes houtcomes := by
    rw [h] at houtcomes
    cases houtcomes
  deepOnly _ := ⟨plan, hplan, exists_dependsDeeply hrounds⟩

theorem directly_raises {e : PyException}
    (h : execute letters occurredAt (answersBy oracle) config nodeId context = .error (.raised e))
    (hroutes : RoutesAsDirectly letters occurredAt oracle config nodeId context) :
    ∃ e', executeDirectly letters occurredAt oracle config nodeId context = .error e' := by
  have hsame := hroutes.sameOutcomes (by rw [h]; exact nofun)
  rw [h] at hsame
  cases hdirect : executeDirectly letters occurredAt oracle config nodeId context with
  | error e' => exact ⟨e', rfl⟩
  | ok outcomes =>
    rw [hdirect] at hsame
    cases hsame

/-- Routing in rounds is routing with the oracle at hand, exactly when no round goes wrong or the
direct routing does so too. -/
theorem execute_routes_iff (letters : TextCase) (occurredAt : DeviceError → String)
    (oracle : RegexKey → RegexAnswer) (config : Dict Json) (nodeId : String)
    (context : WorkflowContext) :
    RoutesAsDirectly letters occurredAt oracle config nodeId context ↔
      RoundsReturn letters occurredAt oracle config context ∨
        ∃ e, executeDirectly letters occurredAt oracle config nodeId context = .error e := by
  by_cases hempty : context.devices.isEmpty = true
  · have hnone : context.devices.values = [] := by
      simpa [Dict.isEmpty, Dict.values] using hempty
    constructor
    · intro _
      left
      intro plan _ n _ device hdevice
      rw [hnone] at hdevice
      cases hdevice
    · exact fun _ => routesAsDirectly_of_eq (execute_empty hempty)
  · cases hplan : parseConfig letters config with
    | error e =>
      obtain ⟨hexecute, hdirect⟩ := @execute_refused letters occurredAt oracle config nodeId
        context e hempty hplan
      constructor
      · exact fun _ => .inr ⟨_, hdirect⟩
      · exact fun _ => routesAsDirectly_of_raised hexecute hdirect
    | ok plan =>
      rw [roundsReturn_iff hplan]
      rcases @execute_cases letters occurredAt oracle config nodeId context plan hempty hplan with
        ⟨hsame, hround⟩ | ⟨hdeep, hround⟩ | ⟨n, hn, e, hraised, hround⟩
      · constructor
        · exact fun _ => .inl fun n _ => hround n
        · exact fun _ => routesAsDirectly_of_eq hsame
      · constructor
        · intro _
          left
          intro n hn
          obtain ⟨pending, -, h⟩ := hround n hn
          exact ⟨pending, h⟩
        · exact fun _ => routesAsDirectly_of_deep hplan hdeep hround
      · constructor
        · exact fun h => .inr (directly_raises hraised h)
        · rintro (h | ⟨e', hdirect⟩)
          · obtain ⟨pending, hok⟩ := h n hn
            rw [hround] at hok
            cases hok
          · exact routesAsDirectly_of_raised hraised hdirect

end Refinement

section Examples

def hitThenCrash : Dict Json := .ofPairs [("attribute_path", .str "device.name"),
  ("routes", .arr [.obj [("outcome", .str "switch"), ("values", .arr [.str "sw1"])],
    .obj [("outcome", .str "other"), ("values", .arr [.str cutAtInfinity])]])]

def oneDevice : WorkflowContext :=
  { runId := "r1", workflowId := "w1", devices := .ofPairs [("d1", namedDevice)] }

def overflows {α : Type} : Except RouteError α → Bool
  | .error (.raised (.overflowError _)) => true
  | _ => false

/-- The device belongs to the first route; collecting for the second one fails the step. -/
theorem hitThenCrash_raises :
    (∃ outcomes, executeDirectly asciiCase (fun _ => "") (fun _ => .found true) hitThenCrash "n1"
      oneDevice = .ok outcomes ∧ outcomes.map (fun o => (o.name, o.context.devices.keys)) =
        [("switch", ["d1"]), ("other", [])]) ∧
    (∃ message, execute asciiCase (fun _ => "") (answersBy fun _ => .found true) hitThenCrash "n1"
      oneDevice = .error (.raised (.overflowError message))) ∧
    ¬ RoutesAsDirectly asciiCase (fun _ => "") (fun _ => .found true) hitThenCrash "n1"
      oneDevice := by
  have hquery : ((executeDirectly asciiCase (fun _ => "") (fun _ => .found true) hitThenCrash "n1"
      oneDevice).toOption.any fun outcomes =>
        outcomes.map (fun o => (o.name, o.context.devices.keys)) ==
          [("switch", ["d1"]), ("other", [])]) = true := by
    decide +kernel
  have hraises : overflows (execute asciiCase (fun _ => "") (answersBy fun _ => .found true)
      hitThenCrash "n1" oneDevice) = true := by
    decide +kernel
  obtain ⟨outcomes, hdirect, hplaces⟩ := (Option.any_eq_true _ _).mp hquery
  have hdirect := toOption_eq_some.mp hdirect
  have hexecute : ∃ message, execute asciiCase (fun _ => "") (answersBy fun _ => .found true)
      hitThenCrash "n1" oneDevice = .error (.raised (.overflowError message)) := by
    unfold overflows at hraises
    split at hraises
    · rename_i message h
      exact ⟨message, h⟩
    · cases hraises
  refine ⟨⟨outcomes, hdirect, by simpa using hplaces⟩, hexecute, fun hroutes => ?_⟩
  obtain ⟨message, h⟩ := hexecute
  obtain ⟨e, herror⟩ := directly_raises h hroutes
  rw [hdirect] at herror
  cases herror

end Examples

end Manus.Expression
