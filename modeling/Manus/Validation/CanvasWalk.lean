import Manus.Lib.Dataflow
import Manus.Validation.CapabilityGraph

/-! # What the canvas keeps for an edge

The canvas orders its nodes by Kahn's algorithm and visits them in this order. When
no handle has a colon in it, the keys of outcomes are apart, and what is kept for an
edge in the end is what the node that it leaves makes of its input.
-/

namespace Manus.CapabilityGraph

open Topological

section Order

variable {dependents : String → List String} {univ : List String}

theorem foldl_releaseNext (deps : List String) (degree : String → ℕ) (queue : List String)
    (hd : ∀ t, deps.count t ≤ degree t) :
    deps.foldl releaseNext (fun t => (degree t : ℤ), queue) =
      (fun t => ((deps.foldl release (degree, queue)).1 t : ℤ),
        (deps.foldl release (degree, queue)).2) := by
  induction deps generalizing degree queue with
  | nil => rfl
  | cons dep deps ih =>
    have hpos : 1 ≤ degree dep := by
      have hcount := hd dep
      rw [List.count_cons_self] at hcount
      omega
    have hcast : (degree dep : ℤ) - 1 = ((degree dep - 1 : ℕ) : ℤ) := by omega
    have hfirst : releaseNext (fun t => (degree t : ℤ), queue) dep =
        (fun t => ((release (degree, queue) dep).1 t : ℤ), (release (degree, queue) dep).2) := by
      simp only [releaseNext, release, hcast, Int.natCast_eq_zero]
      refine Prod.ext (funext fun t => ?_) rfl
      dsimp only
      by_cases ht : t = dep
      · rw [ht, Function.update_self, Function.update_self]
      · rw [Function.update_of_ne ht, Function.update_of_ne ht]
    rw [List.foldl_cons, List.foldl_cons, hfirst]
    refine ih _ _ fun t => ?_
    have hcount := hd t
    simp only [release]
    by_cases ht : t = dep
    · subst ht
      rw [List.count_cons_self] at hcount
      rw [Function.update_self]
      omega
    · rw [List.count_cons_of_ne (Ne.symm ht)] at hcount
      rwa [Function.update_of_ne ht]

theorem orderLoop_eq_kahn (hu : univ.Nodup) (ht : ∀ v ∈ univ, ∀ t ∈ dependents v, t ∈ univ)
    {fuel : ℕ} {degree : String → ℕ} {queue order : List String}
    (h : KahnInv dependents univ degree queue order) :
    orderLoop dependents fuel (fun t => (degree t : ℤ)) queue order =
      kahn dependents fuel degree queue order := by
  induction fuel generalizing degree queue order with
  | zero => rfl
  | succ fuel ih =>
    cases queue with
    | nil => rfl
    | cons v queue =>
      rw [orderLoop, foldl_releaseNext _ _ _ h.count_le, kahn]
      exact ih (h.step hu ht)

theorem foldl_releaseNext_inside (deps queue : List String) {degree degree' : String → ℤ}
    (hsame : ∀ t ∈ univ, degree t = degree' t)
    (houtside : ∀ t, t ∉ univ → degree t ≤ 0) :
    let s := deps.foldl releaseNext (degree, queue)
    let s' := (deps.filter (· ∈ univ)).foldl releaseNext (degree', queue)
    s.2 = s'.2 ∧ (∀ t ∈ univ, s.1 t = s'.1 t) ∧ ∀ t, t ∉ univ → s.1 t ≤ 0 := by
  induction deps generalizing degree degree' queue with
  | nil => exact ⟨rfl, hsame, houtside⟩
  | cons dep deps ih =>
    have hnext : ∀ t, t ∉ univ → (releaseNext (degree, queue) dep).1 t ≤ 0 := by
      intro t ht
      dsimp only [releaseNext]
      by_cases hdep : t = dep
      · rw [hdep, Function.update_self]
        have hle := houtside dep (hdep ▸ ht)
        omega
      · rw [Function.update_of_ne hdep]
        exact houtside t ht
    by_cases hdep : dep ∈ univ
    · have hqueue : (releaseNext (degree, queue) dep).2 = (releaseNext (degree', queue) dep).2 := by
        simp only [releaseNext, hsame dep hdep]
      rw [List.filter_cons_of_pos (by simpa using hdep), List.foldl_cons, List.foldl_cons,
        ← Prod.mk.eta (p := releaseNext (degree', queue) dep), ← hqueue]
      refine ih _ (fun t ht => ?_) hnext
      simp only [releaseNext, Function.update_apply, hsame dep hdep, hsame t ht]
    · -- a count below zero never comes to be zero
      have hqueue : (releaseNext (degree, queue) dep).2 = queue := by
        have hle := houtside dep hdep
        have hne : degree dep - 1 ≠ 0 := by omega
        exact if_neg hne
      rw [List.filter_cons_of_neg (by simpa using hdep), List.foldl_cons,
        ← Prod.mk.eta (p := releaseNext (degree, queue) dep), hqueue]
      refine ih _ (fun t ht => ?_) hnext
      have hne : t ≠ dep := fun he => hdep (he ▸ ht)
      exact (Function.update_of_ne hne _ _).trans (hsame t ht)

/-- Dependents that are no nodes never join the queue. -/
theorem orderLoop_inside {fuel : ℕ} {degree degree' : String → ℤ} {queue order : List String}
    (hsame : ∀ t ∈ univ, degree t = degree' t) (houtside : ∀ t, t ∉ univ → degree t ≤ 0) :
    orderLoop dependents fuel degree queue order =
      orderLoop (fun v => (dependents v).filter (· ∈ univ)) fuel degree' queue order := by
  induction fuel generalizing degree degree' queue order with
  | zero => rfl
  | succ fuel ih =>
    cases queue with
    | nil => rfl
    | cons v queue =>
      obtain ⟨hqueue, hsame', houtside'⟩ :=
        foldl_releaseNext_inside (dependents v) queue hsame houtside
      rw [orderLoop, orderLoop, hqueue]
      exact ih hsame' houtside'

end Order

section Wiring

variable {nodes : List ProjectedCanvasNode} {edges : List CanvasEdge}

def Leads (edges : List CanvasEdge) (a b : String) : Prop :=
  ∃ e ∈ edges, e.source = a ∧ e.target = b

theorem mem_dependentsOf {a b : String} : b ∈ dependentsOf edges a ↔ Leads edges a b := by
  simp only [dependentsOf, List.mem_map, List.mem_filter, beq_iff_eq, Leads]
  constructor
  · rintro ⟨e, ⟨he, rfl⟩, rfl⟩
    exact ⟨e, he, rfl, rfl⟩
  · rintro ⟨e, he, rfl, rfl⟩
    exact ⟨e, ⟨he, rfl⟩, rfl⟩

/-- The order of the canvas has every node once, after its parents. -/
theorem canvasOrder_spec (hnodup : (nodes.map (·.id)).Nodup)
    (hsources : ∀ e ∈ edges, e.source ∈ nodes.map (·.id))
    (hacyclic : ∀ a, ¬ Relation.TransGen (Leads edges) a a) :
    (canvasOrder nodes edges).Nodup ∧
      (∀ a, a ∈ canvasOrder nodes edges ↔ a ∈ nodes.map (·.id)) ∧
      ReadyOrder (Leads edges) [] (canvasOrder nodes edges) := by
  obtain ⟨ids, hids⟩ : ∃ ids, ids = nodes.map (·.id) := ⟨_, rfl⟩
  rw [← hids] at hnodup hsources
  obtain ⟨inner, hinner⟩ : ∃ inner, inner = edges.filter fun e => e.target ∈ ids := ⟨_, rfl⟩
  have hmem : ∀ e, e ∈ inner ↔ e ∈ edges ∧ e.target ∈ ids := by
    intro e
    rw [hinner, List.mem_filter, decide_eq_true_iff]
  have ht : ∀ v ∈ ids, ∀ t ∈ dependentsOf inner v, t ∈ ids := by
    intro v _ t hdep
    obtain ⟨e, he, -, rfl⟩ := mem_dependentsOf.mp hdep
    exact ((hmem e).mp he).2
  have hd := count_dependentsOf inner hnodup fun e he => hsources e ((hmem e).mp he).1
  have hdependents : (fun v => (dependentsOf edges v).filter (· ∈ ids)) = dependentsOf inner := by
    funext v
    rw [dependentsOf, dependentsOf, hinner, List.filter_map, List.filter_filter, List.filter_filter]
    exact congrArg _ (List.filter_congr fun e _ => Bool.and_comm _ _)
  have hdegree : ∀ t ∈ ids, inDegree nodes edges t =
      ((inner.countP fun e => e.target == t : ℕ) : ℤ) := by
    intro t htarget
    rw [inDegree, ← hids, if_pos htarget, hinner, List.countP_filter]
    congr 1
    refine List.countP_congr fun e _ => ?_
    rw [Bool.and_eq_true, decide_eq_true_iff, beq_iff_eq]
    exact (and_iff_left_of_imp fun he => he ▸ htarget).symm
  have houtside : ∀ t, t ∉ ids → inDegree nodes edges t ≤ 0 := by
    intro t htarget
    rw [inDegree, ← hids, if_neg htarget]
  have hqueue : ids.filter (fun nodeId => inDegree nodes edges nodeId = 0) =
      ids.filter fun t => (inner.countP fun e => e.target == t) = 0 := by
    refine List.filter_congr fun t htarget => ?_
    rw [hdegree t htarget]
    simp only [Int.natCast_eq_zero]
  have hinit : KahnInv (dependentsOf inner) ids _ _ _ := KahnInv.init hnodup hd
  have horder : canvasOrder nodes edges = kahn (dependentsOf inner)
      (nodes.length + edges.length) (fun t => inner.countP fun e => e.target == t)
      (ids.filter fun t => (inner.countP fun e => e.target == t) = 0) [] := by
    rw [canvasOrder, ← hids, hqueue, orderLoop_inside hdegree houtside, hdependents]
    exact orderLoop_eq_kahn hnodup ht hinit
  obtain ⟨hnd, hsub, hready⟩ := kahn_spec (n := nodes.length + edges.length) hnodup ht hinit
  have hall := kahn_complete (n := nodes.length + edges.length) hnodup ht
    (fun v hv => hacyclic v (hv.lift id fun p q hp => by
      obtain ⟨e, he, hends⟩ := mem_dependentsOf.mp hp.2
      exact ⟨e, ((hmem e).mp he).1, hends⟩))
    hinit (by
      rw [hids, List.length_map, List.length_nil]
      omega)
  rw [horder, ← hids]
  refine ⟨hnd, fun a => ⟨hsub a, hall a⟩, hready.mono fun v hv p hp => ?_⟩
  obtain ⟨e, he, rfl, rfl⟩ := hp
  exact ⟨hsources e he,
    mem_dependentsOf.mpr ⟨e, (hmem e).mpr ⟨he, hsub _ hv⟩, rfl, rfl⟩⟩

end Wiring

section Plain

@[mk_iff]
structure Mirrors (n : ProjectedCanvasNode) (plugin : PluginDefinition) : Prop where
  produces : n.produces.getD [] = plugin.produces
  producesParsed : n.producesParsed.getD [] = plugin.producesParsed
  consumes : n.consumes.getD [] = plugin.consumes
  outcomes : n.outcomes.getD [] = plugin.outcomes
  effective : (effectiveProduces (capabilitySpecFromPlugin plugin) plugin.id
    n.data.pluginConfig).toFinset = plugin.produces.toFinset

instance (n : ProjectedCanvasNode) (plugin : PluginDefinition) : Decidable (Mirrors n plugin) :=
  decidable_of_iff _ (mirrors_iff n plugin).symm

def isOutcomeName (name : String) : Bool :=
  match name.toList with
  | [] => false
  | c :: rest => c.isLower && rest.all fun c => c.isLower || c.isDigit || c == '_' || c == '-'

/-- A canvas without cycles, funnels, disabled steps and stop-here, whose nodes mirror their
steps. -/
structure PlainCanvas (registry : PluginRegistry) (nodes : List ProjectedCanvasNode)
    (edges : List CanvasEdge) : Prop where
  named : ∀ p ∈ registry.plugins, ∀ name ∈ p.outcomes, isOutcomeName name = true
  acyclic : ∀ a, ¬ Relation.TransGen (Leads edges) a a
  plain : ∀ n ∈ nodes, n.data.disabled = false ∧ n.data.kind ≠ some "funnel" ∧
    n.data.kind ≠ some "stop-here"
  mirrors : ∀ n ∈ nodes, ∃ plugin, pluginById registry n.data.kind = some plugin ∧
    Mirrors n plugin

/-- Ids are unique, edges leave steps that are executed, and an edge that does not end in such a
step leaves by a declared outcome; no handle has a colon in it. -/
structure WellWired (registry : PluginRegistry) (nodes : List ProjectedCanvasNode)
    (edges : List CanvasEdge) : Prop where
  nodup : (nodes.map (·.id)).Nodup
  source : ∀ e ∈ edges, ∃ n ∈ nodes, n.id = e.source ∧
    validatorExecutable registry n.toCanvasNode = true
  target : ∀ e ∈ edges,
    (∃ n ∈ nodes, n.id = e.target ∧ validatorExecutable registry n.toCanvasNode = true) ∨
      ∃ n ∈ nodes, n.id = e.source ∧ e.canvasHandle ∈ n.outcomes.getD []
  handles : ∀ e ∈ edges, ':' ∉ e.canvasHandle.toList

end Plain

section Names

theorem spaces_of_outcomeName {c : Char}
    (h : (c.isLower || c.isDigit || c == '_' || c == '-') = true) :
    isPySpace c = false ∧ isJsSpace c = false ∧ c ≠ ':' := by
  have hcode : 97 ≤ c.toNat ∧ c.toNat ≤ 122 ∨ 48 ≤ c.toNat ∧ c.toNat ≤ 57 ∨ c.toNat = 95 ∨
      c.toNat = 45 := by
    simp only [Bool.or_eq_true, beq_iff_eq] at h
    rcases h with ((h | h) | rfl) | rfl
    · obtain ⟨hlow, hhigh⟩ := Bool.and_eq_true_iff.mp h
      exact .inl ⟨UInt32.le_iff_toNat_le.mp (of_decide_eq_true hlow),
        UInt32.le_iff_toNat_le.mp (of_decide_eq_true hhigh)⟩
    · obtain ⟨hlow, hhigh⟩ := Bool.and_eq_true_iff.mp h
      exact .inr (.inl ⟨UInt32.le_iff_toNat_le.mp (of_decide_eq_true hlow),
        UInt32.le_iff_toNat_le.mp (of_decide_eq_true hhigh)⟩)
    · exact .inr (.inr (.inl rfl))
    · exact .inr (.inr (.inr rfl))
  refine ⟨?_, ?_, ?_⟩
  · simp only [isPySpace, Bool.or_eq_false_iff, Bool.and_eq_false_iff, decide_eq_false_iff_not,
      beq_eq_false_iff_ne]
    omega
  · simp only [isJsSpace, Bool.or_eq_false_iff, Bool.and_eq_false_iff, decide_eq_false_iff_not,
      beq_eq_false_iff_ne]
    omega
  · rintro rfl
    revert hcode
    decide

theorem chars_of_outcomeName {name : String} (h : isOutcomeName name = true) :
    name.toList ≠ [] ∧
      ∀ c ∈ name.toList, isPySpace c = false ∧ isJsSpace c = false ∧ c ≠ ':' := by
  unfold isOutcomeName at h
  split at h
  · cases h
  · rename_i c rest hname
    rw [hname]
    refine ⟨List.cons_ne_nil c rest, fun d hd => spaces_of_outcomeName ?_⟩
    obtain ⟨hfirst, hrest⟩ := Bool.and_eq_true_iff.mp h
    rcases List.mem_cons.mp hd with rfl | hd
    · rw [hfirst]
      rfl
    · exact List.all_eq_true.mp hrest d hd

theorem strip_eq_self {p : Char → Bool} {l : List Char} (h : ∀ c ∈ l, p c = false) :
    ((l.dropWhile p).reverse.dropWhile p).reverse = l := by
  have hdrop {l : List Char} (h : ∀ c ∈ l, p c = false) : l.dropWhile p = l := by
    cases l with
    | nil => rfl
    | cons c l => rw [List.dropWhile_cons_of_neg (by rw [h c List.mem_cons_self]; decide)]
  rw [hdrop h, hdrop fun c hc => h c (List.mem_reverse.mp hc), List.reverse_reverse]

theorem isFailureClassOutcome_eq {name : String} (h : isOutcomeName name = true) :
    isFailureClassOutcome name = Manus.isFailureClassOutcome name := by
  have hchars := (chars_of_outcomeName h).2
  have hpy := strip_eq_self fun c hc => (hchars c hc).1
  have hjs := strip_eq_self fun c hc => (hchars c hc).2.1
  simp only [isFailureClassOutcome, failureClassOutcomes, Manus.isFailureClassOutcome, spells,
    hpy, hjs]

theorem outcomeName_eq {e : CanvasEdge} (h : isOutcomeName e.canvasHandle = true) :
    e.outcomeName = e.canvasHandle := by
  have hne := (chars_of_outcomeName h).1
  obtain ⟨source, target, sourceHandle, targetHandle⟩ := e
  cases sourceHandle with
  | none => rfl
  | some handle =>
    refine if_neg ?_
    rintro rfl
    exact hne rfl

end Names

section Keys

theorem append_cons_inj {α : Type} {a : α} {x x' y y' : List α} (hx : a ∉ x) (hx' : a ∉ x')
    (h : x ++ a :: y = x' ++ a :: y') : x = x' ∧ y = y' := by
  induction x generalizing x' with
  | nil =>
    cases x' with
    | nil => exact ⟨rfl, (List.cons.inj h).2⟩
    | cons b x' => exact absurd List.mem_cons_self ((List.cons.inj h).1 ▸ hx')
  | cons b x ih =>
    cases x' with
    | nil => exact absurd List.mem_cons_self ((List.cons.inj h).1 ▸ hx)
    | cons b' x' =>
      obtain ⟨rfl, hrest⟩ := List.cons.inj h
      obtain ⟨rfl, rfl⟩ := ih (List.not_mem_of_not_mem_cons hx) (List.not_mem_of_not_mem_cons hx')
        hrest
      exact ⟨rfl, rfl⟩

theorem outcomeKey_inj {nodeId nodeId' handle handle' : String} (h : ':' ∉ handle.toList)
    (h' : ':' ∉ handle'.toList) :
    outcomeKey nodeId handle = outcomeKey nodeId' handle' ↔
      nodeId = nodeId' ∧ handle = handle' := by
  refine ⟨fun he => ?_, fun ⟨hid, hhandle⟩ => by rw [hid, hhandle]⟩
  have hlist := congrArg (fun s => s.toList.reverse) he
  simp only [outcomeKey, String.toList_append, List.reverse_append] at hlist
  have hsplit : handle.toList.reverse ++ ':' :: nodeId.toList.reverse =
      handle'.toList.reverse ++ ':' :: nodeId'.toList.reverse := hlist
  obtain ⟨hhandle, hid⟩ := append_cons_inj (fun hm => h (List.mem_reverse.mp hm))
    (fun hm => h' (List.mem_reverse.mp hm)) hsplit
  exact ⟨String.ext (List.reverse_injective hid), String.ext (List.reverse_injective hhandle)⟩

variable {provides : Dict CapabilityState} {nodeId nodeId' handle' : String}

theorem get?_foldl_insert {handles : List String} (f : String → CapabilityState)
    (hh : ∀ handle ∈ handles, ':' ∉ handle.toList) (h' : ':' ∉ handle'.toList) :
    (handles.foldl (fun provides handle => provides.insert (outcomeKey nodeId handle) (f handle))
        provides).get? (outcomeKey nodeId' handle') =
      if nodeId' = nodeId ∧ handle' ∈ handles then some (f handle')
      else provides.get? (outcomeKey nodeId' handle') := by
  induction handles generalizing provides with
  | nil => simp
  | cons handle handles ih =>
    rw [List.foldl_cons, ih fun k hk => hh k (List.mem_cons_of_mem _ hk), Dict.get?_insert]
    simp only [outcomeKey_inj h' (hh handle List.mem_cons_self), List.mem_cons]
    by_cases hid : nodeId' = nodeId
    · by_cases hlater : handle' ∈ handles
      · simp [hid, hlater]
      · by_cases hfirst : handle' = handle
        · simp [hid, hfirst]
        · simp [hid, hlater, hfirst]
    · simp [hid]

end Keys

section Walk

variable {registry : PluginRegistry} {nodes : List ProjectedCanvasNode} {edges : List CanvasEdge}

def canvasState (n : ProjectedCanvasNode) (handle : String) (input : CapabilityState) :
    CapabilityState :=
  match n.outcomes.getD [] with
  | [] => applyStep input n
  | outcomes =>
    if handle ∈ outcomes then
      if isFailureClassOutcome handle then input else applyStep input n
    else emptyCapabilityState

def canvasHandles (edges : List CanvasEdge) (n : ProjectedCanvasNode) : List String :=
  match n.outcomes.getD [] with
  | [] => outgoingHandles edges n.id
  | outcomes => outcomes

def stateTable (provides : Dict CapabilityState) (nodeId handle : String) :
    Option CapabilityState :=
  if ':' ∈ handle.toList then none else provides.get? (outcomeKey nodeId handle)

def tableInput (edges : List CanvasEdge) (table : String → String → Option CapabilityState)
    (nodeId : String) : CapabilityState :=
  intersectCapabilityStates <| (edges.filter fun e => e.target == nodeId).map fun e =>
    (table e.source e.canvasHandle).getD emptyCapabilityState

def canvasEntry (edges : List CanvasEdge) (n : ProjectedCanvasNode)
    (table : String → String → Option CapabilityState) (handle : String) :
    Option CapabilityState :=
  if handle ∈ canvasHandles edges n then some (canvasState n handle (tableInput edges table n.id))
  else none

theorem getOutcomeProvides_eq (hw : WellWired registry nodes edges) {e : CanvasEdge}
    (he : e ∈ edges) (provides : Dict CapabilityState) :
    getOutcomeProvides provides e.source e.canvasHandle =
      (stateTable provides e.source e.canvasHandle).getD emptyCapabilityState := by
  rw [stateTable, if_neg (hw.handles e he), getOutcomeProvides]

theorem canvasInput_eq (hw : WellWired registry nodes edges) (provides : Dict CapabilityState)
    (nodeId : String) :
    canvasInput edges provides nodeId = tableInput edges (stateTable provides) nodeId := by
  unfold canvasInput tableInput
  congr 1
  exact List.map_congr_left fun e he => getOutcomeProvides_eq hw (List.mem_filter.mp he).1 provides

theorem mem_outgoingHandles {e : CanvasEdge} (he : e ∈ edges) {nodeId : String}
    (hid : e.source = nodeId) : e.canvasHandle ∈ outgoingHandles edges nodeId := by
  have hmem : e.canvasHandle ∈ (edges.filter fun e => e.source == nodeId).map
      CanvasEdge.canvasHandle :=
    List.mem_map_of_mem (List.mem_filter.mpr ⟨he, beq_iff_eq.mpr hid⟩)
  unfold outgoingHandles
  split
  · rename_i hnil
    rw [hnil] at hmem
    cases hmem
  · exact hmem

theorem canvasHandles_plain (h : PlainCanvas registry nodes edges)
    (hw : WellWired registry nodes edges) {n : ProjectedCanvasNode} (hn : n ∈ nodes) :
    ∀ handle ∈ canvasHandles edges n, ':' ∉ handle.toList := by
  obtain ⟨plugin, hp, hmirrors⟩ := h.mirrors n hn
  obtain ⟨kind, -, hkind⟩ := Option.bind_eq_some_iff.mp hp
  intro handle hmem
  unfold canvasHandles at hmem
  split at hmem
  · unfold outgoingHandles at hmem
    split at hmem
    · rw [List.mem_singleton.mp hmem]
      decide
    · obtain ⟨e, he, rfl⟩ := List.mem_map.mp hmem
      exact hw.handles e (List.mem_filter.mp he).1
  · rw [hmirrors.outcomes] at hmem
    have hname := h.named plugin (List.mem_of_find?_eq_some hkind) handle hmem
    exact fun hcolon => ((chars_of_outcomeName hname).2 _ hcolon).2.2 rfl

theorem stateTable_visit (h : PlainCanvas registry nodes edges)
    (hw : WellWired registry nodes edges) {n : ProjectedCanvasNode} (hn : n ∈ nodes)
    {provides : Dict CapabilityState} (hblank : stateTable provides n.id = fun _ => none) :
    stateTable (visitCanvasNode edges provides n) = Function.update (stateTable provides) n.id
      (canvasEntry edges n (stateTable provides)) := by
  have hplain := canvasHandles_plain h hw hn
  have hvisit : visitCanvasNode edges provides n = (canvasHandles edges n).foldl
      (fun provides' handle => provides'.insert (outcomeKey n.id handle)
        (canvasState n handle (canvasInput edges provides n.id))) provides := by
    unfold visitCanvasNode canvasHandles canvasState
    cases hnames : n.outcomes.getD [] with
    | nil => rfl
    | cons name names =>
      refine List.foldl_ext _ _ _ fun provides' handle hmem => ?_
      simp only [if_pos hmem]
  funext nodeId handle
  have hget (hcolon : ':' ∉ handle.toList) :
      (visitCanvasNode edges provides n).get? (outcomeKey nodeId handle) =
        if nodeId = n.id ∧ handle ∈ canvasHandles edges n then
          some (canvasState n handle (canvasInput edges provides n.id))
        else provides.get? (outcomeKey nodeId handle) := by
    rw [hvisit]
    exact get?_foldl_insert (fun handle => canvasState n handle (canvasInput edges provides n.id))
      hplain hcolon
  by_cases hid : nodeId = n.id
  · subst hid
    rw [Function.update_self, canvasEntry, stateTable]
    by_cases hcolon : ':' ∈ handle.toList
    · rw [if_pos hcolon, if_neg fun hmem => hplain handle hmem hcolon]
    · rw [if_neg hcolon, hget hcolon]
      have hold := congrFun hblank handle
      rw [stateTable, if_neg hcolon] at hold
      simp only [true_and, hold, canvasInput_eq hw]
  · rw [Function.update_of_ne hid, stateTable, stateTable]
    by_cases hcolon : ':' ∈ handle.toList
    · rw [if_pos hcolon, if_pos hcolon]
    · rw [if_neg hcolon, if_neg hcolon, hget hcolon, if_neg fun hboth => hid hboth.1]

/-- The nodes that the canvas walks: all of them, after their parents. -/
theorem canvas_nodes (h : PlainCanvas registry nodes edges)
    (hw : WellWired registry nodes edges) : ∃ order : List ProjectedCanvasNode,
    computeOutcomeProvides edges nodes = order.foldl (visitCanvasNode edges) ∅ ∧
      (order.map (·.id)).Nodup ∧ (∀ n, n ∈ order ↔ n ∈ nodes) ∧
      ReadyOrder (Leads edges) [] (order.map (·.id)) := by
  obtain ⟨nodesById, hnodesById⟩ : ∃ nodesById, nodesById =
    Dict.ofPairs (nodes.map fun node => (node.id, node)) := ⟨_, rfl⟩
  have hsources : ∀ e ∈ edges, e.source ∈ nodes.map (·.id) := by
    intro e he
    obtain ⟨n, hn, hsource, -⟩ := hw.source e he
    exact List.mem_map.mpr ⟨n, hn, hsource⟩
  obtain ⟨hnodup, hids, hready⟩ := canvasOrder_spec hw.nodup hsources h.acyclic
  have hkeys : (nodes.map fun node => (node.id, node)).map Prod.fst = nodes.map (·.id) := by
    rw [List.map_map]
    rfl
  have hget : ∀ n ∈ nodes, nodesById.get? n.id = some n := by
    intro n hn
    rw [hnodesById]
    exact Dict.get?_ofPairs_of_mem (hkeys ▸ hw.nodup) (List.mem_map.mpr ⟨n, hn, rfl⟩)
  have hmap : ((canvasOrder nodes edges).filterMap nodesById.get?).map (·.id) =
      canvasOrder nodes edges := by
    refine map_filterMap_eq_self fun a ha => ?_
    obtain ⟨n, hn, rfl⟩ := List.mem_map.mp ((hids a).mp ha)
    exact ⟨n, hget n hn, rfl⟩
  refine ⟨(canvasOrder nodes edges).filterMap nodesById.get?, ?_, ?_, fun n => ?_, ?_⟩
  · rw [hnodesById]
    rfl
  · rwa [hmap]
  · rw [List.mem_filterMap]
    constructor
    · rintro ⟨a, ha, hn⟩
      obtain ⟨m, hm, rfl⟩ := List.mem_map.mp ((hids a).mp ha)
      rw [hget m hm] at hn
      exact Option.some.inj hn ▸ hm
    · intro hn
      exact ⟨n.id, (hids _).mpr (List.mem_map.mpr ⟨n, hn, rfl⟩), hget n hn⟩
  · rwa [hmap]

/-- What the finished walk of the canvas keeps for an edge. -/
theorem canvas_edge (h : PlainCanvas registry nodes edges) (hw : WellWired registry nodes edges)
    {e : CanvasEdge} (he : e ∈ edges) {n : ProjectedCanvasNode} (hn : n ∈ nodes)
    (hid : n.id = e.source) :
    getOutcomeProvides (computeOutcomeProvides edges nodes) e.source e.canvasHandle =
      canvasState n e.canvasHandle
        (canvasInput edges (computeOutcomeProvides edges nodes) e.source) := by
  obtain ⟨order, horder, hnodup, hmem, hready⟩ := canvas_nodes h hw
  have hvisit : ∀ n ∈ order, ∀ provides, stateTable provides n.id = (fun _ => none) →
      stateTable (visitCanvasNode edges provides n) = Function.update (stateTable provides) n.id
        (canvasEntry edges n (stateTable provides)) :=
    fun n hn provides hblank => stateTable_visit h hw ((hmem n).mp hn) hblank
  have hlocal : ∀ (n : ProjectedCanvasNode) T T', (∀ p, Leads edges p n.id → T p = T' p) →
      canvasEntry edges n T = canvasEntry edges n T' := by
    intro n T T' hparents
    have hinput : tableInput edges T n.id = tableInput edges T' n.id := by
      unfold tableInput
      congr 1
      refine List.map_congr_left fun e he => ?_
      obtain ⟨he, htarget⟩ := List.mem_filter.mp he
      rw [hparents e.source ⟨e, he, rfl, beq_iff_eq.mp htarget⟩]
    funext handle
    rw [canvasEntry, canvasEntry, hinput]
  have hblank : ∀ n ∈ order, stateTable ∅ n.id = fun _ => none := by
    intro n _
    funext handle
    unfold stateTable
    split <;> rfl
  obtain ⟨-, hsolved⟩ := Dataflow.foldl_solved hvisit hlocal hnodup hready hblank
  have hentry := congrFun (hsolved n ((hmem n).mpr hn)) e.canvasHandle
  rw [getOutcomeProvides_eq hw he, canvasInput_eq hw, horder, ← hid, hentry, canvasEntry]
  by_cases hkept : e.canvasHandle ∈ canvasHandles edges n
  · rw [if_pos hkept]
    rfl
  · rw [if_neg hkept]
    unfold canvasHandles at hkept
    unfold canvasState
    cases hnames : n.outcomes.getD [] with
    | nil =>
      have hused : e.canvasHandle ∈ outgoingHandles edges n.id := mem_outgoingHandles he hid.symm
      rw [hnames] at hkept
      exact absurd hused hkept
    | cons name names =>
      rw [hnames] at hkept
      exact (if_neg hkept).symm

end Walk

end Manus.CapabilityGraph
