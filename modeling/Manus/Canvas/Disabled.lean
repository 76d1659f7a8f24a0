import Manus.Canvas.Layers
import Manus.Canvas.Resolution
import Manus.Lib.PathSearch

/-! # Splicing out disabled steps

The edges that replace the disabled steps of a canvas are found by a search along
paths through disabled steps. Two nodes are joined afterwards exactly when they
were joined before, or a pass-through path leads from one to the other; so the
rest of the graph gets no new paths.
-/

namespace Manus

open PathSearch

section Definitions

def CanvasEntry.authorDisabled (entry : CanvasEntry) : Bool :=
  isAuthorDisabled ⟨entry.id.getD "", entry.data⟩

/-- `{n["id"] for n in nodes if "id" in n and _is_author_disabled(n)}`. -/
def disabledEntryIds (entries : List CanvasEntry) : List String :=
  (entries.filter CanvasEntry.authorDisabled).filterMap CanvasEntry.id

def rewiredEdges (disabledIds : List String) (edges : List CanvasEdge) : List CanvasEdge :=
  let rewired := edges.flatMap fun e =>
    if e.source ∈ disabledIds then []
    else if e.target ∉ disabledIds then [e]
    else (enabledTargetsBeyond disabledIds edges disabledIds.length e.target [e.target]).map
      fun far => { e with target := far.1, targetHandle := far.2 }
  rewired.foldl keepWire []

/-- `resolve_disabled_steps` on the nodes of a stored canvas. A node without an id is never taken
out. -/
def resolveDisabledEntries (entries : List CanvasEntry) (edges : List CanvasEdge) :
    List CanvasEntry × List CanvasEdge :=
  let disabledIds := disabledEntryIds entries
  if disabledIds.isEmpty then (entries, edges)
  else (entries.filter fun n => n.id.all fun id => id ∉ disabledIds,
    rewiredEdges disabledIds edges)

variable (disabledIds : List String) (edges : List CanvasEdge)

/-- The edges by which a disabled step passes on: its only outgoing edge, or those that leave by
success. -/
def passedEdges (disabledId : String) : List CanvasEdge :=
  let outEdges := edges.filter fun e => e.source == disabledId
  if 1 < outEdges.length then outEdges.filter fun e => e.outcomeName == "success"
  else outEdges

/-- Where these edges lead: to another disabled step, or out of the disabled part. -/
def hops (disabledId : String) : List (String ⊕ String × Option String) :=
  (passedEdges edges disabledId).filterMap fun e =>
    if e.target = "" then none
    else if e.target ∈ disabledIds then some (.inl e.target)
    else some (.inr (e.target, e.targetHandle))

/-- An edge that is the only one to leave its source, or leaves by success. -/
def PassesOn (e : CanvasEdge) : Prop :=
  e ∈ edges ∧ ((edges.filter fun e' => e'.source == e.source).length = 1 ∨
    e.outcomeName = "success")

/-- A path from a disabled step through disabled steps to an enabled target, with the handle its
last edge enters by. -/
inductive PassThrough : String → String → Option String → Prop
  | exit (e : CanvasEdge) : PassesOn edges e → e.target ≠ "" → e.target ∉ disabledIds →
      PassThrough e.source e.target e.targetHandle
  | enter (e : CanvasEdge) {b : String} {t : Option String} : PassesOn edges e →
      e.target ≠ "" → e.target ∈ disabledIds → PassThrough e.target b t →
      PassThrough e.source b t

def Linked (a b : String) : Prop := ∃ e ∈ edges, e.source = a ∧ e.target = b

end Definitions

section Search

variable {disabledIds : List String} {edges : List CanvasEdge}

theorem enabledTargetsBeyond_eq (fuel : ℕ) (d : String) (seen : List String) :
    enabledTargetsBeyond disabledIds edges fuel d seen =
      beyond (hops disabledIds edges) fuel d seen := by
  induction fuel generalizing d seen with
  | zero => rfl
  | succ fuel ih =>
    change (passedEdges edges d).flatMap _ = List.flatMap _ (List.filterMap _ _)
    generalize passedEdges edges d = passed
    induction passed with
    | nil => rfl
    | cons e passed ihp =>
      rw [List.flatMap_cons, ihp, List.filterMap_cons]
      by_cases hempty : e.target = ""
      · simp only [hempty, if_true, List.nil_append]
      · by_cases hd : e.target ∈ disabledIds
        · simp only [hempty, hd, if_true, if_false, List.flatMap_cons, ih]
        · simp only [hempty, hd, if_false, List.flatMap_cons]

theorem mem_passedEdges {e : CanvasEdge} {d : String} :
    e ∈ passedEdges edges d ↔ e.source = d ∧ PassesOn edges e := by
  have hmem : e ∈ edges.filter (fun e' => e'.source == d) ↔ e ∈ edges ∧ e.source = d := by
    rw [List.mem_filter, beq_iff_eq]
  have hlen : e ∈ edges → e.source = d →
      0 < (edges.filter fun e' => e'.source == d).length :=
    fun he hs => List.length_pos_of_mem (hmem.mpr ⟨he, hs⟩)
  unfold passedEdges PassesOn
  dsimp only
  constructor
  · intro h
    split at h
    · obtain ⟨hout, hsuccess⟩ := List.mem_filter.mp h
      obtain ⟨he, rfl⟩ := hmem.mp hout
      exact ⟨rfl, he, .inr (beq_iff_eq.mp hsuccess)⟩
    · rename_i hle
      obtain ⟨he, rfl⟩ := hmem.mp h
      have hpos := hlen he rfl
      exact ⟨rfl, he, .inl (by omega)⟩
  · rintro ⟨rfl, he, hone⟩
    split
    · rename_i hlt
      rcases hone with hone | hsuccess
      · omega
      · exact List.mem_filter.mpr ⟨hmem.mpr ⟨he, rfl⟩, beq_iff_eq.mpr hsuccess⟩
    · exact hmem.mpr ⟨he, rfl⟩

theorem mem_hops_inl {d w : String} : Sum.inl w ∈ hops disabledIds edges d ↔
    ∃ e, PassesOn edges e ∧ e.source = d ∧ e.target = w ∧ w ≠ "" ∧ w ∈ disabledIds := by
  simp only [hops, List.mem_filterMap, mem_passedEdges]
  constructor
  · rintro ⟨e, ⟨hs, hp⟩, heq⟩
    split at heq
    · cases heq
    · rename_i hempty
      split at heq
      · rename_i hd
        cases heq
        exact ⟨e, hp, hs, rfl, hempty, hd⟩
      · cases heq
  · rintro ⟨e, hp, hs, rfl, hempty, hd⟩
    exact ⟨e, ⟨hs, hp⟩, by rw [if_neg hempty, if_pos hd]⟩

theorem mem_hops_inr {d b : String} {t : Option String} :
    Sum.inr (b, t) ∈ hops disabledIds edges d ↔
      ∃ e, PassesOn edges e ∧ e.source = d ∧ e.target = b ∧ e.targetHandle = t ∧ b ≠ "" ∧
        b ∉ disabledIds := by
  simp only [hops, List.mem_filterMap, mem_passedEdges]
  constructor
  · rintro ⟨e, ⟨hs, hp⟩, heq⟩
    split at heq
    · cases heq
    · rename_i hempty
      split at heq
      · cases heq
      · rename_i hd
        cases heq
        exact ⟨e, hp, hs, rfl, rfl, hempty, hd⟩
  · rintro ⟨e, hp, hs, rfl, rfl, hempty, hd⟩
    exact ⟨e, ⟨hs, hp⟩, by rw [if_neg hempty, if_neg hd]⟩

theorem leads_iff_passThrough {d b : String} {t : Option String} :
    PathSearch.Leads (hops disabledIds edges) d (b, t) ↔ PassThrough disabledIds edges d b t := by
  constructor
  · intro h
    generalize hbt : (b, t) = far at h
    induction h with
    | exit hb =>
      subst hbt
      obtain ⟨e, hp, rfl, rfl, rfl, hempty, hd⟩ := mem_hops_inr.mp hb
      exact .exit e hp hempty hd
    | enter hw _ ih =>
      obtain ⟨e, hp, rfl, rfl, hempty, hd⟩ := mem_hops_inl.mp hw
      exact .enter e hp hempty hd (ih hbt)
  · intro h
    induction h with
    | exit e hp hempty hd => exact .exit (mem_hops_inr.mpr ⟨e, hp, rfl, rfl, rfl, hempty, hd⟩)
    | enter e hp hempty hd _ ih =>
      exact .enter (mem_hops_inl.mpr ⟨e, hp, rfl, rfl, hempty, hd⟩) ih

theorem hops_inner (v w : String) (h : Sum.inl w ∈ hops disabledIds edges v) :
    w ∈ disabledIds := by
  obtain ⟨-, -, -, -, -, hd⟩ := mem_hops_inl.mp h
  exact hd

theorem mem_enabledTargetsBeyond {d b : String} {t : Option String} (hd : d ∈ disabledIds) :
    (b, t) ∈ enabledTargetsBeyond disabledIds edges disabledIds.length d [d] ↔
      PassThrough disabledIds edges d b t := by
  rw [enabledTargetsBeyond_eq, mem_beyond_iff hops_inner hd le_rfl, leads_iff_passThrough]

theorem enabledTargetsBeyond_fuel {d : String} (hd : d ∈ disabledIds) {fuel : ℕ}
    (hfuel : disabledIds.length ≤ fuel) : enabledTargetsBeyond disabledIds edges fuel d [d] =
      enabledTargetsBeyond disabledIds edges disabledIds.length d [d] := by
  rw [enabledTargetsBeyond_eq, enabledTargetsBeyond_eq]
  apply beyond_fuel hops_inner (List.nodup_singleton d) (by simpa using hd)
  · rw [List.length_singleton]
    omega
  · rw [List.length_singleton]
    omega

end Search

section Wires

variable {disabledIds : List String} {edges : List CanvasEdge} {e : CanvasEdge}

theorem mem_foldl_keepWire {wires kept : List CanvasEdge} :
    e ∈ wires.foldl keepWire kept ↔ e ∈ kept ∨ e ∈ wires := by
  induction wires generalizing kept with
  | nil => simp
  | cons wire wires ih =>
    have hkeep : e ∈ keepWire kept wire ↔ e ∈ kept ∨ e = wire := by
      unfold keepWire
      split
      · rename_i hmem
        constructor
        · exact .inl
        · rintro (h | rfl)
          · exact h
          · exact hmem
      · rw [List.mem_append, List.mem_singleton]
    rw [List.foldl_cons, ih, hkeep, List.mem_cons, or_assoc]

/-- The edges afterwards: those outside the disabled part, and one for each pass-through path. -/
theorem mem_rewiredEdges : e ∈ rewiredEdges disabledIds edges ↔
    e.source ∉ disabledIds ∧ ((e ∈ edges ∧ e.target ∉ disabledIds) ∨
      ∃ e' ∈ edges, e'.source = e.source ∧ e'.sourceHandle = e.sourceHandle ∧
        e'.target ∈ disabledIds ∧
        PassThrough disabledIds edges e'.target e.target e.targetHandle) := by
  rw [rewiredEdges, mem_foldl_keepWire, List.mem_flatMap]
  simp only [List.not_mem_nil, false_or]
  constructor
  · rintro ⟨e', he', hmem⟩
    split at hmem
    · cases hmem
    · rename_i hsource
      split at hmem
      · rename_i htarget
        obtain rfl := List.mem_singleton.mp hmem
        exact ⟨hsource, .inl ⟨he', htarget⟩⟩
      · rename_i htarget
        rw [not_not] at htarget
        obtain ⟨far, hfar, rfl⟩ := List.mem_map.mp hmem
        have hpath := (mem_enabledTargetsBeyond htarget).mp hfar
        exact ⟨hsource, .inr ⟨e', he', rfl, rfl, htarget, hpath⟩⟩
  · rintro ⟨hsource, ⟨he, htarget⟩ | ⟨e', he', hs, hh, htarget, hpath⟩⟩
    · refine ⟨e, he, ?_⟩
      rw [if_neg hsource, if_pos htarget]
      exact List.mem_singleton_self e
    · refine ⟨e', he', ?_⟩
      rw [if_neg (by rw [hs]; exact hsource), if_neg (by simpa using htarget), List.mem_map]
      refine ⟨(e.target, e.targetHandle), (mem_enabledTargetsBeyond htarget).mpr hpath, ?_⟩
      obtain ⟨source, target, sourceHandle, targetHandle⟩ := e
      simp only at hs hh ⊢
      rw [← hs, ← hh]

theorem PassThrough.target_not_mem {d b : String} {t : Option String}
    (h : PassThrough disabledIds edges d b t) : b ∉ disabledIds := by
  induction h with
  | exit e _ _ hd => exact hd
  | enter e _ _ _ _ ih => exact ih

theorem PassThrough.path {d b : String} {t : Option String}
    (h : PassThrough disabledIds edges d b t) : Relation.TransGen (Linked edges) d b := by
  induction h with
  | exit e hp _ _ => exact .single ⟨e, hp.1, rfl, rfl⟩
  | enter e hp _ _ _ ih => exact .head ⟨e, hp.1, rfl, rfl⟩ ih

theorem path_of_mem_rewiredEdges (h : e ∈ rewiredEdges disabledIds edges) :
    Relation.TransGen (Linked edges) e.source e.target := by
  obtain ⟨-, ⟨he, -⟩ | ⟨e', he', hs, -, -, hpath⟩⟩ := mem_rewiredEdges.mp h
  · exact .single ⟨e, he, rfl, rfl⟩
  · exact .head ⟨e', he', hs, rfl⟩ hpath.path

end Wires

section Spliced

structure Spliced (entries : List CanvasEntry) (edges : List CanvasEdge)
    (entries' : List CanvasEntry) (edges' : List CanvasEdge) : Prop where
  /-- The walk beyond a disabled step ends by itself. -/
  ends : ∀ fuel, (disabledEntryIds entries).length ≤ fuel → ∀ d ∈ disabledEntryIds entries,
    enabledTargetsBeyond (disabledEntryIds entries) edges fuel d [d] = enabledTargetsBeyond
      (disabledEntryIds entries) edges (disabledEntryIds entries).length d [d]
  nodes : ∀ n, n ∈ entries' ↔ n ∈ entries ∧ ∀ id, n.id = some id → id ∉ disabledEntryIds entries
  enabled : ∀ n ∈ entries', n.id ≠ none → n.authorDisabled = false
  untouched : ∀ e ∈ edges', e.source ∉ disabledEntryIds entries ∧
    e.target ∉ disabledEntryIds entries
  direct : ∀ e ∈ edges, e.source ∉ disabledEntryIds entries →
    e.target ∉ disabledEntryIds entries → e ∈ edges'
  wires : ∀ a h b t, a ∉ disabledEntryIds entries → b ∉ disabledEntryIds entries →
    (⟨a, b, h, t⟩ ∈ edges' ↔ ⟨a, b, h, t⟩ ∈ edges ∨
      ∃ e ∈ edges, e.source = a ∧ e.sourceHandle = h ∧ e.target ∈ disabledEntryIds entries ∧
        PassThrough (disabledEntryIds entries) edges e.target b t)
  cycles : ∀ a b, Relation.TransGen (Linked edges') a b → Relation.TransGen (Linked edges) a b

variable {entries : List CanvasEntry} {edges : List CanvasEdge}

theorem mem_disabledEntryIds {id : String} : id ∈ disabledEntryIds entries ↔
    ∃ n ∈ entries, n.authorDisabled = true ∧ n.id = some id := by
  simp [disabledEntryIds, and_assoc]

theorem disabled_free {n : CanvasEntry} (hn : n ∈ entries)
    (hids : ∀ id, n.id = some id → id ∉ disabledEntryIds entries) (hid : n.id ≠ none) :
    n.authorDisabled = false := by
  by_contra hd
  rw [Bool.not_eq_false] at hd
  obtain ⟨id, hid⟩ := Option.ne_none_iff_exists'.mp hid
  exact hids id hid (mem_disabledEntryIds.mpr ⟨n, hn, hd, hid⟩)

/-- The steps taken out are the disabled ones with an id, and what is joined afterwards is joined
by an edge or by a pass-through path. -/
theorem resolveDisabledEntries_spliced (entries : List CanvasEntry) (edges : List CanvasEdge) :
    Spliced entries edges (resolveDisabledEntries entries edges).1
      (resolveDisabledEntries entries edges).2 := by
  have hends : ∀ fuel, (disabledEntryIds entries).length ≤ fuel → ∀ d ∈ disabledEntryIds entries,
      enabledTargetsBeyond (disabledEntryIds entries) edges fuel d [d] = enabledTargetsBeyond
        (disabledEntryIds entries) edges (disabledEntryIds entries).length d [d] :=
    fun fuel hfuel d hd => enabledTargetsBeyond_fuel hd hfuel
  unfold resolveDisabledEntries
  dsimp only
  split
  · rename_i hempty
    have hnone : ∀ id, id ∉ disabledEntryIds entries := by
      intro id hid
      rw [List.isEmpty_iff.mp hempty] at hid
      cases hid
    constructor
    case ends => exact hends
    case nodes => exact fun n => ⟨fun hn => ⟨hn, fun id _ => hnone id⟩, fun h => h.1⟩
    case enabled => exact fun n hn hid => disabled_free hn (fun id _ => hnone id) hid
    case untouched => exact fun e _ => ⟨hnone _, hnone _⟩
    case direct => exact fun e he _ _ => he
    case wires =>
      intro a h b t _ _
      constructor
      · exact .inl
      · rintro (hmem | ⟨e, -, -, -, hd, -⟩)
        · exact hmem
        · exact absurd hd (hnone _)
    case cycles => exact fun a b h => h
  · have hnodes : ∀ n, n ∈ entries.filter (fun n => n.id.all fun id =>
        id ∉ disabledEntryIds entries) ↔
        n ∈ entries ∧ ∀ id, n.id = some id → id ∉ disabledEntryIds entries := by
      intro n
      rw [List.mem_filter, Option.all_eq_true]
      simp
    constructor
    case ends => exact hends
    case nodes => exact hnodes
    case enabled =>
      intro n hn hid
      obtain ⟨hmem, hids⟩ := (hnodes n).mp hn
      exact disabled_free hmem hids hid
    case untouched =>
      intro e he
      obtain ⟨hs, ⟨-, ht⟩ | ⟨e', -, -, -, -, hpath⟩⟩ := mem_rewiredEdges.mp he
      · exact ⟨hs, ht⟩
      · exact ⟨hs, hpath.target_not_mem⟩
    case direct => exact fun e he hs ht => mem_rewiredEdges.mpr ⟨hs, .inl ⟨he, ht⟩⟩
    case wires =>
      intro a h b t ha hb
      rw [mem_rewiredEdges]
      constructor
      · rintro ⟨-, ⟨hmem, -⟩ | ⟨e, he, hs, hh, hd, hpath⟩⟩
        · exact .inl hmem
        · exact .inr ⟨e, he, hs, hh, hd, hpath⟩
      · rintro (hmem | ⟨e, he, hs, hh, hd, hpath⟩)
        · exact ⟨ha, .inl ⟨hmem, hb⟩⟩
        · exact ⟨ha, .inr ⟨e, he, hs, hh, hd, hpath⟩⟩
    case cycles =>
      intro a b h
      induction h with
      | single h =>
        obtain ⟨e, he, rfl, rfl⟩ := h
        exact path_of_mem_rewiredEdges he
      | tail _ h ih =>
        obtain ⟨e, he, rfl, rfl⟩ := h
        exact ih.trans (path_of_mem_rewiredEdges he)

def oddEntries : List CanvasEntry :=
  [⟨none, { disabled := true }⟩, ⟨some "a", {}⟩, ⟨some "d", { disabled := true }⟩, ⟨some "", {}⟩]

def oddEdges : List CanvasEdge :=
  [{ source := "a", target := "d" }, { source := "d", target := "" }]

/-- The disabled step without an id stays, and no edge bypasses the other one. -/
theorem oddEntries_not_bypassed :
    (∃ n ∈ (resolveDisabledEntries oddEntries oddEdges).1, n.authorDisabled = true) ∧
    (∃ n ∈ (resolveDisabledEntries oddEntries oddEdges).1, n.id = some "") ∧
    { source := "a", target := "d" } ∈ oddEdges ∧ "d" ∈ disabledEntryIds oddEntries ∧
    PassesOn oddEdges { source := "d", target := "" } ∧
    { source := "a", target := "" } ∉ (resolveDisabledEntries oddEntries oddEdges).2 := by
  refine ⟨by decide, by decide, by decide, by decide, ⟨by decide, .inl (by decide)⟩, by decide⟩

end Spliced

end Manus
