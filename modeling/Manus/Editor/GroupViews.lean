import Manus.Editor.Groups
import Manus.Lib.Shares
import Mathlib.Data.List.Pairwise

/-! # Grouping hides nothing

The steps and the edges of the canvas are shared out to the root view and the views of the groups.
An edge of the root view that leads into a group, or out of it, ends at a port of its node.
-/

namespace Manus.Editor

variable {groups : List CanvasGroup} {c : Canvas} {g : CanvasGroup} {id : String}

section Members

structure Arranged (groups : List CanvasGroup) : Prop where
  disjoint : groups.Pairwise fun g g' => g.nodeIds.Disjoint g'.nodeIds
  nodup : ∀ g ∈ groups, g.nodeIds.Nodup

structure Named (groups : List CanvasGroup) : Prop where
  nodup : (groups.map CanvasGroup.id).Nodup
  given : ∀ g ∈ groups, g.id ≠ ""

theorem arranged_iff : Arranged groups ↔ (groups.flatMap CanvasGroup.nodeIds).Nodup := by
  rw [List.nodup_flatMap]
  constructor
  · intro h
    exact ⟨h.nodup, h.disjoint⟩
  · rintro ⟨hnodup, hdisjoint⟩
    exact ⟨hdisjoint, hnodup⟩

theorem Arranged.eq_of_mem (h : Arranged groups) {g g' : CanvasGroup} (hg : g ∈ groups)
    (hg' : g' ∈ groups) (hid : id ∈ g.nodeIds) (hid' : id ∈ g'.nodeIds) : g = g' := by
  have hsymm : Std.Symm fun g g' : CanvasGroup => g.nodeIds.Disjoint g'.nodeIds :=
    ⟨fun _ _ h _ hin hin' => h hin' hin⟩
  by_contra hne
  exact h.disjoint.forall hg hg' hne hid hid'

theorem given_groupIdOf (h : Arranged groups) (hnamed : Named groups) {groupId : String} :
    given (groupIdOf groups id) = some groupId ↔
      ∃ g ∈ groups, id ∈ g.nodeIds ∧ g.id = groupId := by
  rw [given, Option.filter_eq_some_iff, groupIdOf, Option.map_eq_some_iff]
  constructor
  · rintro ⟨⟨g, hfind, rfl⟩, -⟩
    exact ⟨g, List.mem_reverse.mp (List.mem_of_find?_eq_some hfind),
      by simpa using List.find?_some hfind, rfl⟩
  · rintro ⟨g, hg, hid, rfl⟩
    refine ⟨⟨g, ?_, rfl⟩, by simpa using hnamed.given g hg⟩
    cases hfind : groups.reverse.find? fun g => id ∈ g.nodeIds with
    | none => simpa [hid] using List.find?_eq_none.mp hfind g (List.mem_reverse.mpr hg)
    | some g' =>
      have hg' := List.mem_reverse.mp (List.mem_of_find?_eq_some hfind)
      rw [h.eq_of_mem hg' hg (by simpa using List.find?_some hfind) hid]

theorem given_groupIdOf_eq_none (h : Arranged groups) (hnamed : Named groups) :
    given (groupIdOf groups id) = none ↔ ∀ g ∈ groups, id ∉ g.nodeIds := by
  rw [Option.eq_none_iff_forall_ne_some]
  constructor
  · intro hnone g hg hid
    exact hnone g.id ((given_groupIdOf h hnamed).mpr ⟨g, hg, hid, rfl⟩)
  · intro hnone groupId hsome
    obtain ⟨g, hg, hid, -⟩ := (given_groupIdOf h hnamed).mp hsome
    exact hnone g hg hid

theorem Named.eq_of_id (h : Named groups) {g g' : CanvasGroup} (hg : g ∈ groups) (hg' : g' ∈ groups)
    (hid : g.id = g'.id) : g = g' :=
  List.inj_on_of_nodup_map h.nodup hg hg' hid

end Members

section Views

theorem projectCanvasView_some (h : Named c.groups) (hg : g ∈ c.groups) :
    projectCanvasView c (some g.id) = groupView c g := by
  cases hfind : c.groups.find? fun g' => g'.id = g.id with
  | none => simpa using List.find?_eq_none.mp hfind g hg
  | some g' =>
    have hid : g'.id = g.id := by simpa using List.find?_some hfind
    have heq := h.eq_of_id (List.mem_of_find?_eq_some hfind) hg hid
    simp [projectCanvasView, hfind, heq]

def views (c : Canvas) : List ProjectedCanvas :=
  projectCanvasView c none :: c.groups.map fun g => projectCanvasView c (some g.id)

theorem views_eq (h : Named c.groups) :
    views c = rootView c :: c.groups.map (groupView c) := by
  rw [views]
  refine congrArg₂ _ rfl (List.map_congr_left fun g hg => ?_)
  exact projectCanvasView_some h hg

def ProjectedNode.step? : ProjectedNode → Option CanvasNode
  | .step node _ _ => some node
  | .group _ => none

def ProjectedCanvas.steps (v : ProjectedCanvas) : List CanvasNode :=
  v.nodes.filterMap ProjectedNode.step?

def hasNode (g : CanvasGroup) (n : CanvasNode) : Bool := n.id ∈ g.nodeIds

theorem rootView_steps : (rootView c).steps.Perm (leftOver hasNode c.groups c.nodes) := by
  have hsort : ∀ nodes, (sortNodesForContainment nodes).Perm nodes :=
    fun nodes => List.mergeSort_perm nodes _
  have hsteps := (hsort (((c.nodes.filter fun n => !c.groups.any fun g => n.id ∈ g.nodeIds).map
    fun n => .step n false none) ++ c.groups.map fun g =>
      .group (synthesizeGroupNode g c.nodes c.edges))).filterMap ProjectedNode.step?
  refine hsteps.trans (List.Perm.of_eq ?_)
  simp [List.filterMap_append, List.filterMap_map, Function.comp_def, ProjectedNode.step?,
    leftOver, hasNode]

theorem groupView_steps : (groupView c g).steps = c.nodes.filter (hasNode g) := by
  have hmark : ∀ ports, ProjectedNode.step? ∘ markStep ports = some := fun ports => rfl
  rw [ProjectedCanvas.steps, groupView, List.filterMap_map, hmark, List.filterMap_some]
  rfl

theorem apart_hasNode (h : Arranged c.groups) : TakeApart hasNode c.groups := by
  apply h.disjoint.imp
  intro g g' hdisjoint n hn
  rw [hasNode, decide_eq_true_eq] at hn
  rw [hasNode, decide_eq_false_iff_not]
  exact fun hn' => hdisjoint hn hn'

theorem views_steps_perm (h : Arranged c.groups) (hnamed : Named c.groups) :
    ((views c).flatMap ProjectedCanvas.steps).Perm c.nodes := by
  rw [views_eq hnamed, List.flatMap_cons, List.flatMap_map]
  simp only [groupView_steps]
  exact (rootView_steps.append_right _).trans (leftOver_append_perm (apart_hasNode h))

end Views

section Edges

def ProjectedEdge.realId (e : ProjectedEdge) : String := e.realEdgeId.getD e.id

def ProjectedCanvas.realEdgeIds (v : ProjectedCanvas) : List String :=
  v.edges.map ProjectedEdge.realId

def hasEdge (g : CanvasGroup) (e : CanvasEdge) : Bool :=
  e.source ∈ g.nodeIds && e.target ∈ g.nodeIds

theorem projectEdge_eq_none (h : Arranged groups) (hnamed : Named groups) {e : CanvasEdge} :
    projectEdge groups e = none ↔ ∃ g ∈ groups, hasEdge g e = true := by
  constructor
  · intro hnone
    unfold projectEdge at hnone
    split at hnone
    case h_1 sourceId targetId hsource htarget =>
      have hids : sourceId = targetId := by
        by_contra hne
        rw [if_neg hne] at hnone
        cases hnone
      obtain ⟨g, hg, hin, hid⟩ := (given_groupIdOf h hnamed).mp hsource
      obtain ⟨g', hg', hin', hid'⟩ := (given_groupIdOf h hnamed).mp htarget
      obtain rfl := hnamed.eq_of_id hg hg' (hid.trans (hids.trans hid'.symm))
      exact ⟨g, hg, by simp [hasEdge, hin, hin']⟩
    all_goals cases hnone
  · rintro ⟨g, hg, hboth⟩
    rw [hasEdge, Bool.and_eq_true, decide_eq_true_eq, decide_eq_true_eq] at hboth
    have hsource := (given_groupIdOf h hnamed).mpr ⟨g, hg, hboth.1, rfl⟩
    have htarget := (given_groupIdOf h hnamed).mpr ⟨g, hg, hboth.2, rfl⟩
    simp [projectEdge, hsource, htarget]

theorem projectEdge_realId {e : CanvasEdge} {p : ProjectedEdge}
    (hp : projectEdge groups e = some p) : p.realId = e.id := by
  unfold projectEdge at hp
  split at hp
  · split at hp
    · cases hp
    · cases hp
      rfl
  · cases hp
    rfl
  · cases hp
    rfl
  · cases hp
    rfl

theorem filterMap_projectEdge (h : Arranged groups) (hnamed : Named groups) (l : List CanvasEdge) :
    (l.filterMap (projectEdge groups)).map ProjectedEdge.realId =
      (leftOver hasEdge groups l).map CanvasEdge.id := by
  induction l with
  | nil => rfl
  | cons e l ih =>
    rw [leftOver] at ih ⊢
    cases hp : projectEdge groups e with
    | none =>
      have hany := List.any_eq_true.mpr ((projectEdge_eq_none h hnamed).mp hp)
      rw [List.filterMap_cons_none hp, ih, List.filter_cons_of_neg (by simp [hany])]
    | some p =>
      have hany : (groups.any fun g => hasEdge g e) = false := by
        rw [← Bool.not_eq_true, List.any_eq_true, ← projectEdge_eq_none h hnamed, hp]
        exact Option.some_ne_none p
      rw [List.filterMap_cons_some hp, List.map_cons, ih, projectEdge_realId hp,
        List.filter_cons_of_pos (by simp [hany]), List.map_cons]

theorem groupView_realEdgeIds :
    (groupView c g).realEdgeIds = (c.edges.filter (hasEdge g)).map CanvasEdge.id := by
  rw [ProjectedCanvas.realEdgeIds, groupView, List.map_map]
  rfl

theorem apart_hasEdge (h : Arranged c.groups) : TakeApart hasEdge c.groups := by
  apply h.disjoint.imp
  intro g g' hdisjoint e he
  rw [hasEdge, Bool.and_eq_true, decide_eq_true_eq] at he
  rw [hasEdge, Bool.and_eq_false_iff, decide_eq_false_iff_not]
  exact .inl fun he' => hdisjoint he.1 he'

theorem views_realEdgeIds_perm (h : Arranged c.groups) (hnamed : Named c.groups) :
    ((views c).flatMap ProjectedCanvas.realEdgeIds).Perm (c.edges.map CanvasEdge.id) := by
  rw [views_eq hnamed, List.flatMap_cons, List.flatMap_map]
  simp only [groupView_realEdgeIds]
  have hroot : (rootView c).realEdgeIds = (leftOver hasEdge c.groups c.edges).map CanvasEdge.id :=
    filterMap_projectEdge h hnamed c.edges
  rw [hroot, ← List.map_flatMap, ← List.map_append]
  exact (leftOver_append_perm (apart_hasEdge h)).map _

end Edges

section Ports

variable {e : CanvasEdge}

theorem groupNode_mem (hg : g ∈ c.groups) :
    .group (synthesizeGroupNode g c.nodes c.edges) ∈ (rootView c).nodes := by
  rw [rootView, sortNodesForContainment, List.mem_mergeSort]
  exact List.mem_append_right _ (List.mem_map.mpr ⟨g, hg, rfl⟩)

theorem inputPort_listed (he : e ∈ c.edges) (hsource : e.source ∉ g.nodeIds)
    (htarget : e.target ∈ g.nodeIds) :
    ∃ port ∈ (synthesizeGroupNode g c.nodes c.edges).inputPorts,
      port.handleId = inputHandle e.id ∧ port.edgeId = e.id := by
  have hport : inputPort g.nodeIds e =
      some ⟨e.id, e.target, e.targetHandle.getD "input", e.source⟩ :=
    if_pos ⟨hsource, htarget⟩
  exact ⟨_, List.mem_map_of_mem (List.mem_filterMap.mpr ⟨e, he, hport⟩), rfl, rfl⟩

theorem outputPort_listed (he : e ∈ c.edges) (hsource : e.source ∈ g.nodeIds)
    (htarget : e.target ∉ g.nodeIds) :
    ∃ port ∈ (synthesizeGroupNode g c.nodes c.edges).outputPorts,
      port.handleId = outputHandle e.id ∧ port.edgeId = e.id := by
  have hport : outputPort g.nodeIds e =
      some ⟨e.id, e.source, e.sourceHandle.getD "success", e.target⟩ :=
    if_pos ⟨hsource, htarget⟩
  exact ⟨_, List.mem_map_of_mem (List.mem_filterMap.mpr ⟨e, he, hport⟩), rfl, rfl⟩

/-- An end of an edge in the root view: the step, when it is in no group, and else the port of the
edge among those of its group. -/
def ShownEnd (c : Canvas) (ports : GroupNode → List GroupPortView) (edgeId : String)
    (step : String × Option String) (shown : String × Option String) : Prop :=
  ((∀ g ∈ c.groups, step.1 ∉ g.nodeIds) ∧ shown = step) ∨
    ∃ g ∈ c.groups, step.1 ∈ g.nodeIds ∧ ∃ node, .group node ∈ (rootView c).nodes ∧
      node.groupId = g.id ∧ node.id = shown.1 ∧
      ∃ port ∈ ports node, some port.handleId = shown.2 ∧ port.edgeId = edgeId

theorem shownEnd_source (h : Arranged c.groups) (hnamed : Named c.groups) (he : e ∈ c.edges)
    (hapart : ∀ g ∈ c.groups, hasEdge g e = false) {groupId : String}
    (hgroup : given (groupIdOf c.groups e.source) = some groupId) :
    ShownEnd c GroupNode.outputPorts e.id (e.source, e.sourceHandle)
      (groupNodeId groupId, some (outputHandle e.id)) := by
  obtain ⟨g, hg, hin, rfl⟩ := (given_groupIdOf h hnamed).mp hgroup
  have hout : e.target ∉ g.nodeIds := by simpa [hasEdge, hin] using hapart g hg
  obtain ⟨port, hport, hhandle, hedge⟩ := outputPort_listed he hin hout
  exact .inr ⟨g, hg, hin, _, groupNode_mem hg, rfl, rfl, port, hport, congrArg some hhandle, hedge⟩

theorem shownEnd_target (h : Arranged c.groups) (hnamed : Named c.groups) (he : e ∈ c.edges)
    (hapart : ∀ g ∈ c.groups, hasEdge g e = false) {groupId : String}
    (hgroup : given (groupIdOf c.groups e.target) = some groupId) :
    ShownEnd c GroupNode.inputPorts e.id (e.target, e.targetHandle)
      (groupNodeId groupId, some (inputHandle e.id)) := by
  obtain ⟨g, hg, hin, rfl⟩ := (given_groupIdOf h hnamed).mp hgroup
  have hout : e.source ∉ g.nodeIds := by simpa [hasEdge, hin] using hapart g hg
  obtain ⟨port, hport, hhandle, hedge⟩ := inputPort_listed he hout hin
  exact .inr ⟨g, hg, hin, _, groupNode_mem hg, rfl, rfl, port, hport, congrArg some hhandle, hedge⟩

/-- Every edge of the root view ends at steps that are shown, or at ports that are listed. -/
theorem rootView_ports (h : Arranged c.groups) (hnamed : Named c.groups) {p : ProjectedEdge}
    (hp : p ∈ (rootView c).edges) : ∃ e ∈ c.edges, p.realId = e.id ∧
      ShownEnd c GroupNode.outputPorts e.id (e.source, e.sourceHandle) (p.source, p.sourceHandle) ∧
      ShownEnd c GroupNode.inputPorts e.id (e.target, e.targetHandle)
        (p.target, p.targetHandle) := by
  obtain ⟨e, he, hproject⟩ := List.mem_filterMap.mp hp
  refine ⟨e, he, projectEdge_realId hproject, ?_⟩
  have hapart : ∀ g ∈ c.groups, hasEdge g e = false := by
    intro g hg
    by_contra hboth
    rw [(projectEdge_eq_none h hnamed).mpr ⟨g, hg, by simpa using hboth⟩] at hproject
    cases hproject
  have hsourceFree : given (groupIdOf c.groups e.source) = none →
      ∀ g ∈ c.groups, e.source ∉ g.nodeIds := (given_groupIdOf_eq_none h hnamed).mp
  have htargetFree : given (groupIdOf c.groups e.target) = none →
      ∀ g ∈ c.groups, e.target ∉ g.nodeIds := (given_groupIdOf_eq_none h hnamed).mp
  unfold projectEdge at hproject
  split at hproject
  case h_1 sourceId targetId hsource htarget =>
    split at hproject
    · cases hproject
    · cases hproject
      exact ⟨shownEnd_source h hnamed he hapart hsource, shownEnd_target h hnamed he hapart htarget⟩
  case h_2 targetId hsource htarget =>
    cases hproject
    exact ⟨.inl ⟨hsourceFree hsource, rfl⟩, shownEnd_target h hnamed he hapart htarget⟩
  case h_3 sourceId hsource htarget =>
    cases hproject
    exact ⟨shownEnd_source h hnamed he hapart hsource, .inl ⟨htargetFree htarget, rfl⟩⟩
  case h_4 hsource htarget =>
    cases hproject
    exact ⟨.inl ⟨hsourceFree hsource, rfl⟩, .inl ⟨htargetFree htarget, rfl⟩⟩

end Ports

end Manus.Editor
