import Manus.Editor.GroupViews
import Mathlib.Data.List.Flatten

/-! # Editing groups

Every edit of the groups, and every removal of steps, leaves groups that share no step, list none
twice and list only steps that are there. So does any run of edits.
-/

namespace Manus.Editor

variable {groups : List CanvasGroup} {nodes : List CanvasNode} {c : Canvas} {nodeIds : List String}

def nodeExists (nodes : List CanvasNode) (id : String) : Prop := ∃ n ∈ nodes, n.id = id

/-- The groups are in order, and all their members are steps of the canvas. -/
structure Tidy (nodes : List CanvasNode) (groups : List CanvasGroup) : Prop where
  arranged : Arranged groups
  named : Named groups
  within : ∀ g ∈ groups, ∀ id ∈ g.nodeIds, nodeExists nodes id

section Shrinking

variable {f : CanvasGroup → CanvasGroup} {keep : CanvasGroup → Bool}

theorem Arranged.shrink (h : Arranged groups) (hf : ∀ g, (f g).nodeIds.Sublist g.nodeIds) :
    Arranged ((groups.map f).filter keep) := by
  rw [arranged_iff] at h ⊢
  have hmap : ((groups.map f).flatMap CanvasGroup.nodeIds).Sublist
      (groups.flatMap CanvasGroup.nodeIds) := by
    rw [List.flatMap_map]
    exact List.Sublist.flatMap_right groups fun g _ => hf g
  exact h.sublist ((List.filter_sublist.flatMap _).trans hmap)

theorem Named.shrink (h : Named groups) (hf : ∀ g, (f g).id = g.id) :
    Named ((groups.map f).filter keep) := by
  constructor
  · have hids : ((groups.map f).map CanvasGroup.id) = groups.map CanvasGroup.id := by
      rw [List.map_map]
      exact List.map_congr_left fun g _ => hf g
    exact (hids ▸ h.nodup).sublist (List.filter_sublist.map _)
  · intro g' hg'
    obtain ⟨g, hg, rfl⟩ := List.mem_map.mp (List.mem_of_mem_filter hg')
    exact (hf g).symm ▸ h.given g hg

theorem Tidy.shrink (h : Tidy nodes groups) (hf : ∀ g, (f g).nodeIds.Sublist g.nodeIds)
    (hid : ∀ g, (f g).id = g.id) : Tidy nodes ((groups.map f).filter keep) where
  arranged := h.arranged.shrink hf
  named := h.named.shrink hid
  within := by
    intro g' hg' id hid
    obtain ⟨g, hg, rfl⟩ := List.mem_map.mp (List.mem_of_mem_filter hg')
    exact h.within g hg id ((hf g).subset hid)

end Shrinking

section Operations

theorem without_sublist (g : CanvasGroup) : (g.without nodeIds).nodeIds.Sublist g.nodeIds :=
  List.filter_sublist

theorem removeNodesFromGroups_tidy (h : Tidy nodes groups) (keepGroupId : Option String) :
    Tidy nodes (removeNodesFromGroups groups nodeIds keepGroupId) :=
  h.shrink without_sublist fun _ => rfl

theorem ungroupNode_tidy (h : Tidy nodes groups) (groupId : String) :
    Tidy nodes (ungroupNode groups groupId) := by
  rw [ungroupNode, ← List.map_id groups]
  exact h.shrink (fun _ => List.Sublist.refl _) fun _ => rfl

theorem repairOrphanGroups_tidy (h : Arranged groups) (hnamed : Named groups) :
    Tidy nodes (repairOrphanGroups nodes groups) where
  arranged := h.shrink fun _ => List.filter_sublist
  named := hnamed.shrink fun _ => rfl
  within := by
    intro g' hg' id hid
    obtain ⟨g, hg, rfl⟩ := List.mem_map.mp (List.mem_of_mem_filter hg')
    simpa [nodeExists] using (List.mem_filter.mp hid).2

theorem detachNode_id (n : CanvasNode) : (detachNode c nodeIds n).id = n.id := by
  rw [detachNode]
  split
  · split <;> rfl
  · rfl

theorem detachGroup_nodeIds (c : Canvas) (nodeIds : List String) (g : CanvasGroup) :
    (detachGroup c nodeIds g).nodeIds = g.nodeIds ∧ (detachGroup c nodeIds g).id = g.id := by
  rw [detachGroup]
  split
  · split <;> exact ⟨rfl, rfl⟩
  · exact ⟨rfl, rfl⟩

theorem removeRealNodes_tidy (h : Tidy c.nodes c.groups) :
    Tidy (removeRealNodes c nodeIds).nodes (removeRealNodes c nodeIds).groups := by
  have hsublist : ∀ g, ((detachGroup c nodeIds g).without nodeIds).nodeIds.Sublist g.nodeIds :=
    fun g => (detachGroup_nodeIds c nodeIds g).1 ▸ without_sublist _
  constructor
  · exact h.arranged.shrink hsublist
  · exact h.named.shrink fun g => (detachGroup_nodeIds c nodeIds g).2
  · intro g' hg' id hid
    obtain ⟨g, hg, rfl⟩ := List.mem_map.mp (List.mem_of_mem_filter hg')
    obtain ⟨n, hn, rfl⟩ := h.within g hg id ((hsublist g).subset hid)
    have hleft : n.id ∉ nodeIds := by simpa using (List.mem_filter.mp hid).2
    refine ⟨detachNode c nodeIds n, List.mem_filter.mpr ⟨List.mem_map_of_mem hn, ?_⟩,
      detachNode_id n⟩
    simpa [detachNode_id] using hleft

def CanvasGroup.addTo (groupId : String) (nodeIds : List String) (g : CanvasGroup) : CanvasGroup :=
  if g.id = groupId then { g with nodeIds := g.nodeIds ++ nodeIds } else g

theorem addTo_id (groupId : String) (g : CanvasGroup) : (g.addTo groupId nodeIds).id = g.id := by
  rw [CanvasGroup.addTo]
  split <;> rfl

theorem mem_addTo {groupId id : String} {g : CanvasGroup} :
    id ∈ (g.addTo groupId nodeIds).nodeIds ↔ id ∈ g.nodeIds ∨ g.id = groupId ∧ id ∈ nodeIds := by
  rw [CanvasGroup.addTo]
  split
  case isTrue h => simp [h]
  case isFalse h => simp [h]

/-- Steps that are in no group are given to one of them. -/
theorem addTo_tidy (h : Tidy nodes groups) {groupId : String} (hnodup : nodeIds.Nodup)
    (hexist : ∀ id ∈ nodeIds, nodeExists nodes id)
    (hfree : ∀ g ∈ groups, ∀ id ∈ nodeIds, id ∉ g.nodeIds) :
    Tidy nodes (groups.map (CanvasGroup.addTo groupId nodeIds)) := by
  constructor
  · constructor
    · have hids := List.pairwise_map.mp h.named.nodup
      rw [List.pairwise_map]
      refine List.Pairwise.imp_of_mem ?_ (h.arranged.disjoint.and hids)
      rintro g g' hg hg' ⟨hdisjoint, hne⟩ id hin hin'
      rw [mem_addTo] at hin hin'
      rcases hin with hin | ⟨hid, hin⟩
      · rcases hin' with hin' | ⟨-, hnew⟩
        · exact hdisjoint hin hin'
        · exact hfree g hg id hnew hin
      · rcases hin' with hin' | ⟨hid', -⟩
        · exact hfree g' hg' id hin hin'
        · exact hne (hid.trans hid'.symm)
    · intro g' hg'
      obtain ⟨g, hg, rfl⟩ := List.mem_map.mp hg'
      rw [CanvasGroup.addTo]
      split
      · exact List.Nodup.append (h.arranged.nodup g hg) hnodup fun id hin hnew =>
          hfree g hg id hnew hin
      · exact h.arranged.nodup g hg
  · constructor
    · have hids : (groups.map (CanvasGroup.addTo groupId nodeIds)).map CanvasGroup.id =
          groups.map CanvasGroup.id := by
        rw [List.map_map]
        exact List.map_congr_left fun g _ => addTo_id groupId g
      exact hids ▸ h.named.nodup
    · intro g' hg'
      obtain ⟨g, hg, rfl⟩ := List.mem_map.mp hg'
      rw [addTo_id]
      exact h.named.given g hg
  · intro g' hg' id hid
    obtain ⟨g, hg, rfl⟩ := List.mem_map.mp hg'
    rcases mem_addTo.mp hid with hid | ⟨-, hid⟩
    · exact h.within g hg id hid
    · exact hexist id hid

theorem addNodesToGroup_tidy (h : Tidy nodes groups) {groupId : String} (hnodup : nodeIds.Nodup)
    (hexist : ∀ id ∈ nodeIds, nodeExists nodes id) {groups' : List CanvasGroup}
    (hadd : addNodesToGroup groups nodes groupId nodeIds = .ok groups') : Tidy nodes groups' := by
  rw [addNodesToGroup] at hadd
  split at hadd
  · cases hadd
  split at hadd
  · cases hadd
  cases hadd
  -- The members are taken out of their groups first, out of the one that they go to as well.
  have hstripped : Tidy nodes (removeNodesFromGroups
      (groups.map fun g => if g.id = groupId then g.without nodeIds else g) nodeIds
        (some groupId)) := by
    have hwithout : Tidy nodes ((groups.map fun g =>
        if g.id = groupId then g.without nodeIds else g).filter fun _ => true) := by
      apply h.shrink
      · intro g
        split
        · exact without_sublist g
        · exact List.Sublist.refl _
      · intro g
        split <;> rfl
    rw [List.filter_true] at hwithout
    exact removeNodesFromGroups_tidy hwithout _
  apply addTo_tidy hstripped hnodup hexist
  intro g' hg' id hid hin
  obtain ⟨g, hg, rfl⟩ := List.mem_map.mp (List.mem_of_mem_filter hg')
  have hleft := (List.mem_filter.mp hin).2
  simp [hid] at hleft

end Operations

section Runs

inductive GroupEdit where
  | add (groupId : String) (nodeIds : List String)
  | take (nodeIds : List String)
  | ungroup (groupId : String)
  | delete (nodeIds : List String)
  | repair

/-- What is asked for makes sense: the steps that are added are there, and listed once. -/
def GroupEdit.Sensible (c : Canvas) : GroupEdit → Prop
  | .add _ nodeIds => nodeIds.Nodup ∧ ∀ id ∈ nodeIds, nodeExists c.nodes id
  | _ => True

def GroupEdit.apply (c : Canvas) : GroupEdit → Canvas
  | .add groupId nodeIds =>
    match addNodesToGroup c.groups c.nodes groupId nodeIds with
    | .ok groups => { c with groups }
    | .error _ => c
  | .take nodeIds => { c with groups := removeNodesFromGroups c.groups nodeIds none }
  | .ungroup groupId => { c with groups := ungroupNode c.groups groupId }
  | .delete nodeIds => removeRealNodes c nodeIds
  | .repair => { c with groups := repairOrphanGroups c.nodes c.groups }

theorem GroupEdit.apply_tidy {edit : GroupEdit} (h : Tidy c.nodes c.groups)
    (hedit : edit.Sensible c) : Tidy (edit.apply c).nodes (edit.apply c).groups := by
  cases edit with
  | add groupId nodeIds =>
    rw [GroupEdit.apply]
    cases hadd : addNodesToGroup c.groups c.nodes groupId nodeIds with
    | ok groups => exact addNodesToGroup_tidy h hedit.1 hedit.2 hadd
    | error reason => exact h
  | take nodeIds => exact removeNodesFromGroups_tidy h none
  | ungroup groupId => exact ungroupNode_tidy h groupId
  | delete nodeIds => exact removeRealNodes_tidy h
  | repair => exact repairOrphanGroups_tidy h.arranged h.named

inductive EditedFrom (c : Canvas) : Canvas → Prop
  | start : EditedFrom c c
  | edit {c' : Canvas} {edit : GroupEdit} (h : EditedFrom c c') (hedit : edit.Sensible c') :
      EditedFrom c (edit.apply c')

theorem EditedFrom.tidy {c' : Canvas} (h : EditedFrom c c') (hc : Tidy c.nodes c.groups) :
    Tidy c'.nodes c'.groups := by
  induction h with
  | start => exact hc
  | edit _ hedit ih => exact GroupEdit.apply_tidy ih hedit

end Runs

section Grouping

/-- What is shown of a canvas whose groups are in order, and what the edits keep. -/
theorem grouping_hides_nothing (c : Canvas) (h : Arranged c.groups) (hnamed : Named c.groups) :
    ((views c).flatMap ProjectedCanvas.steps).Perm c.nodes ∧
    ((views c).flatMap ProjectedCanvas.realEdgeIds).Perm (c.edges.map CanvasEdge.id) ∧
    (∀ g ∈ c.groups, (projectCanvasView c (some g.id)).realEdgeIds =
      (c.edges.filter (hasEdge g)).map CanvasEdge.id) ∧
    (∀ p ∈ (projectCanvasView c none).edges, ∃ e ∈ c.edges, p.realId = e.id ∧
      ShownEnd c GroupNode.outputPorts e.id (e.source, e.sourceHandle) (p.source, p.sourceHandle) ∧
      ShownEnd c GroupNode.inputPorts e.id (e.target, e.targetHandle) (p.target, p.targetHandle)) ∧
    (∀ nodes, Tidy nodes (repairOrphanGroups nodes c.groups)) ∧
    (Tidy c.nodes c.groups →
      (∀ nodeIds keepGroupId, Tidy c.nodes (removeNodesFromGroups c.groups nodeIds keepGroupId)) ∧
      (∀ groupId, Tidy c.nodes (ungroupNode c.groups groupId)) ∧
      (∀ nodeIds, Tidy (removeRealNodes c nodeIds).nodes (removeRealNodes c nodeIds).groups) ∧
      ∀ groupId nodeIds groups, nodeIds.Nodup → (∀ id ∈ nodeIds, nodeExists c.nodes id) →
        addNodesToGroup c.groups c.nodes groupId nodeIds = .ok groups → Tidy c.nodes groups) := by
  refine ⟨views_steps_perm h hnamed, views_realEdgeIds_perm h hnamed, ?_, ?_, ?_, ?_⟩
  · intro g hg
    rw [projectCanvasView_some hnamed hg, groupView_realEdgeIds]
  · intro p hp
    exact rootView_ports h hnamed hp
  · intro nodes
    exact repairOrphanGroups_tidy h hnamed
  · intro htidy
    refine ⟨fun _ => removeNodesFromGroups_tidy htidy, ungroupNode_tidy htidy,
      fun _ => removeRealNodes_tidy htidy, ?_⟩
    intro groupId nodeIds groups hnodup hexist hadd
    exact addNodesToGroup_tidy htidy hnodup hexist hadd

/-- However the groups are edited, the views show every step and every edge once. -/
theorem EditedFrom.views_perm {c' : Canvas} (h : EditedFrom c c') (hc : Tidy c.nodes c.groups) :
    ((views c').flatMap ProjectedCanvas.steps).Perm c'.nodes ∧
      ((views c').flatMap ProjectedCanvas.realEdgeIds).Perm (c'.edges.map CanvasEdge.id) :=
  ⟨views_steps_perm (h.tidy hc).arranged (h.tidy hc).named,
    views_realEdgeIds_perm (h.tidy hc).arranged (h.tidy hc).named⟩

def sampleNode (id : String) : CanvasNode where
  id := id
  position := ⟨.round 0, .round 0⟩
  data := { title := id }

def sampleGroup (id : String) (nodeIds : List String) : CanvasGroup where
  id := id
  title := id
  nodeIds := nodeIds
  position := ⟨.round 0, .round 0⟩

def sampleCanvas (groups : List CanvasGroup) : Canvas where
  nodes := ["a", "b", "c", "d"].map sampleNode
  edges := [⟨"ab", "a", some "success", "b", some "input"⟩,
    ⟨"bc", "b", some "success", "c", some "input"⟩, ⟨"cd", "c", some "success", "d", some "input"⟩]
  groups := groups

theorem grouping_hides_nothing_sample :
    ((views (sampleCanvas [sampleGroup "g" ["b", "c"]])).flatMap ProjectedCanvas.steps).Perm
      (["a", "b", "c", "d"].map sampleNode) := by
  have harranged : Arranged (sampleCanvas [sampleGroup "g" ["b", "c"]]).groups :=
    ⟨List.pairwise_singleton _ _, by simp [sampleCanvas, sampleGroup]⟩
  have hnamed : Named (sampleCanvas [sampleGroup "g" ["b", "c"]]).groups :=
    ⟨by simp [sampleCanvas], by simp [sampleCanvas, sampleGroup]⟩
  exact (grouping_hides_nothing _ harranged hnamed).1

/-- A step is added to the group, and one that was in it before is deleted. -/
theorem views_perm_edited :
    let start := sampleCanvas [sampleGroup "g" ["b", "c"]]
    ∃ c', EditedFrom start c' ∧ c'.groups.map CanvasGroup.nodeIds = [["c", "d"]] ∧
      ((views c').flatMap ProjectedCanvas.steps).Perm c'.nodes := by
  have hadd : GroupEdit.Sensible (sampleCanvas [sampleGroup "g" ["b", "c"]]) (.add "g" ["d"]) :=
    ⟨List.nodup_singleton _, by simp [nodeExists, sampleCanvas, sampleNode]⟩
  have hedits := (EditedFrom.start.edit hadd).edit
    (show GroupEdit.Sensible _ (.delete ["b"]) from trivial)
  refine ⟨_, hedits, by decide +kernel, (hedits.views_perm ⟨?_, ?_, ?_⟩).1⟩
  · exact arranged_iff.mpr (by decide +kernel)
  · exact ⟨by simp [sampleCanvas], by simp [sampleCanvas, sampleGroup]⟩
  · simp [nodeExists, sampleCanvas, sampleNode, sampleGroup]

def twinGroups : Canvas :=
  sampleCanvas [sampleGroup "g" ["a", "b"], sampleGroup "g" ["c", "d"]]

def namelessGroup : Canvas := sampleCanvas [sampleGroup "" ["a", "b"]]

/-- Of two groups with one id only the first has a view, and a step that is added goes to both; the
edges inside of a group without an id are in the root view as well. -/
theorem ids_matter :
    Arranged twinGroups.groups ∧ Arranged namelessGroup.groups ∧
    ¬ ((views twinGroups).flatMap ProjectedCanvas.steps).Perm twinGroups.nodes ∧
    ¬ ((views namelessGroup).flatMap ProjectedCanvas.realEdgeIds).Perm
      (namelessGroup.edges.map CanvasEdge.id) ∧
    ∃ groups, addNodesToGroup twinGroups.groups twinGroups.nodes "g" ["c"] = .ok groups ∧
      ¬ Arranged groups := by
  refine ⟨arranged_iff.mpr (by decide +kernel), arranged_iff.mpr (by decide +kernel), ?_, ?_, ?_⟩
  · intro hperm
    have hmem := hperm.mem_iff.mpr (show sampleNode "c" ∈ twinGroups.nodes by decide +kernel)
    rw [views, List.flatMap_cons, List.mem_append] at hmem
    rcases hmem with hroot | hgroups
    · have hleft := rootView_steps.mem_iff.mp hroot
      revert hleft
      decide +kernel
    · revert hgroups
      decide +kernel
  · intro hperm
    have hcount := hperm.count_eq "ab"
    revert hcount
    decide +kernel
  · refine ⟨_, rfl, ?_⟩
    rw [arranged_iff]
    decide +kernel

end Grouping

end Manus.Editor
