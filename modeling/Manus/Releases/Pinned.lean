import Manus.Lib.Table
import Manus.Releases.Stamp
import Mathlib.Logic.Relation

/-! # What a current release says

A release is current only while its settings, its own definition and the definition
of every workflow that it starts, through any number of others, are what they were
when the stamp was written. The walk of the stamp and the step that starts a workflow
read the id of the workflow in the same way.
-/

namespace Manus.Releases

variable {F : Type} {floats : Floats F}

section Targets

theorem parseWorkflowId_toOption (config : List (String × JsonValue (Number F))) :
    (parseWorkflowId floats config).toOption =
      asId floats ((config.lookup "workflow_id").getD .null) := by
  unfold parseWorkflowId asId
  dsimp only
  split
  · rename_i hnull
    rw [hnull]
    rfl
  · rename_i hempty
    rw [hempty]
    rfl
  · cases hint : int floats ((config.lookup "workflow_id").getD .null) with
    | error e => rfl
    | ok value =>
      simp only [bind, Except.bind]
      by_cases hpos : value > 0
      · rw [if_neg (by omega), if_pos hpos]
        rfl
      · rw [if_pos (by omega), if_neg hpos]
        rfl

/-- What the stamp takes a node to start is what its step starts. -/
theorem startTarget_of_childWorkflowId {node : JsonValue (Number F)} {found : Option ℤ}
    (h : childWorkflowId floats node = .ok found) : startTarget floats node = found := by
  unfold childWorkflowId at h
  unfold startTarget
  split at h
  · rename_i data hdata
    split at h
    · rename_i kind hkind
      rw [hkind]
      split at h
      · rename_i hother
        cases h
        cases hconfig : (data.lookup "pluginConfig").getD (.obj []) <;>
          simp [hother]
      · rename_i hstart
        cases hlookup : data.lookup "pluginConfig" with
        | none =>
          simp only [hlookup, Option.getD_none, truthy, Bool.not_false, if_true] at h
          cases h
          simp only [Option.getD_none, not_not.mp hstart, if_true, parseWorkflowId_toOption]
          rfl
        | some config =>
          simp only [hlookup, Option.getD_some] at h ⊢
          cases config with
          | obj fields =>
            dsimp only at h ⊢
            rw [if_pos (not_not.mp hstart), parseWorkflowId_toOption]
            split at h
            · rename_i hfalsy
              have hnil : fields = [] := by simpa [truthy] using hfalsy
              cases h
              rw [hnil]
              rfl
            · cases h
              rfl
          | _ =>
            dsimp only at h
            split at h
            · cases h
              rfl
            · cases h
    · rename_i hkind
      cases h
      cases hconfig : (data.lookup "pluginConfig").getD (.obj []) <;> split <;> simp_all
  · cases h
    rfl

theorem mem_childWorkflowIds {nodes : List (JsonValue (Number F))} {ids : List ℤ} {target : ℤ}
    (h : childWorkflowIds floats nodes = .ok ids) :
    target ∈ ids ↔ ∃ node ∈ nodes, startTarget floats node = some target := by
  obtain ⟨found, hfound, hids⟩ := bind_eq_ok.mp h
  cases hids
  obtain ⟨hfrom, hto⟩ := mapM_eq_ok hfound
  simp only [List.mem_filterMap, id_eq, exists_eq_right]
  constructor
  · intro htarget
    obtain ⟨node, hnode, hchild⟩ := hfrom _ htarget
    exact ⟨node, hnode, startTarget_of_childWorkflowId hchild⟩
  · rintro ⟨node, hnode, htarget⟩
    obtain ⟨child, hchild, hnode'⟩ := hto node hnode
    rw [startTarget_of_childWorkflowId hnode'] at htarget
    exact htarget ▸ hchild

end Targets

section Walks

def Starts (floats : Floats F) (load : Loader F) (id target : ℤ) : Prop :=
  ∃ definition, load id = some definition ∧
    ∃ node ∈ definition.canvasNodes.getD [], startTarget floats node = some target

abbrev Reachable (floats : Floats F) (load : Loader F) : ℤ → ℤ → Prop :=
  Relation.ReflTransGen (Starts floats load)

variable {load : Loader F} {queue : List ℤ} {seen found : List (ℤ × Option (Definition F))}

/-- What the walk finds: the queue, what is stored under every id it adds, and what these start. -/
structure Walked (floats : Floats F) (load : Loader F) (queue : List ℤ)
    (seen found : List (ℤ × Option (Definition F))) : Prop where
  kept : ∀ entry ∈ seen, entry ∈ found
  queued : ∀ id ∈ queue, id ∈ found.map Prod.fst
  stored : ∀ entry ∈ found, entry ∈ seen ∨ entry.2 = load entry.1
  started : ∀ entry ∈ found, entry ∈ seen ∨ ∀ definition, load entry.1 = some definition →
    ∀ node ∈ definition.canvasNodes.getD [], ∀ target, startTarget floats node = some target →
      target ∈ found.map Prod.fst

theorem Walked.nil : Walked floats load [] seen seen :=
  ⟨fun _ h => h, nofun, fun _ h => .inl h, fun _ h => .inl h⟩

theorem Walked.skip {id : ℤ} (h : Walked floats load queue seen found)
    (hid : id ∈ seen.map Prod.fst) : Walked floats load (id :: queue) seen found := by
  refine ⟨h.kept, ?_, h.stored, h.started⟩
  intro target htarget
  rcases List.mem_cons.mp htarget with rfl | htarget
  · obtain ⟨entry, hentry, rfl⟩ := List.mem_map.mp hid
    exact List.mem_map_of_mem (h.kept entry hentry)
  · exact h.queued target htarget

/-- The walk looks an id up, and queues what the workflow starts. -/
theorem Walked.visit {id : ℤ} (ids : List ℤ)
    (hids : ∀ definition, load id = some definition →
      ∀ node ∈ definition.canvasNodes.getD [], ∀ target, startTarget floats node = some target →
        target ∈ ids)
    (h : Walked floats load (queue ++ ids) (seen ++ [(id, load id)]) found) :
    Walked floats load (id :: queue) seen found := by
  have hfound : (id, load id) ∈ found := h.kept _ (by simp)
  have hnew : ∀ entry ∈ seen ++ [(id, load id)], entry ∈ seen ∨ entry = (id, load id) := by
    simp
  constructor
  · intro entry hentry
    exact h.kept entry (List.mem_append_left _ hentry)
  · intro target htarget
    rcases List.mem_cons.mp htarget with rfl | htarget
    · exact List.mem_map_of_mem hfound
    · exact h.queued target (List.mem_append_left _ htarget)
  · intro entry hentry
    rcases h.stored entry hentry with hseen | hstored
    · rcases hnew entry hseen with hseen | rfl
      · exact .inl hseen
      · exact .inr rfl
    · exact .inr hstored
  · intro entry hentry
    rcases h.started entry hentry with hseen | hstarted
    · rcases hnew entry hseen with hseen | rfl
      · exact .inl hseen
      · right
        intro definition hdefinition node hnode target htarget
        have hqueued := hids definition hdefinition node hnode target htarget
        exact h.queued target (List.mem_append_right _ hqueued)
    · exact .inr hstarted

theorem walked_of_collectFrom (h : collectFrom floats load queue seen = .ok found) :
    Walked floats load queue seen found := by
  fun_induction collectFrom floats load queue seen with
  | case1 seen =>
    cases h
    exact .nil
  | case2 seen id queue hid ih => exact (ih h).skip hid
  | case3 => cases h
  | case4 seen id queue _ _ hload ih =>
    refine Walked.visit [] ?_ ?_
    · intro definition hdefinition
      rw [hload] at hdefinition
      cases hdefinition
    · rw [List.append_nil, hload]
      exact ih h
  | case5 => cases h
  | case6 seen id queue _ _ child hload ids hids ih =>
    refine Walked.visit ids ?_ ?_
    · intro definition hdefinition node hnode target htarget
      rw [hload] at hdefinition
      cases hdefinition
      exact (mem_childWorkflowIds hids).mpr ⟨node, hnode, htarget⟩
    · rw [hload]
      exact ih h

/-- The walk finds every workflow that is reachable from the root, as it is stored. -/
theorem collect_reachable {rootId : ℤ} {root : Definition F} (hroot : load rootId = some root)
    (h : collect floats rootId root load = .ok found) :
    (∀ entry ∈ found, entry.2 = load entry.1) ∧
      ∀ id, Reachable floats load rootId id → (id, load id) ∈ found := by
  obtain ⟨ids, hids, hwalk⟩ := bind_eq_ok.mp h
  have hwalked := walked_of_collectFrom hwalk
  have hstored : ∀ entry ∈ found, entry.2 = load entry.1 := by
    intro entry hentry
    rcases hwalked.stored entry hentry with hseen | hstored
    · cases List.mem_singleton.mp hseen
      exact hroot.symm
    · exact hstored
  have hmem : ∀ id ∈ found.map Prod.fst, (id, load id) ∈ found := by
    intro id hid
    obtain ⟨entry, hentry, rfl⟩ := List.mem_map.mp hid
    rw [← hstored entry hentry]
    exact hentry
  refine ⟨hstored, fun id hreach => hmem id ?_⟩
  induction hreach with
  | refl => exact List.mem_map_of_mem (hwalked.kept (rootId, some root) (by simp))
  | tail _ hstep ih =>
    obtain ⟨definition, hdefinition, node, hnode, htarget⟩ := hstep
    rcases hwalked.started _ (hmem _ ih) with hseen | hstarted
    · obtain ⟨rfl, -⟩ := Prod.mk.inj (List.mem_singleton.mp hseen)
      rw [hroot] at hdefinition
      cases hdefinition
      exact hwalked.queued _ ((mem_childWorkflowIds hids).mpr ⟨node, hnode, htarget⟩)
    · exact hstarted definition hdefinition node hnode _ htarget

end Walks

section Stamps

def Unchanged : Option (Definition F) → Option (Definition F) → Prop
  | none, none => True
  | some definition, some definition' => definition.toJson.Same definition'.toJson
  | _, _ => False

theorem Unchanged.symm {found found' : Option (Definition F)} (h : Unchanged found found') :
    Unchanged found' found := by
  match found, found', h with
  | none, none, _ => trivial
  | some _, some _, h => exact JsonValue.Same.symm h

theorem unchanged_of_same {found found' : Option (Definition F)}
    (h : (entryJson found).Same (entryJson found')) : Unchanged found found' := by
  match found, found' with
  | none, none => trivial
  | some _, some _ => exact h
  | none, some _ => cases h
  | some _, none => cases h

variable {hash : List Char → String} {load load' : Loader F} {rootId : ℤ}
  {root root' : Definition F} {settings settings' : Settings} {stamp : String}

theorem computeStamp_cases (h : computeStamp floats hash rootId root settings load = .ok stamp) :
    ∃ found, collect floats rootId root load = .ok found ∧
      stamp = hash (JsonValue.dumps floats.numberText (.obj [("settings", releaseSettings settings),
        ("workflows", workflowsJson found)])) := by
  obtain ⟨found, hfound, hstamp⟩ := bind_eq_ok.mp h
  cases hstamp
  exact ⟨found, hfound, rfl⟩

/-- Equal stamps are stamps of the same settings and of the same workflows. -/
theorem same_of_stamp (hhash : Function.Injective hash) (hroot : load rootId = some root)
    (hroot' : load' rootId = some root')
    (h : computeStamp floats hash rootId root settings load = .ok stamp)
    (h' : computeStamp floats hash rootId root' settings' load' = .ok stamp) :
    (releaseSettings (F := F) settings).Same (releaseSettings settings') ∧
      ∀ id, Reachable floats load rootId id → Unchanged (load id) (load' id) := by
  obtain ⟨found, hfound, rfl⟩ := computeStamp_cases h
  obtain ⟨found', hfound', htext⟩ := computeStamp_cases h'
  have hsame := JsonValue.same_of_dumps (hhash htext)
  constructor
  · obtain ⟨value, hvalue, hsettings⟩ := hsame.exists_mem (k := "settings") List.mem_cons_self
    simp only [List.mem_cons, Prod.mk.injEq, true_and, String.reduceEq, false_and,
      List.not_mem_nil, or_false] at hvalue
    exact hvalue ▸ hsettings
  · intro id hreach
    obtain ⟨value, hvalue, hworkflows⟩ := hsame.exists_mem (k := "workflows")
      (List.mem_cons_of_mem _ List.mem_cons_self)
    simp only [List.mem_cons, Prod.mk.injEq, true_and, String.reduceEq, false_and,
      List.not_mem_nil, false_or, or_false] at hvalue
    rw [hvalue] at hworkflows
    have hentry := (collect_reachable hroot hfound).2 id hreach
    obtain ⟨value', hvalue', hentry'⟩ := hworkflows.exists_mem (List.mem_map_of_mem hentry)
    obtain ⟨⟨id', definition⟩, hmem, hkey⟩ := List.mem_map.mp hvalue'
    obtain ⟨hid, rfl⟩ := Prod.mk.inj hkey
    obtain rfl := intText_injective (String.ofList_injective hid)
    have hstored := (collect_reachable hroot' hfound').1 _ hmem
    exact unchanged_of_same (hstored ▸ hentry')

end Stamps

section Runs

variable {hash : List Char → String}

structure Pinned (floats : Floats F) (hash : List Char → String) (s : ReleaseState F) (id : ℤ)
    (stamp : String) (before : Store F) : Prop where
  stampedAt : s.stampedAt id = some before
  stamp : ∃ row, before id = some row ∧
    computeStamp floats hash id row.definition row.settings before.loader = .ok stamp

structure Invariant (floats : Floats F) (hash : List Char → String) (s : ReleaseState F) :
    Prop where
  id : ∀ id row, s.workflows id = some row → row.id = id
  stamped : ∀ id row stamp, s.workflows id = some row → row.aiReleaseStamp = some stamp →
    ∃ before, Pinned floats hash s id stamp before

theorem Invariant.init : Invariant floats hash ({} : ReleaseState F) := by
  constructor
  · intro id row hrow
    cases hrow
  · intro id row stamp hrow
    cases hrow

theorem loader_released {store : Store F} {id : ℤ} {row : Workflow F} (hrow : store id = some row)
    (settings : Settings) (stamp : String) :
    Store.loader (Function.update store id (some (released row settings stamp))) =
      Store.loader store := by
  funext other
  by_cases hother : other = id
  · subst hother
    simp [Store.loader, hrow, released]
  · simp [Store.loader, Function.update_of_ne hother]

theorem Invariant.edit {s : ReleaseState F} {id : ℤ} {row : Option (Workflow F)}
    (h : Invariant floats hash s) (hkeeps : Keeps id (s.workflows id) row = true) :
    Invariant floats hash { s with workflows := Function.update s.workflows id row } := by
  constructor
  · intro other workflow hother
    rcases update_eq_some hother with ⟨rfl, rfl⟩ | ⟨-, hbefore⟩
    · simp only [Keeps, Option.all_some, Bool.and_eq_true, beq_iff_eq] at hkeeps
      exact hkeeps.1
    · exact h.id other workflow hbefore
  · intro other workflow stamp hother hstamp
    rcases update_eq_some hother with ⟨rfl, rfl⟩ | ⟨-, hbefore⟩
    · simp only [Keeps, Option.all_some, hstamp, Option.isNone_some, Bool.false_or,
        Bool.and_eq_true, Option.any_eq_true, beq_iff_eq] at hkeeps
      obtain ⟨-, before, hbefore, hsame⟩ := hkeeps
      obtain ⟨store, hstore⟩ := h.stamped other before stamp hbefore hsame
      exact ⟨store, hstore.stampedAt, hstore.stamp⟩
    · obtain ⟨store, hstore⟩ := h.stamped other workflow stamp hbefore hstamp
      exact ⟨store, hstore.stampedAt, hstore.stamp⟩

theorem Invariant.release {s : ReleaseState F} {id : ℤ} {row : Workflow F} {settings : Settings}
    {stamp : String} (h : Invariant floats hash s) (hrow : s.workflows id = some row)
    (hstamp : computeStamp floats hash id row.definition settings s.workflows.loader = .ok stamp) :
    Invariant floats hash
      { workflows := Function.update s.workflows id (some (released row settings stamp))
        stampedAt := Function.update s.stampedAt id
          (some (Function.update s.workflows id (some (released row settings stamp)))) } := by
  constructor
  · intro other workflow hother
    rcases update_eq_some hother with ⟨rfl, hnew⟩ | ⟨-, hbefore⟩
    · cases hnew
      exact h.id other row hrow
    · exact h.id other workflow hbefore
  · intro other workflow stamp' hother hstamp'
    rcases update_eq_some hother with ⟨rfl, hnew⟩ | ⟨he, hbefore⟩
    · cases hnew
      cases hstamp'
      refine ⟨_, Function.update_self .., released row settings stamp, Function.update_self .., ?_⟩
      rw [loader_released hrow]
      exact hstamp
    · obtain ⟨store, hstore⟩ := h.stamped other workflow stamp' hbefore hstamp'
      exact ⟨store, (Function.update_of_ne he ..).trans hstore.stampedAt, hstore.stamp⟩

theorem Invariant.step {s s' : ReleaseState F} {move : Move F} (h : Invariant floats hash s)
    (hstep : step floats hash s move = some s') : Invariant floats hash s' := by
  cases move with
  | edit id row =>
    simp only [Releases.step] at hstep
    split at hstep
    · rename_i hkeeps
      cases hstep
      exact h.edit hkeeps
    · cases hstep
  | release id settings =>
    obtain ⟨row, hrow, hrest⟩ := Option.bind_eq_some_iff.mp hstep
    obtain rfl := h.id id row hrow
    split at hrest
    · cases hrest
      exact h
    · rename_i stamp hstamp
      cases hrest
      exact h.release hrow hstamp

theorem releaseIsCurrent_eq_true {workflow : Workflow F} {store : Store F}
    (h : releaseIsCurrent floats hash workflow store = .ok true) :
    ∃ stamp, workflow.aiReleaseStamp = some stamp ∧
      computeStamp floats hash workflow.id workflow.definition workflow.settings store.loader =
        .ok stamp := by
  unfold releaseIsCurrent at h
  split at h
  · cases h
  · rename_i stored hstored
    split at h
    · cases h
    · split at h
      · cases h
      · cases h
      · rename_i current hcurrent
        have hsame : stored = current := by simpa using h
        exact ⟨stored, hstored, hsame ▸ hcurrent⟩

/-- In every store that edits and releases lead to, a release that is current pins the settings and
every reachable workflow to what they were when its stamp was written. -/
theorem releaseIsCurrent_unchanged (hhash : Function.Injective hash) {moves : List (Move F)}
    {s : ReleaseState F} (hrun : runSteps (step floats hash) {} moves = some s) {id : ℤ}
    {root : Workflow F} (hroot : s.workflows id = some root)
    (hcurrent : releaseIsCurrent floats hash root s.workflows = .ok true) :
    ∃ before row, s.stampedAt id = some before ∧ before id = some row ∧
      (releaseSettings (F := F) row.settings).Same (releaseSettings root.settings) ∧
      ∀ other, Reachable floats before.loader id other ∨
          Reachable floats s.workflows.loader id other →
        Unchanged (before.loader other) (s.workflows.loader other) := by
  have hinv := runSteps_invariant (fun _ _ _ hstep h => Invariant.step h hstep) hrun Invariant.init
  obtain ⟨stamp, hstamp, hnow⟩ := releaseIsCurrent_eq_true hcurrent
  rw [hinv.id id root hroot] at hnow
  obtain ⟨before, hbefore, row, hrow, hthen⟩ := hinv.stamped id root stamp hroot hstamp
  have hloadThen : before.loader id = some row.definition := congrArg _ hrow
  have hloadNow : s.workflows.loader id = some root.definition := congrArg _ hroot
  obtain ⟨hsettings, hwas⟩ := same_of_stamp hhash hloadThen hloadNow hthen hnow
  obtain ⟨-, his⟩ := same_of_stamp hhash hloadNow hloadThen hnow hthen
  refine ⟨before, row, hbefore, hrow, hsettings, ?_⟩
  rintro other (hreach | hreach)
  · exact hwas other hreach
  · exact (his other hreach).symm

theorem isCurrent_of_release {s : ReleaseState F} {row : Workflow F} {settings : Settings}
    {stamp : String} (hrow : s.workflows row.id = some row) (hne : stamp ≠ "")
    (hstamp : computeStamp floats hash row.id row.definition settings s.workflows.loader =
      .ok stamp) :
    ∃ s', step floats hash s (.release row.id settings) = some s' ∧
      s'.workflows row.id = some (released row settings stamp) ∧
      releaseIsCurrent floats hash (released row settings stamp) s'.workflows = .ok true := by
  let workflows := Function.update s.workflows row.id (some (released row settings stamp))
  refine ⟨⟨workflows, Function.update s.stampedAt row.id (some workflows)⟩, ?_,
    Function.update_self .., ?_⟩
  · simp only [step, hrow, Option.bind_eq_bind, Option.bind_some, hstamp]
    rfl
  · have hcompute : computeStamp floats hash (released row settings stamp).id
        (released row settings stamp).definition (released row settings stamp).settings
        (Store.loader workflows) = .ok stamp := by
      rw [loader_released hrow]
      exact hstamp
    unfold releaseIsCurrent
    rw [hcompute]
    simp [released, hne]

end Runs

section Examples

def halves : Floats ℕ where
  repr n := Nat.toDigits 10 n ++ ['.', '5']
  repr_injective := fun _ _ h => toDigits_injective (List.append_cancel_right h)
  repr_chars := by
    intro n c hc
    rcases List.mem_append.mp hc with hc | hc
    · simp [isNumberChar, Nat.isDigit_of_mem_toDigits (by decide) (by decide) hc]
    · rcases List.mem_pair.mp hc with rfl | rfl <;> rfl
  repr_fraction := fun n => .inl (by simp)
  trunc n := n
  whole _ := none

def starter (workflowId : JsonValue (Number ℕ)) : Definition ℕ where
  canvasNodes := some [.obj [
    ("id", .str "s"), ("position", .obj [("x", .num (.float 12)), ("y", .num (.int 4))]),
    ("data", .obj [("kind", .str startWorkflowKind),
      ("pluginConfig", .obj [("workflow_id", workflowId)])])]]
  canvasEdges := some []
  canvasGroups := some []
  staticAttributes := none

def cyclic : List (Move ℕ) :=
  [.edit 1 (some { id := 1, definition := starter (.num (.int 2)) }),
    .edit 2 (some { id := 2, definition := starter (.str " 1 ") })] ++
  [.release 1 { aiDescription := some "Compare." }]

/-- The walk ends, and the release is current. -/
theorem cyclic_unchanged : ∃ s root, runSteps (step halves String.ofList) {} cyclic = some s ∧
    s.workflows 1 = some root ∧
    releaseIsCurrent halves String.ofList root s.workflows = .ok true ∧
    ∃ before row, s.stampedAt 1 = some before ∧ before 1 = some row ∧
      (releaseSettings (F := ℕ) row.settings).Same (releaseSettings root.settings) ∧
      ∀ other, Reachable halves before.loader 1 other ∨
          Reachable halves s.workflows.loader 1 other →
        Unchanged (before.loader other) (s.workflows.loader other) := by
  let root : Workflow ℕ := { id := 1, definition := starter (.num (.int 2)) }
  let child : Workflow ℕ := { id := 2, definition := starter (.str " 1 ") }
  let store : Store ℕ := Function.update (Function.update (fun _ => none) 1 (some root)) 2
    (some child)
  let settings : Settings := { aiDescription := some "Compare." }
  have hcollect : collect halves 1 root.definition store.loader =
      .ok [(1, some root.definition), (2, some child.definition)] := by
    have hroot : childWorkflowIds halves (root.definition.canvasNodes.getD []) = .ok [2] := rfl
    have hchild : childWorkflowIds halves (child.definition.canvasNodes.getD []) = .ok [1] := rfl
    have hload : store.loader 2 = some child.definition := rfl
    have hwalk : collectFrom halves store.loader [2] [(1, some root.definition)] =
        .ok [(1, some root.definition), (2, some child.definition)] := by
      rw [collectFrom, if_neg (by decide), dif_neg (by decide), hload]
      dsimp only
      rw [hchild]
      dsimp only
      rw [List.nil_append, collectFrom, if_pos (by decide), collectFrom]
      rfl
    rw [collect, hroot]
    exact hwalk
  have htext : ∀ v : JsonValue (Number ℕ), String.ofList (v.dumps halves.numberText) ≠ "" := by
    intro v h
    obtain ⟨c, cs, hv, -⟩ := JsonValue.write_head (T := halves.numberText) v.sortKeys
    rw [JsonValue.dumps, hv] at h
    cases String.ofList_injective h
  have hstamp : computeStamp halves String.ofList 1 root.definition settings store.loader =
      .ok (String.ofList (JsonValue.dumps halves.numberText
        (.obj [("settings", releaseSettings settings), ("workflows", workflowsJson
          [(1, some root.definition), (2, some child.definition)])]))) := by
    rw [computeStamp, hcollect]
    rfl
  have hroot : ({ workflows := store } : ReleaseState ℕ).workflows root.id = some root := rfl
  obtain ⟨s, hs, hrow, hcurrent⟩ := isCurrent_of_release hroot (htext _) hstamp
  have hrun : runSteps (step halves String.ofList) {} cyclic = some s := by
    rw [cyclic, runSteps_append]
    exact Option.bind_eq_some_iff.mpr ⟨{ workflows := store }, rfl,
      Option.bind_eq_some_iff.mpr ⟨s, hs, rfl⟩⟩
  exact ⟨s, _, hrun, hrow, hcurrent, releaseIsCurrent_unchanged
    (fun _ _ h => String.ofList_injective h) hrun hrow hcurrent⟩

end Examples

end Manus.Releases
