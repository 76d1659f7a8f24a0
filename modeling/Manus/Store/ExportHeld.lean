import Manus.Store.Files

/-! # What a stored file holds

The record of an item names a path. In a git working tree the file there holds what was left at
the path last; in a directory, where the writes of two tasks can meet, it holds the content of the
item in every order only if each device leaves this content there last. All items with a path of
their own have it to themselves.
-/

namespace Manus.StoreArtifact

variable {config : StoreConfig} {tasks : Dict DeviceTask} {order : List String}
  {sha256 : String → String} {nodeId : String} {commitAfterWrite pushAfterWrite : Bool}
  {answers : GitAnswers} {tree : Tree}

section Outcome

theorem finalizeGitSink_work (commitAfterWrite pushAfterWrite : Bool) (answers : GitAnswers)
    (paths : List (List Char)) (tree : Tree) :
    (finalizeGitSink commitAfterWrite pushAfterWrite answers paths tree).2.work = tree.work := by
  unfold finalizeGitSink finalize
  split
  · rfl
  · rfl
  · split
    · split <;> rfl
    · rfl

theorem storeArtifact_success {id : String} {device : DeviceContext}
    (h : (id, device) ∈ (storeArtifact config sha256 nodeId commitAfterWrite pushAfterWrite answers
      tasks order tree).success) :
    (storeArtifact config sha256 nodeId commitAfterWrite pushAfterWrite answers tasks order
        tree).stored = storedRecords config sha256 tasks ∧
      (storeArtifact config sha256 nodeId commitAfterWrite pushAfterWrite answers tasks order
        tree).tree.work = writtenFiles config tasks order tree.work := by
  unfold storeArtifact at h ⊢
  split
  · next hdestination hprepare =>
    rw [hdestination, hprepare] at h
    cases h
  · next hother =>
    dsimp only at h ⊢
    split
    · exact ⟨rfl, rfl⟩
    · next hnot =>
      have hwork := finalizeGitSink_work commitAfterWrite pushAfterWrite answers
        (writtenPaths [] (eventsOf config tasks order))
        { tree with work := writtenFiles config tasks order tree.work }
      split
      · next hfinal =>
        rw [hfinal] at hwork
        exact ⟨rfl, hwork⟩
      · next hfinal =>
        rw [hfinal] at hwork
        exact ⟨rfl, hwork⟩

end Outcome

section Records

theorem written_of_stored {record : StoredRecord}
    (h : record ∈ storedRecords config sha256 tasks) :
    ∃ task content item, (record.deviceId, task) ∈ tasks.entries ∧
      .wrote record.path content item ∈ task.attempts config ∧
        record.sha256 = sha256 content := by
  obtain ⟨⟨id, task⟩, htask, hrecord⟩ := List.mem_flatMap.mp h
  obtain ⟨attempt, hattempt, hof⟩ := List.mem_filterMap.mp hrecord
  cases attempt with
  | wrote path content item =>
    cases hof
    exact ⟨task, content, item, htask, hattempt, rfl⟩
  | broke => cases hof
  | failed => cases hof

theorem writeFiles_eq_some_iff (files : Files) (before after : List (String × Attempt))
    (id content : String) (path : List Char) (item : ExportItem) :
    writeFiles files (before ++ (id, .wrote path content item) :: after) path = some content ↔
      ∀ text, lastLeft path after = some text → text = content := by
  have hhere : (Attempt.wrote path content item).leftAt path = some content := if_pos rfl
  rw [writeFiles_eq, lastLeft_append, lastLeft, hhere]
  cases lastLeft path after with
  | none => simp
  | some text =>
    rw [Option.some_or, Option.some_or, Option.some_or, Option.some.injEq]
    exact ⟨fun h _ hlast => (Option.some.inj hlast).symm.trans h, fun h => h text rfl⟩

theorem left_of_lastLeft {path : List Char} {text : String} {events : List (String × Attempt)}
    (h : lastLeft path events = some text) :
    ∃ event ∈ events, event.2.left = some (path, text) := by
  induction events with
  | nil => cases h
  | cons event events ih =>
    rw [lastLeft, Option.or_eq_some_iff] at h
    rcases h with h | ⟨-, h⟩
    · obtain ⟨event', hevent', hleft⟩ := ih h
      exact ⟨event', List.mem_cons_of_mem _ hevent', hleft⟩
    · refine ⟨event, List.mem_cons_self, ?_⟩
      unfold Attempt.leftAt at h
      cases hleft : event.2.left with
      | none =>
        rw [hleft] at h
        cases h
      | some entry =>
        rw [hleft] at h
        dsimp only at h
        split at h
        · next hpath =>
          cases h
          rw [← hpath]
        · cases h

def exportedPaths (config : StoreConfig) (tasks : Dict DeviceTask) : List (List Char) :=
  tasks.entries.flatMap fun task =>
    (task.2.attempts config).filterMap fun attempt => attempt.left.map Prod.fst

theorem left_unique {one other : String × DeviceTask} {attempt attempt' : Attempt}
    {path : List Char} {text text' : String} (hpaths : (exportedPaths config tasks).Nodup)
    (hone : one ∈ tasks.entries) (hattempt : attempt ∈ one.2.attempts config)
    (hleft : attempt.left = some (path, text)) (hother : other ∈ tasks.entries)
    (hattempt' : attempt' ∈ other.2.attempts config)
    (hleft' : attempt'.left = some (path, text')) : text = text' := by
  have hmap : exportedPaths config tasks =
      (tasks.entries.flatMap fun task => (task.2.attempts config).filterMap Attempt.left).map
        Prod.fst := by
    rw [exportedPaths, List.map_flatMap]
    simp only [List.map_filterMap]
  rw [hmap] at hpaths
  have hmem : ∀ {task : String × DeviceTask} {attempt : Attempt} {entry : List Char × String},
      task ∈ tasks.entries → attempt ∈ task.2.attempts config → attempt.left = some entry →
      entry ∈ tasks.entries.flatMap fun task =>
        (task.2.attempts config).filterMap Attempt.left :=
    fun htask hattempt hleft =>
      List.mem_flatMap.mpr ⟨_, htask, List.mem_filterMap.mpr ⟨_, hattempt, hleft⟩⟩
  exact congrArg Prod.snd (List.inj_on_of_nodup_map hpaths (hmem hone hattempt hleft)
    (hmem hother hattempt' hleft') rfl)

/-- Whatever the order, a file of a directory holds a content exactly if no device leaves another
one there last. -/
theorem applyParts_held_iff {id content : String} {task : DeviceTask} {path : List Char}
    {item : ExportItem} (files : Files) (htask : (id, task) ∈ tasks.entries)
    (hattempt : .wrote path content item ∈ task.attempts config) :
    (∀ order, applyParts files (interleave order ((allAttempts config tasks).map fun task =>
        (task.1, task.2.flatMap Attempt.parts))) path = some content) ↔
      ∀ other ∈ tasks.entries, ∀ text,
        lastLeft path ((other.2.attempts config).map fun attempt => (other.1, attempt)) =
          some text → text = content := by
  constructor
  · intro hall other hother text hlast
    obtain ⟨before, after, hsplit⟩ := List.append_of_mem hother
    have hnodup := tasks.nodup
    rw [hsplit] at hnodup
    obtain ⟨order, first, horder⟩ := exists_order_last
      (before.map fun task => (task.1, (task.2.attempts config).flatMap Attempt.parts))
      (after.map fun task => (task.1, (task.2.attempts config).flatMap Attempt.parts))
      (other.1, (other.2.attempts config).flatMap Attempt.parts)
      (by simpa [Function.comp_def] using hnodup)
    have hheld := hall order
    rw [allAttempts, hsplit, List.map_map, List.map_append, List.map_cons] at hheld
    rw [Function.comp_def] at hheld
    rw [horder, applyParts, List.foldl_append, ← applyParts, applyParts_alone, hlast,
      Option.some_or] at hheld
    exact Option.some.inj hheld
  · intro hlast order
    apply applyParts_of_settled
    · apply settled_interleave
      intro parts hparts
      simp only [allAttempts, List.map_map, List.mem_map] at hparts
      obtain ⟨other, hother, rfl⟩ := hparts
      exact settled_parts other.1 (hlast other hother)
    · refine .inl ⟨id, (interleave_perm order _).mem_iff.mpr ?_⟩
      simp only [allAttempts, List.map_map, List.mem_flatMap, List.mem_map]
      exact ⟨_, ⟨(id, task), htask, rfl⟩, .opens path,
        List.mem_flatMap.mpr ⟨_, hattempt, List.mem_cons_self⟩, rfl⟩

end Records

section Held

theorem storeArtifact_filesystem (hdestination : config.destination = .filesystem) :
    (storeArtifact config sha256 nodeId commitAfterWrite pushAfterWrite answers tasks order
      tree).tree.work = writtenFiles config tasks order tree.work := by
  unfold storeArtifact
  rw [hdestination]
  rfl

/-- When the file at the path of a stored record holds the content of its item: in a git working
tree, if nothing else was left there later; in a directory, in every order if no device leaves
another text there last; and always where all items have paths of their own. -/
theorem stored_held_iff {record : StoredRecord}
    (hrecord : record ∈ (storeArtifact config sha256 nodeId commitAfterWrite pushAfterWrite answers
      tasks order tree).stored)
    (hsuccess : record.deviceId ∈ (storeArtifact config sha256 nodeId commitAfterWrite
      pushAfterWrite answers tasks order tree).success.map Prod.fst) :
    ∃ content item before after,
      eventsOf config tasks order =
        before ++ (record.deviceId, .wrote record.path content item) :: after ∧
      record.sha256 = sha256 content ∧
      (config.destination ≠ .filesystem →
        ((storeArtifact config sha256 nodeId commitAfterWrite pushAfterWrite answers tasks order
            tree).tree.work record.path = some content ↔
          ∀ text, lastLeft record.path after = some text → text = content)) ∧
      (config.destination = .filesystem →
        ((∀ order, (storeArtifact config sha256 nodeId commitAfterWrite pushAfterWrite answers
            tasks order tree).tree.work record.path = some content) ↔
          ∀ other ∈ tasks.entries, ∀ text,
            lastLeft record.path
              ((other.2.attempts config).map fun attempt => (other.1, attempt)) = some text →
            text = content)) ∧
      ((exportedPaths config tasks).Nodup →
        (storeArtifact config sha256 nodeId commitAfterWrite pushAfterWrite answers tasks order
          tree).tree.work record.path = some content) := by
  obtain ⟨⟨id, device⟩, hdevice, -⟩ := List.mem_map.mp hsuccess
  obtain ⟨hstored, hwork⟩ := storeArtifact_success hdevice
  rw [hstored] at hrecord
  obtain ⟨task, content, item, htask, hattempt, hsha⟩ := written_of_stored hrecord
  have hmem : (record.deviceId, .wrote record.path content item) ∈
      eventsOf config tasks order := mem_eventsOf.mpr ⟨task, htask, hattempt⟩
  obtain ⟨before, after, hevents⟩ := List.append_of_mem hmem
  have hgit : config.destination ≠ .filesystem →
      (writtenFiles config tasks order tree.work record.path = some content ↔
        ∀ text, lastLeft record.path after = some text → text = content) := by
    intro hdestination
    unfold writtenFiles
    cases hsub : config.destination with
    | filesystem => exact absurd hsub hdestination
    | git sub =>
      dsimp only
      rw [hevents]
      exact writeFiles_eq_some_iff ..
  have hdirectory : config.destination = .filesystem →
      ((∀ order, writtenFiles config tasks order tree.work record.path = some content) ↔
        ∀ other ∈ tasks.entries, ∀ text,
          lastLeft record.path
            ((other.2.attempts config).map fun attempt => (other.1, attempt)) = some text →
          text = content) := by
    intro hdestination
    unfold writtenFiles
    rw [hdestination]
    exact applyParts_held_iff tree.work htask hattempt
  refine ⟨content, item, before, after, hevents, hsha, ?_, ?_, fun hpaths => ?_⟩
  · rw [hwork]
    exact hgit
  · intro hdestination
    simp only [storeArtifact_filesystem hdestination]
    exact hdirectory hdestination
  · rw [hwork]
    by_cases hdestination : config.destination = .filesystem
    · refine (hdirectory hdestination).mpr (fun other hother text hlast => ?_) order
      obtain ⟨event, hevent, hleft⟩ := left_of_lastLeft hlast
      obtain ⟨attempt, hattempt', rfl⟩ := List.mem_map.mp hevent
      exact left_unique hpaths hother hattempt' hleft htask hattempt rfl
    · refine (hgit hdestination).mpr fun text hlast => ?_
      obtain ⟨⟨id', attempt⟩, hevent, hleft⟩ := left_of_lastLeft hlast
      have hmem : (id', attempt) ∈ eventsOf config tasks order := by
        rw [hevents]
        exact List.mem_append_right _ (List.mem_cons_of_mem _ hevent)
      obtain ⟨other, hother, hattempt'⟩ := mem_eventsOf.mp hmem
      exact left_unique hpaths hother hattempt' hleft htask hattempt rfl

def exportedConfig (id name content : String) : DeviceTask where
  device := { id := id, name := name, hostname := name }
  items :=
    [⟨"running_config", [], ⟨"20260101-000000", "20260101", none⟩, .ok content, .ok ()⟩]

def byName : StoreConfig where
  contentSource := "running_config"
  filenameTemplate := "{device.name}.cfg"
  strictTemplates := true
  destination := .filesystem

def noAnswers : GitAnswers where
  prepare := .ok ()
  lease := .ok ()
  message := .ok ""
  commit := .ok ()
  push := .ok ()

def exportAll (tasks : Dict DeviceTask) : StoreOutcome :=
  storeArtifact byName id "store" false false noAnswers tasks [] ⟨fun _ => none, fun _ => none⟩

def distinctNames : Dict DeviceTask :=
  ⟨[("d1", exportedConfig "d1" "r1" "one"), ("d2", exportedConfig "d2" "r2" "two")], by decide⟩

theorem distinctNames_held :
    ∃ record content, record ∈ (exportAll distinctNames).stored ∧
      (exportAll distinctNames).tree.work record.path = some content := by
  have hlength : (exportAll distinctNames).stored.length = 2 := by decide +kernel
  have hsuccess : ∀ record ∈ (exportAll distinctNames).stored,
      record.deviceId ∈ (exportAll distinctNames).success.map Prod.fst := by
    decide +kernel
  have hpaths : (exportedPaths byName distinctNames).Nodup := by decide +kernel
  have hmem := List.getElem_mem (show 0 < (exportAll distinctNames).stored.length by omega)
  obtain ⟨content, _, _, _, -, -, -, -, hheld⟩ := stored_held_iff hmem (hsuccess _ hmem)
  exact ⟨_, content, hmem, hheld hpaths⟩

def foldedNames : Dict DeviceTask :=
  ⟨[("d1", exportedConfig "d1" "r:1" "one"), ("d2", exportedConfig "d2" "r?1" "two")], by decide⟩

/-- Two names become one path, and the first device is reported with a file that is not its own. -/
theorem foldedNames_overwritten :
    ¬ ∀ tasks, ∀ record ∈ (exportAll tasks).stored,
      record.deviceId ∈ (exportAll tasks).success.map Prod.fst →
      (exportAll tasks).tree.work record.path = some record.sha256 := by
  intro h
  have hwrong : ∃ record ∈ (exportAll foldedNames).stored,
      record.deviceId ∈ (exportAll foldedNames).success.map Prod.fst ∧
        (exportAll foldedNames).tree.work record.path ≠ some record.sha256 := by
    decide +kernel
  obtain ⟨record, hrecord, hsuccess, hne⟩ := hwrong
  exact hne (h foldedNames record hrecord hsuccess)

end Held

end Manus.StoreArtifact
