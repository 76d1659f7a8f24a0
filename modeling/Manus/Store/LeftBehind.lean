import Manus.Store.Files

/-! # What a git export leaves behind

The step commits the written files where a device is left in success and the lock, the message
and the commit come through. On its other exits the files stay as they are, so the working tree
is clean only if they hold what the last commit has.
-/

namespace Manus.StoreArtifact

variable (config : StoreConfig) (tasks : Dict DeviceTask) (order : List String)
  (answers : GitAnswers)

section Statement

/-- All items of a device are exported, and there are some. -/
def Exports (task : DeviceTask) : Prop :=
  task.items ≠ [] ∧ failureOf (task.attempts config) = none

/-- The step comes to its commit, and the commit goes through. -/
def Commits : Prop :=
  (∃ entry ∈ tasks.entries, Exports config entry.2) ∧ answers.lease = .ok () ∧
    (∃ message, answers.message = .ok message) ∧ answers.commit = .ok ()

/-- No file differs from the last commit. -/
def Tree.Clean (tree : Tree) : Prop := ∀ path, tree.work path = tree.head path

end Statement

section Finalizing

variable {config tasks answers} {nodeId : String} {pushAfterWrite : Bool}

theorem partitionResults_eq_nil_iff :
    partitionResults config nodeId tasks true = [] ↔
      ¬ ∃ entry ∈ tasks.entries, Exports config entry.2 := by
  have hresult : ∀ id task, (storeForDevice config nodeId id task).2 = true ↔
      Exports config task := by
    intro id task
    unfold storeForDevice Exports
    split
    · next hnil => simp [hnil]
    · next hitems => cases failureOf (task.attempts config) <;> simp [hitems]
  rw [partitionResults, List.filterMap_eq_nil_iff, not_exists]
  apply forall_congr'
  intro entry
  rw [not_and]
  apply imp_congr_right
  intro _
  rw [← hresult entry.1 entry.2]
  simp

theorem finalizeGitSink_eq (answers : GitAnswers) (pushAfterWrite : Bool)
    (paths : List (List Char)) (tree : Tree) :
    (finalizeGitSink true pushAfterWrite answers paths tree).2 = tree.commit paths ∧
        answers.lease = .ok () ∧ (∃ message, answers.message = .ok message) ∧
        answers.commit = .ok () ∨
      (finalizeGitSink true pushAfterWrite answers paths tree).2 = tree ∧
        ¬ (answers.lease = .ok () ∧ (∃ message, answers.message = .ok message) ∧
          answers.commit = .ok ()) := by
  unfold finalizeGitSink finalize
  cases answers.lease with
  | error e => exact .inr ⟨rfl, nofun⟩
  | ok _ =>
    cases answers.message with
    | error e => exact .inr ⟨rfl, nofun⟩
    | ok message =>
      cases answers.commit with
      | error e => exact .inr ⟨rfl, nofun⟩
      | ok _ => exact .inl ⟨rfl, rfl, ⟨message, rfl⟩, rfl⟩

/-- The files of the step and of the last commit, at its end. -/
theorem storeArtifact_tree (config : StoreConfig) (tasks : Dict DeviceTask) (order : List String)
    (answers : GitAnswers) (nodeId : String) (pushAfterWrite : Bool) (sha256 : String → String)
    (head : Files) {sub : List Char} (hgit : config.destination = .git sub)
    (hprepare : answers.prepare = .ok ()) (path : List Char) :
    let tree := (storeArtifact config sha256 nodeId true pushAfterWrite answers tasks order
      ⟨head, head⟩).tree
    let events := eventsOf config tasks order
    tree.work path = writeFiles head events path ∧
      (Commits config tasks answers ∧ Written events path ∧ tree.head path = tree.work path ∨
        ¬ (Commits config tasks answers ∧ Written events path) ∧ tree.head path = head path) := by
  intro tree events
  have hwritten : path ∈ writtenPaths [] events ↔ Written events path := by
    rw [mem_writtenPaths]
    simp
  have htree : tree = if writtenPaths [] events = [] ∨
      partitionResults config nodeId tasks true = [] then ⟨writeFiles head events, head⟩
      else (finalizeGitSink true pushAfterWrite answers (writtenPaths [] events)
        ⟨writeFiles head events, head⟩).2 := by
    have hdestination : ¬ (Destination.git sub).name = "filesystem" := by
      change ¬ "git" = "filesystem"
      decide
    change (storeArtifact _ _ _ _ _ _ _ _ _).tree = _
    unfold storeArtifact writtenFiles
    rw [hgit, hprepare]
    simp only [hdestination, false_or]
    split
    · rfl
    · split
      · next hfinal => exact (congrArg Prod.snd hfinal).symm
      · next hfinal => exact (congrArg Prod.snd hfinal).symm
  split at htree
  · next hnone =>
    rw [htree]
    refine ⟨rfl, .inr ⟨?_, rfl⟩⟩
    rintro ⟨hcommits, hpath⟩
    rcases hnone with hnone | hnone
    · rw [← hwritten, hnone] at hpath
      cases hpath
    · exact partitionResults_eq_nil_iff.mp hnone hcommits.1
  · next hsome =>
    rw [not_or, partitionResults_eq_nil_iff, not_not] at hsome
    rcases finalizeGitSink_eq answers pushAfterWrite (writtenPaths [] events)
      ⟨writeFiles head events, head⟩ with ⟨hcommit, hall⟩ | ⟨hsame, hnot⟩
    · rw [htree, hcommit]
      refine ⟨rfl, ?_⟩
      by_cases hpath : Written events path
      · refine .inl ⟨⟨hsome.2, hall⟩, hpath, ?_⟩
        exact if_pos (hwritten.mpr hpath)
      · refine .inr ⟨fun h => hpath h.2, ?_⟩
        exact if_neg fun h => hpath (hwritten.mp h)
    · rw [htree, hsame]
      exact ⟨rfl, .inr ⟨fun h => hnot h.1.2, rfl⟩⟩

end Finalizing

section Outcome

/-- Where a file was changed and not committed, it holds what the last commit has: this is when the
step leaves a clean tree. -/
theorem storeArtifact_clean_iff (config : StoreConfig) (sub : List Char) (sha256 : String → String)
    (nodeId : String) (pushAfterWrite : Bool) (answers : GitAnswers) (tasks : Dict DeviceTask)
    (order : List String) (head : Files) :
    (storeArtifact { config with destination := .git sub } sha256 nodeId true pushAfterWrite answers
        tasks order ⟨head, head⟩).tree.Clean ↔
      answers.prepare ≠ .ok () ∨
        ∀ path text, lastLeft path
            (eventsOf { config with destination := .git sub } tasks order) = some text →
          head path = some text ∨
            Commits { config with destination := .git sub } tasks answers ∧
              Written (eventsOf { config with destination := .git sub } tasks order) path := by
  cases hprepare : answers.prepare with
  | error e =>
    have hsame : (storeArtifact { config with destination := .git sub } sha256 nodeId true
        pushAfterWrite answers tasks order ⟨head, head⟩).tree = ⟨head, head⟩ := by
      unfold storeArtifact
      rw [hprepare]
    rw [hsame]
    exact ⟨fun _ => .inl nofun, fun _ _ => rfl⟩
  | ok _ =>
    have htree := storeArtifact_tree { config with destination := .git sub } tasks order answers
      nodeId pushAfterWrite sha256 head rfl hprepare
    constructor
    · intro hclean
      refine .inr fun path text hleft => ?_
      obtain ⟨hwork, hhead⟩ := htree path
      rw [writeFiles_eq, hleft, Option.some_or] at hwork
      rcases hhead with ⟨hcommits, hwritten, -⟩ | ⟨-, hhead⟩
      · exact .inr ⟨hcommits, hwritten⟩
      · left
        rw [← hhead, ← hclean path, hwork]
    · rintro (hfails | hleft) path
      · exact absurd rfl hfails
      · obtain ⟨hwork, hhead⟩ := htree path
        rcases hhead with ⟨-, -, hsame⟩ | ⟨hnot, hhead⟩
        · exact hsame.symm
        · rw [hwork, hhead, writeFiles_eq]
          cases hlast : lastLeft path
              (eventsOf { config with destination := .git sub } tasks order) with
          | none => rw [Option.none_or]
          | some text =>
            rcases hleft path text hlast with hkept | hcommitted
            · rw [Option.some_or, hkept]
            · exact absurd hcommitted hnot

/-- An item that is written, and one whose content cannot be read. -/
def halfExported : DeviceTask where
  device := { id := "d1", name := "r1", hostname := "r1" }
  items :=
    [⟨"command_output", [], ⟨"20260101-000000", "20260101", none⟩, .ok "version 1", .ok ()⟩,
      ⟨"command_output", [], ⟨"20260101-000000", "20260101", none⟩,
        .error ⟨"ArtifactNotFoundError", "gone"⟩, .ok ()⟩]

def halfTasks : Dict DeviceTask := ⟨[("d1", halfExported)], by decide⟩

/-- A git export of one file for each item. -/
def exportConfig : StoreConfig where
  contentSource := "command_output"
  filenameTemplate := "{device.name}_{command.index}.cfg"
  strictTemplates := true
  destination := .git []

def allGood : GitAnswers where
  prepare := .ok ()
  lease := .ok ()
  message := .ok "commit"
  commit := .ok ()
  push := .ok ()

/-- The file of the first item stays behind. -/
theorem halfExported_dirty :
    ¬ ∀ (config : StoreConfig) (sub : List Char) (answers : GitAnswers) (tasks : Dict DeviceTask)
      (order : List String) (head : Files), config.destination = .git sub →
      (storeArtifact config id "store" true false answers tasks order ⟨head, head⟩).tree.Clean := by
  intro h
  have hclean := h exportConfig [] allGood halfTasks [] (fun _ => none) rfl "r1_1.cfg".toList
  have hwork : (storeArtifact exportConfig id "store" true false allGood halfTasks []
      ⟨fun _ => none, fun _ => none⟩).tree.work "r1_1.cfg".toList = some "version 1" := by
    decide +kernel
  have hhead : (storeArtifact exportConfig id "store" true false allGood halfTasks []
      ⟨fun _ => none, fun _ => none⟩).tree.head "r1_1.cfg".toList = none := by
    decide +kernel
  rw [hwork, hhead] at hclean
  cases hclean

end Outcome

end Manus.StoreArtifact
