import Manus.Store.StoreArtifact

/-! # What the attempts leave in the files

Every order in which the tasks come to their attempts makes all of them. A file then holds what
the last attempt at its path has left there, and the paths that were written are those of the
attempts that came to an end.
-/

namespace Manus.StoreArtifact

variable {files : Files} {path : List Char} {events : List (String × Attempt)}

section Orders

variable {α : Type} {id : String} {step : α} {tasks rest : List (String × List α)}

theorem takeNext_eq_some (h : takeNext id tasks = some (step, rest)) :
    ∃ before steps after, tasks = before ++ (id, step :: steps) :: after ∧
      rest = before ++ (id, steps) :: after := by
  induction tasks generalizing step rest with
  | nil => cases h
  | cons task tasks ih =>
    have hlater : ((takeNext id tasks).map fun found => (found.1, task :: found.2)) =
        some (step, rest) → ∃ before steps after,
          task :: tasks = before ++ (id, step :: steps) :: after ∧
          rest = before ++ (id, steps) :: after := by
      intro h
      obtain ⟨⟨found, rest'⟩, hfound, heq⟩ := Option.map_eq_some_iff.mp h
      cases heq
      obtain ⟨before, steps, after, rfl, rfl⟩ := ih hfound
      exact ⟨task :: before, steps, after, rfl, rfl⟩
    obtain ⟨id', steps⟩ := task
    cases steps with
    | nil => exact hlater h
    | cons first steps =>
      unfold takeNext at h
      dsimp only at h
      split at h
      · next hid =>
        cases h
        exact ⟨[], steps, tasks, by rw [hid, List.nil_append], by rw [hid, List.nil_append]⟩
      · exact hlater h

theorem takeNext_append {before : List (String × List α)} (h : id ∉ before.map Prod.fst)
    (step : α) (steps : List α) (after : List (String × List α)) :
    takeNext id (before ++ (id, step :: steps) :: after) =
      some (step, before ++ (id, steps) :: after) := by
  induction before with
  | nil => exact if_pos rfl
  | cons task before ih =>
    rw [List.map_cons, List.mem_cons, not_or] at h
    obtain ⟨id', steps'⟩ := task
    cases steps' with
    | nil => rw [List.cons_append, takeNext, ih h.2, Option.map_some, List.cons_append]
    | cons first steps' =>
      rw [List.cons_append, takeNext, if_neg (Ne.symm h.1), ih h.2, Option.map_some,
        List.cons_append]

theorem interleave_perm (order : List String) (tasks : List (String × List α)) :
    (interleave order tasks).Perm
      (tasks.flatMap fun task => task.2.map fun step => (task.1, step)) := by
  induction order generalizing tasks with
  | nil => exact List.Perm.refl _
  | cons id order ih =>
    unfold interleave
    split
    · exact ih tasks
    · next step rest htake =>
      obtain ⟨before, steps, after, rfl, rfl⟩ := takeNext_eq_some htake
      apply ((ih _).cons (id, step)).trans
      simp only [List.flatMap_append, List.flatMap_cons, List.map_cons, List.cons_append]
      exact List.perm_middle.symm

theorem interleave_drain (order : List String) {before : List (String × List α)}
    (h : id ∉ before.map Prod.fst) (steps : List α) (after : List (String × List α)) :
    interleave (List.replicate steps.length id ++ order) (before ++ (id, steps) :: after) =
      steps.map (fun step => (id, step)) ++ interleave order (before ++ (id, []) :: after) := by
  induction steps with
  | nil => rfl
  | cons step steps ih =>
    rw [List.length_cons, List.replicate_succ, List.cons_append, interleave,
      takeNext_append h]
    dsimp only
    rw [ih, List.map_cons, List.cons_append]

/-- In some order a device comes to its steps after all others. -/
theorem exists_order_last (before after : List (String × List α)) (task : String × List α)
    (hnodup : ((before ++ task :: after).map Prod.fst).Nodup) :
    ∃ order first, interleave order (before ++ task :: after) =
      first ++ task.2.map fun step => (task.1, step) := by
  -- the devices behind it are drained one after another; `done` are those without steps
  suffices ∀ later done : List (String × List α), (∀ other ∈ done, other.2 = []) →
      ((before ++ task :: (done ++ later)).map Prod.fst).Nodup →
      ∃ order first, interleave order (before ++ task :: (done ++ later)) =
        first ++ task.2.map fun step => (task.1, step) from
    this after [] (fun _ h => absurd h List.not_mem_nil) hnodup
  intro later
  induction later with
  | nil =>
    intro done hdone _
    have hnone : (done.flatMap fun other => other.2.map fun step => (other.1, step)) = [] := by
      apply List.flatMap_eq_nil_iff.mpr
      intro other hother
      rw [hdone other hother, List.map_nil]
    refine ⟨[], before.flatMap fun other => other.2.map fun step => (other.1, step), ?_⟩
    rw [interleave, List.append_nil, List.flatMap_append, List.flatMap_cons, hnone,
      List.append_nil]
  | cons other later ih =>
    intro done hdone hnodup
    obtain ⟨id, steps⟩ := other
    have hsplit : ∀ steps, before ++ task :: (done ++ (id, steps) :: later) =
        (before ++ task :: done) ++ (id, steps) :: later := fun _ => by
      rw [List.append_assoc, List.cons_append]
    have hid : id ∉ (before ++ task :: done).map Prod.fst := by
      rw [hsplit, List.map_append, List.map_cons] at hnodup
      intro hmem
      exact (List.nodup_append.mp hnodup).2.2 _ hmem _ List.mem_cons_self rfl
    obtain ⟨order, first, horder⟩ := ih (done ++ [(id, [])])
      (by
        intro other hother
        rcases List.mem_append.mp hother with hother | hother
        · exact hdone other hother
        · rw [List.mem_singleton.mp hother])
      (by
        rw [hsplit, List.map_append, List.map_cons] at hnodup
        rw [List.append_assoc, List.singleton_append, hsplit, List.map_append, List.map_cons]
        exact hnodup)
    rw [List.append_assoc, List.singleton_append, hsplit] at horder
    refine ⟨List.replicate steps.length id ++ order,
      steps.map (fun step => (id, step)) ++ first, ?_⟩
    rw [hsplit, interleave_drain order hid, horder, List.append_assoc]

theorem mem_eventsOf {config : StoreConfig} {tasks : Dict DeviceTask} {order : List String}
    {id : String} {attempt : Attempt} :
    (id, attempt) ∈ eventsOf config tasks order ↔
      ∃ task, (id, task) ∈ tasks.entries ∧ attempt ∈ task.attempts config := by
  rw [eventsOf, (interleave_perm order _).mem_iff]
  simp [allAttempts, List.mem_flatMap]

end Orders

section Contents

def Attempt.leftAt (path : List Char) (attempt : Attempt) : Option String :=
  match attempt.left with
  | some (path', text) => if path' = path then some text else none
  | none => none

def lastLeft (path : List Char) : List (String × Attempt) → Option String
  | [] => none
  | event :: events => (lastLeft path events).or (event.2.leftAt path)

theorem writeFile_eq (files : Files) (event : String × Attempt) (path : List Char) :
    writeFile files event path = (event.2.leftAt path).or (files path) := by
  unfold writeFile Attempt.leftAt
  cases hleft : event.2.left with
  | none => rfl
  | some entry =>
    obtain ⟨path', text⟩ := entry
    dsimp only
    by_cases hpath : path' = path
    · subst hpath
      rw [Function.update_self, if_pos rfl, Option.some_or]
    · rw [Function.update_of_ne (Ne.symm hpath), if_neg hpath, Option.none_or]

theorem writeFiles_eq (files : Files) (events : List (String × Attempt)) (path : List Char) :
    writeFiles files events path = (lastLeft path events).or (files path) := by
  induction events generalizing files with
  | nil => rfl
  | cons event events ih =>
    rw [writeFiles, List.foldl_cons, ← writeFiles, ih, writeFile_eq, lastLeft, Option.or_assoc]

theorem lastLeft_append (path : List Char) (before after : List (String × Attempt)) :
    lastLeft path (before ++ after) = (lastLeft path after).or (lastLeft path before) := by
  induction before with
  | nil => rw [List.nil_append, lastLeft, Option.or_none]
  | cons event before ih => rw [List.cons_append, lastLeft, lastLeft, ih, Option.or_assoc]

def Written (events : List (String × Attempt)) (path : List Char) : Prop :=
  ∃ id content item, (id, Attempt.wrote path content item) ∈ events

theorem mem_writtenPaths {paths : List (List Char)} :
    path ∈ writtenPaths paths events ↔ path ∈ paths ∨ Written events path := by
  induction events generalizing paths with
  | nil => simp [writtenPaths, Written]
  | cons event events ih =>
    obtain ⟨id, attempt⟩ := event
    have hlater : Written ((id, attempt) :: events) path ↔
        (∃ content item, attempt = .wrote path content item) ∨ Written events path := by
      constructor
      · rintro ⟨id', content, item, h⟩
        rcases List.mem_cons.mp h with h | h
        · cases h
          exact .inl ⟨content, item, rfl⟩
        · exact .inr ⟨id', content, item, h⟩
      · rintro (⟨content, item, rfl⟩ | ⟨id', content, item, h⟩)
        · exact ⟨id, content, item, List.mem_cons_self⟩
        · exact ⟨id', content, item, List.mem_cons_of_mem _ h⟩
    rw [hlater]
    cases attempt with
    | wrote path' content item =>
      rw [writtenPaths, ih, ← or_assoc]
      apply or_congr_left
      split
      · next hmem =>
        constructor
        · exact .inl
        · rintro (h | ⟨_, _, h⟩)
          · exact h
          · cases h
            exact hmem
      · rw [List.mem_append, List.mem_singleton]
        apply or_congr_right
        constructor
        · rintro rfl
          exact ⟨content, item, rfl⟩
        · rintro ⟨_, _, h⟩
          cases h
          rfl
    | broke path' left e =>
      rw [writtenPaths, ih]
      · simp
      · simp
    | failed e =>
      rw [writtenPaths, ih]
      · simp
      · simp

end Contents

section Parts

variable {content : String} {parts : List (String × Part)}

/-- From here on, a device that opens a file fills it, and its last text there is the given one. -/
def Settled (path : List Char) (content : String) : List (String × Part) → Prop
  | [] => True
  | (id, .opens path') :: parts =>
    (path' = path → ∃ text, (id, .puts path text) ∈ parts) ∧ Settled path content parts
  | (id, .puts path' text) :: parts =>
    (path' = path → text = content ∨ (id, .opens path) ∈ parts) ∧ Settled path content parts

theorem Settled.tail {part : String × Part} (h : Settled path content (part :: parts)) :
    Settled path content parts := by
  obtain ⟨id, opens | puts⟩ := part
  · exact h.2
  · exact h.2

theorem Settled.cons_of_subset {part : String × Part} {parts' : List (String × Part)}
    (h : Settled path content (part :: parts)) (hsubset : parts ⊆ parts')
    (h' : Settled path content parts') : Settled path content (part :: parts') := by
  obtain ⟨id, opens | puts⟩ := part
  · refine ⟨fun hpath => ?_, h'⟩
    obtain ⟨text, hmem⟩ := h.1 hpath
    exact ⟨text, hsubset hmem⟩
  · exact ⟨fun hpath => (h.1 hpath).imp_right fun hmem => hsubset hmem, h'⟩

theorem Settled.append {parts' : List (String × Part)} (h : Settled path content parts)
    (h' : Settled path content parts') : Settled path content (parts ++ parts') := by
  induction parts with
  | nil => exact h'
  | cons part parts ih => exact h.cons_of_subset (List.subset_append_left _ _) (ih h.tail)

theorem settled_interleave (order : List String) {tasks : List (String × List Part)}
    (h : ∀ task ∈ tasks, Settled path content (task.2.map fun part => (task.1, part))) :
    Settled path content (interleave order tasks) := by
  induction order generalizing tasks with
  | nil =>
    unfold interleave
    induction tasks with
    | nil => exact trivial
    | cons task tasks ih =>
      rw [List.flatMap_cons]
      exact (h task List.mem_cons_self).append
        (ih fun task htask => h task (List.mem_cons_of_mem _ htask))
  | cons id order ih =>
    unfold interleave
    split
    · exact ih h
    · next part rest htake =>
      obtain ⟨before, later, after, rfl, rfl⟩ := takeNext_eq_some htake
      have hhere := h (id, part :: later) (List.mem_append_right _ List.mem_cons_self)
      apply Settled.cons_of_subset hhere
      · intro event hevent
        apply (interleave_perm order _).mem_iff.mpr
        exact List.mem_flatMap.mpr ⟨(id, later), by simp, hevent⟩
      · apply ih
        intro task htask
        rw [List.mem_append, List.mem_cons] at htask
        rcases htask with htask | rfl | htask
        · exact h task (List.mem_append_left _ htask)
        · exact hhere.tail
        · exact h task (List.mem_append_right _ (List.mem_cons_of_mem _ htask))

/-- A settled file is left with the content: once nobody will open it, all that is put there is
the content, on an empty file or on itself. -/
theorem applyParts_of_settled (h : Settled path content parts)
    (hheld : (∃ id, (id, .opens path) ∈ parts) ∨ files path = some content ∨
      files path = some "" ∧ ∃ id text, (id, .puts path text) ∈ parts) :
    applyParts files parts path = some content := by
  induction parts generalizing files with
  | nil => simpa [applyParts] using hheld
  | cons part parts ih =>
    rw [applyParts, List.foldl_cons, ← applyParts]
    apply ih h.tail
    by_cases hopens : ∃ id, (id, .opens path) ∈ parts
    · exact .inl hopens
    · obtain ⟨id, path' | ⟨path', text⟩⟩ := part
      · by_cases hpath : path' = path
        · obtain ⟨text, hputs⟩ := h.1 hpath
          subst hpath
          exact .inr (.inr ⟨Function.update_self .., id, text, hputs⟩)
        · simpa [Part.path, Function.update_of_ne (Ne.symm hpath), Ne.symm hpath] using hheld
      · by_cases hpath : path' = path
        · subst hpath
          have htext : text = content := (h.1 rfl).resolve_right fun hmem => hopens ⟨id, hmem⟩
          have hempty : files path' = some content ∨ files path' = some "" := by
            rcases hheld with ⟨id', hmem⟩ | hheld | hheld
            · rcases List.mem_cons.mp hmem with hmem | hmem
              · cases hmem
              · exact absurd ⟨id', hmem⟩ hopens
            · exact .inl hheld
            · exact .inr hheld.1
          refine .inr (.inl ?_)
          rcases hempty with hempty | hempty
          · simp [Part.path, Part.apply, htext, hempty]
          · simp [Part.path, Part.apply, htext, hempty]
        · simpa [Part.path, Function.update_of_ne (Ne.symm hpath), Ne.symm hpath] using hheld

variable {attempts : List Attempt}

theorem opens_of_lastLeft (id : String)
    (h : lastLeft path (attempts.map fun attempt => (id, attempt)) ≠ none) :
    (id, .opens path) ∈ (attempts.flatMap Attempt.parts).map fun part => (id, part) := by
  induction attempts with
  | nil => exact absurd rfl h
  | cons attempt attempts ih =>
    rw [List.flatMap_cons, List.map_append, List.mem_append]
    rw [List.map_cons, lastLeft] at h
    cases hlater : lastLeft path (attempts.map fun attempt => (id, attempt)) with
    | some text => exact .inr (ih (by rw [hlater]; exact nofun))
    | none =>
      rw [hlater, Option.none_or] at h
      unfold Attempt.leftAt at h
      unfold Attempt.parts
      cases hleft : attempt.left with
      | none =>
        rw [hleft] at h
        exact absurd rfl h
      | some entry =>
        rw [hleft] at h
        dsimp only at h
        split at h
        · next hpath => simp [hpath]
        · exact absurd rfl h

theorem settled_parts (id : String)
    (h : ∀ text, lastLeft path (attempts.map fun attempt => (id, attempt)) = some text →
      text = content) :
    Settled path content ((attempts.flatMap Attempt.parts).map fun part => (id, part)) := by
  induction attempts with
  | nil => exact trivial
  | cons attempt attempts ih =>
    rw [List.map_cons, lastLeft] at h
    have hlater := ih fun text htext => h text (by rw [htext, Option.some_or])
    rw [List.flatMap_cons, List.map_append]
    unfold Attempt.parts
    cases hleft : attempt.left with
    | none => exact hlater
    | some entry =>
      obtain ⟨path', text⟩ := entry
      refine ⟨fun hpath => ⟨text, ?_⟩, fun hpath => ?_, hlater⟩
      · rw [hpath]
        exact List.mem_cons_self
      · cases hlast : lastLeft path (attempts.map fun attempt => (id, attempt)) with
        | some later => exact .inr (opens_of_lastLeft id (by rw [hlast]; exact nofun))
        | none =>
          refine .inl (h text ?_)
          rw [hlast, Option.none_or, Attempt.leftAt, hleft]
          exact if_pos hpath

/-- A device alone leaves its last text. -/
theorem applyParts_alone (files : Files) (id : String) (attempts : List Attempt) :
    applyParts files ((attempts.flatMap Attempt.parts).map fun part => (id, part)) path =
      (lastLeft path (attempts.map fun attempt => (id, attempt))).or (files path) := by
  induction attempts generalizing files with
  | nil => rfl
  | cons attempt attempts ih =>
    rw [List.flatMap_cons, List.map_append, applyParts, List.foldl_append, ← applyParts,
      ← applyParts, ih, List.map_cons, lastLeft, Option.or_assoc]
    congr 1
    unfold Attempt.parts Attempt.leftAt
    cases hleft : attempt.left with
    | none => rfl
    | some entry =>
      obtain ⟨path', text⟩ := entry
      by_cases hpath : path' = path
      · simp [applyParts, Part.path, Part.apply, hpath]
      · simp [applyParts, Part.path, hpath, Function.update_of_ne (Ne.symm hpath)]

end Parts

end Manus.StoreArtifact
