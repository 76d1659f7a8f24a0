import Manus.Schedules.Entries

/-! # One live trigger per schedule

An enabled schedule has no live entry but the one its row names. Creating,
deleting, disabling and firing keep that whatever the engine answers. An update
keeps it when it starts from there and its removal of the old entry does not
fail.
-/

namespace Manus.Schedules

/-- An update that asks for an enabled schedule finds no live entry of the schedule but the one the
row names, and when its new entry is registered the removal of the old one does not fail. -/
def settled (w : World) : Op → Bool
  | .update id data now allowed createAnswer deleteAnswer =>
    (w.rows id).all fun row => data.refused row now allowed || !(data.apply row).enabled ||
      ((w.entries.all fun e => e.scheduleId != id || row.names e.id) &&
        (createAnswer != .done || deleteAnswer != .failed || !row.hasEntry))
  | _ => true

def settledRun : World → List Op → Bool
  | _, [] => true
  | w, op :: ops => settled w op && settledRun (endOf w (op.points w)) ops

structure Stores (w : World) : Prop where
  nodup : (w.entries.map Entry.id).Nodup
  fresh : ∀ e ∈ w.entries, e.id < w.nextEntryId ∧ e.scheduleId < w.nextId
  single : ∀ id row, w.rows id = some row →
    row.hatchetCronId = none ∨ row.hatchetScheduledId = none
  known : ∀ id row, w.rows id = some row → id < w.nextId

def Names (w : World) (id : ℕ) (row : WorkflowSchedule) : Prop :=
  ∀ e ∈ w.entries, e.scheduleId = id → row.names e.id = true

def NamedAt (w : World) (id : ℕ) : Prop :=
  ∀ row, w.rows id = some row → row.enabled = true → Names w id row

/-- At most one live entry passes the guard; two while the entry is being replaced. -/
def Safe (w : World) : Prop :=
  ∀ id, (w.live id).length ≤ if w.replacing = some id then 2 else 1

structure Others (w : World) (id : ℕ) : Prop where
  stores : Stores w
  named : ∀ id', id' ≠ id → NamedAt w id'

variable {w : World} {id : ℕ} {row : WorkflowSchedule}

theorem names_unique (h : row.hatchetCronId = none ∨ row.hatchetScheduledId = none) {a b : ℕ}
    (ha : row.names a = true) (hb : row.names b = true) : a = b := by
  simp only [WorkflowSchedule.names, Bool.or_eq_true, beq_iff_eq] at ha hb
  rcases h with h | h <;> simp_all

def own (w : World) (id : ℕ) : List Entry := w.entries.filter fun e => e.scheduleId == id

theorem live_length_le_own : (w.live id).length ≤ (own w id).length := by
  have hfilter : w.live id = (own w id).filter fun e => w.guard e := by
    rw [own, List.filter_filter]
    exact List.filter_congr fun e _ => Bool.and_comm _ _
  rw [hfilter]
  exact List.length_filter_le _ _

theorem live_eq_nil (h : ∀ row, w.rows id = some row → row.enabled = false) : w.live id = [] := by
  refine List.filter_eq_nil_iff.mpr fun e _ he => ?_
  simp only [Bool.and_eq_true, beq_iff_eq, World.guard, Option.any_eq_true] at he
  obtain ⟨rfl, row, hrow, henabled, -⟩ := he
  rw [h row hrow] at henabled
  cases henabled

theorem Stores.own_length_le (h : Stores w)
    (hs : row.hatchetCronId = none ∨ row.hatchetScheduledId = none) (hn : Names w id row) :
    (own w id).length ≤ 1 := by
  have hids : ((own w id).map Entry.id).Nodup := h.nodup.sublist (List.filter_sublist.map _)
  have hmem : ∀ e ∈ own w id, row.names e.id = true := by
    intro e he
    obtain ⟨he, hid⟩ := List.mem_filter.mp he
    exact hn e he (by simpa using hid)
  match howned : own w id with
  | [] => simp
  | [_] => simp
  | a :: b :: _ =>
    rw [howned] at hids hmem
    have hab := names_unique hs (hmem a (by simp)) (hmem b (by simp))
    simp [hab] at hids

theorem Stores.live_length_le (h : Stores w) (hn : NamedAt w id) : (w.live id).length ≤ 1 := by
  cases hrow : w.rows id with
  | none =>
    rw [live_eq_nil fun row hr => by rw [hrow] at hr; cases hr]
    exact Nat.zero_le _
  | some row =>
    cases henabled : row.enabled with
    | false =>
      rw [live_eq_nil fun row' hr => by rw [hrow] at hr; cases hr; exact henabled]
      exact Nat.zero_le _
    | true =>
      exact Nat.le_trans live_length_le_own
        (h.own_length_le (h.single id row hrow) (hn row hrow henabled))

theorem Others.safe (h : Others w id)
    (hid : (w.live id).length ≤ if w.replacing = some id then 2 else 1) : Safe w := by
  intro id'
  by_cases hne : id' = id
  · exact hne ▸ hid
  · have := h.stores.live_length_le (h.named id' hne)
    split <;> omega

section Steps

theorem Others.setRow (h : Others w id) {row : Option WorkflowSchedule} (hid : id < w.nextId)
    (hs : ∀ r ∈ row, r.hatchetCronId = none ∨ r.hatchetScheduledId = none) :
    Others (w.setRow id row) id where
  stores := {
    nodup := h.stores.nodup
    fresh := h.stores.fresh
    single := by
      intro id' r hr
      by_cases hne : id' = id
      · subst hne
        rw [World.setRow_self] at hr
        exact hs r hr
      · rw [World.setRow_of_ne w hne] at hr
        exact h.stores.single id' r hr
    known := by
      intro id' r hr
      by_cases hne : id' = id
      · subst hne
        exact hid
      · rw [World.setRow_of_ne w hne] at hr
        exact h.stores.known id' r hr }
  named := by
    intro id' hne r hr
    rw [World.setRow_of_ne w hne] at hr
    exact h.named id' hne r hr

theorem Others.createEntry (h : Others w id) (hid : id < w.nextId) (row : WorkflowSchedule) :
    Others (w.createEntry id row) id where
  stores := {
    nodup := by
      refine List.nodup_cons.mpr ⟨fun hmem => ?_, h.stores.nodup⟩
      obtain ⟨e, he, heq⟩ := List.mem_map.mp hmem
      have := (h.stores.fresh e he).1
      dsimp only at heq
      omega
    fresh := by
      intro e he
      rcases List.mem_cons.mp he with rfl | he
      · exact ⟨Nat.lt_succ_self _, hid⟩
      · exact ⟨Nat.lt_succ_of_lt (h.stores.fresh e he).1, (h.stores.fresh e he).2⟩
    single := h.stores.single
    known := h.stores.known }
  named := by
    intro id' hne r hr henabled e he hs
    rcases List.mem_cons.mp he with rfl | he
    · exact absurd hs.symm hne
    · exact h.named id' hne r hr henabled e he hs

theorem Others.keepEntries (h : Others w id) (p : Entry → Bool) :
    Others { w with entries := w.entries.filter p } id where
  stores := {
    nodup := h.stores.nodup.sublist (List.filter_sublist.map _)
    fresh := fun e he => h.stores.fresh e (List.mem_of_mem_filter he)
    single := h.stores.single
    known := h.stores.known }
  named := fun id' hne r hr henabled e he =>
    h.named id' hne r hr henabled e (List.mem_of_mem_filter he)

theorem Others.deleteEntryIds (h : Others w id) (row : WorkflowSchedule) (answer : Answer) :
    Others (w.deleteEntryIds row answer) id := by
  unfold World.deleteEntryIds
  split
  · exact h
  · exact h.keepEntries _

theorem NamedAt.keepEntries (h : NamedAt w id) (p : Entry → Bool) :
    NamedAt { w with entries := w.entries.filter p } id :=
  fun r hr henabled e he => h r hr henabled e (List.mem_of_mem_filter he)

theorem NamedAt.deleteEntryIds (h : NamedAt w id) (row : WorkflowSchedule) (answer : Answer) :
    NamedAt (w.deleteEntryIds row answer) id := by
  unfold World.deleteEntryIds
  split
  · exact h
  · exact h.keepEntries _

theorem namedAt_setRow {row : Option WorkflowSchedule} (h : ∀ r ∈ row, r.enabled = false) :
    NamedAt (w.setRow id row) id := by
  intro r hr henabled
  rw [World.setRow_self] at hr
  rw [h r hr] at henabled
  cases henabled

structure Inv (w : World) : Prop where
  stores : Stores w
  named : ∀ id, NamedAt w id
  idle : w.replacing = none

theorem Inv.others (h : Inv w) (id : ℕ) : Others w id := ⟨h.stores, fun id' _ => h.named id'⟩

theorem Others.inv (h : Others w id) (hn : NamedAt w id) (hr : w.replacing = none) : Inv w where
  stores := h.stores
  named id' := by
    by_cases hne : id' = id
    · exact hne ▸ hn
    · exact h.named id' hne
  idle := hr

theorem Inv.safe (h : Inv w) : Safe w := by
  intro id
  rw [h.idle]
  exact h.stores.live_length_le (h.named id)

@[simp] theorem deleteEntryIds_replacing (answer : Answer) :
    (w.deleteEntryIds row answer).replacing = w.replacing := by
  unfold World.deleteEntryIds
  split <;> rfl

@[simp] theorem deleteEntryIds_rows (answer : Answer) :
    (w.deleteEntryIds row answer).rows = w.rows := by
  unfold World.deleteEntryIds
  split <;> rfl

@[simp] theorem deleteEntryIds_nextId (answer : Answer) :
    (w.deleteEntryIds row answer).nextId = w.nextId := by
  unfold World.deleteEntryIds
  split <;> rfl

theorem Inv.keepEntries (h : Inv w) (p : Entry → Bool) :
    Inv { w with entries := w.entries.filter p } :=
  ((h.others 0).keepEntries p).inv ((h.named 0).keepEntries p) h.idle

theorem Inv.consume (h : Inv w) (e : Entry) : Inv (w.consume e) := by
  unfold World.consume
  split
  · exact h
  · exact h.keepEntries _

theorem Inv.deleteEntryIds (h : Inv w) (row : WorkflowSchedule) (answer : Answer) :
    Inv (w.deleteEntryIds row answer) :=
  ((h.others 0).deleteEntryIds row answer).inv ((h.named 0).deleteEntryIds row answer)
    ((deleteEntryIds_replacing answer).trans h.idle)

theorem Inv.setRow (h : Inv w) {row : Option WorkflowSchedule} (hid : id < w.nextId)
    (hs : ∀ r ∈ row, r.enabled = false ∧ (r.hatchetCronId = none ∨ r.hatchetScheduledId = none)) :
    Inv (w.setRow id row) :=
  ((h.others id).setRow hid fun r hr => (hs r hr).2).inv (namedAt_setRow fun r hr => (hs r hr).1)
    h.idle

theorem Inv.disable (h : Inv w) (hid : id < w.nextId) (row : WorkflowSchedule) :
    Inv (w.setRow id (some row.disable)) :=
  h.setRow hid fun r hr => by cases hr; exact ⟨rfl, .inl rfl⟩

end Steps

section Operations

/-- An operation whose stores are all safe and which leaves both stores in order. -/
def Keeps (w : World) (points : List World) : Prop :=
  (∀ w' ∈ points, Safe w') ∧ Inv (endOf w points)

theorem endOf_cons (w w' : World) (points : List World) :
    endOf w (w' :: points) = endOf w' points := by
  cases points with
  | nil => rfl
  | cons p ps => simp [endOf, List.getLast?_cons]

theorem Keeps.nil (h : Inv w) : Keeps w [] := ⟨nofun, h⟩

theorem Keeps.cons {w' : World} {points : List World} (hs : Safe w') (h : Keeps w' points) :
    Keeps w (w' :: points) := by
  refine ⟨fun v hv => ?_, ?_⟩
  · rcases List.mem_cons.mp hv with rfl | hv
    · exact hs
    · exact h.1 v hv
  · rw [endOf_cons]
    exact h.2

theorem Keeps.step {w' : World} {points : List World} (hw : Inv w') (h : Keeps w' points) :
    Keeps w (w' :: points) := h.cons hw.safe

theorem keeps_deleteSchedule (h : Inv w) (allowed : Bool) (answer : Answer) :
    Keeps w (deleteSchedule w id allowed answer) := by
  unfold deleteSchedule
  cases hrow : w.rows id with
  | none => exact .nil h
  | some row =>
    dsimp only
    have hdeleted := h.deleteEntryIds row answer
    split
    · exact .nil h
    · split
      · exact .step hdeleted (.nil hdeleted)
      · have hknown : id < (w.deleteEntryIds row answer).nextId := by
          rw [deleteEntryIds_nextId]
          exact h.stores.known id row hrow
        have hgone := hdeleted.setRow hknown (nofun : ∀ r ∈ none, _)
        exact .step hdeleted (.step hgone (.nil hgone))

theorem keeps_disableAll (h : Inv w) (answers : ℕ → Answer) (ids : List ℕ) :
    Keeps w (disableAll answers ids w) := by
  induction ids generalizing w with
  | nil => exact .nil h
  | cons id ids ih =>
    unfold disableAll
    cases hrow : w.rows id with
    | none => exact ih h
    | some row =>
      dsimp only
      have hdeleted := h.deleteEntryIds row (answers id)
      split
      · exact .step hdeleted (.nil hdeleted)
      · have hknown : id < (w.deleteEntryIds row (answers id)).nextId := by
          rw [deleteEntryIds_nextId]
          exact h.stores.known id row hrow
        have hdisabled := hdeleted.disable hknown row
        exact .step hdeleted (.step hdisabled (ih hdisabled))

theorem keeps_dispatch (h : Inv w) (entryId : ℕ) (authorised : Bool) :
    Keeps w (dispatch w entryId authorised) := by
  unfold dispatch
  split
  · exact .nil h
  · rename_i e _
    dsimp only
    have hinv := h.consume e
    split
    · exact .step hinv (.nil hinv)
    · rename_i row hrow
      split
      · exact .step hinv (.nil hinv)
      · split
        · have hdisabled := hinv.disable (hinv.stores.known e.scheduleId row hrow) row
          exact .step hinv (.step hdisabled (.nil hdisabled))
        · exact .step hinv (.nil hinv)

theorem registerHatchetEntry_cases (w : World) (id : ℕ) (row : WorkflowSchedule)
    (answer : Answer) :
    (row.enabled = false ∧ registerHatchetEntry w id row answer = ([], true)) ∨
    registerHatchetEntry w id row answer = ([], false) ∨
    registerHatchetEntry w id row answer = ([w.createEntry id row], false) ∨
    (answer = .done ∧ registerHatchetEntry w id row answer = ([w.createEntry id row,
      (w.createEntry id row).setRow id (some (setHatchetIds row w.nextEntryId))], true)) := by
  unfold registerHatchetEntry
  split
  · rename_i h
    exact .inl ⟨by simpa using h, rfl⟩
  · split
    · exact .inr (.inl rfl)
    · cases answer with
      | failed => exact .inr (.inl rfl)
      | lost => exact .inr (.inr (.inl rfl))
      | done => exact .inr (.inr (.inr ⟨rfl, rfl⟩))

theorem setHatchetIds_names (row : WorkflowSchedule) (entryId : ℕ) :
    (setHatchetIds row entryId).names entryId = true := by
  unfold setHatchetIds
  split <;> simp [WorkflowSchedule.names]

theorem setHatchetIds_single (row : WorkflowSchedule) (entryId : ℕ) :
    (setHatchetIds row entryId).hatchetCronId = none ∨
      (setHatchetIds row entryId).hatchetScheduledId = none := by
  unfold setHatchetIds
  split
  · exact .inr rfl
  · exact .inl rfl

theorem Inv.addRow (h : Inv w) (hd : row.enabled = false)
    (hs : row.hatchetCronId = none ∨ row.hatchetScheduledId = none) :
    Inv { w.setRow w.nextId (some row) with nextId := w.nextId + 1 } := by
  have hgrown : Others { w with nextId := w.nextId + 1 } w.nextId := {
    stores := {
      nodup := h.stores.nodup
      fresh := fun e he =>
        ⟨(h.stores.fresh e he).1, Nat.lt_succ_of_lt (h.stores.fresh e he).2⟩
      single := h.stores.single
      known := fun id r hr => Nat.lt_succ_of_lt (h.stores.known id r hr) }
    named := fun id' _ => h.named id' }
  have hset : Others (World.setRow { w with nextId := w.nextId + 1 } w.nextId (some row))
      w.nextId := by
    refine hgrown.setRow (Nat.lt_succ_self _) ?_
    rintro r ⟨⟩
    exact hs
  exact hset.inv (namedAt_setRow fun r hr => by cases hr; exact hd) h.idle

theorem namedAt_registered {new : WorkflowSchedule} (hold : ∀ e ∈ w.entries, e.scheduleId ≠ id) :
    NamedAt ((w.createEntry id new).setRow id (some (setHatchetIds new w.nextEntryId))) id := by
  intro r hr _ e he hid
  rw [World.setRow_self] at hr
  cases hr
  rcases List.mem_cons.mp he with rfl | he
  · exact setHatchetIds_names new _
  · exact absurd hid (hold e he)

theorem keeps_createSchedule (h : Inv w) (data : ScheduleCreate) (userId now : ℕ) (allowed : Bool)
    (answer : Answer) : Keeps w (createSchedule w data userId now allowed answer) := by
  unfold createSchedule
  dsimp only
  split
  · exact .nil h
  · set stored : WorkflowSchedule := {
      workflowId := data.workflowId, createdById := some userId, scheduleType := data.scheduleType
      cronExpression := data.cronExpression, runAt := data.runAt } with hstored
    set new := { stored with enabled := data.enabled } with hnew
    set w₁ := { w.setRow w.nextId (some stored) with nextId := w.nextId + 1 } with hw₁
    have hadded : Inv w₁ := h.addRow rfl (.inl rfl)
    have hknown : w.nextId < w₁.nextId := Nat.lt_succ_self _
    have hold : ∀ e ∈ w₁.entries, e.scheduleId ≠ w.nextId :=
      fun e he => Nat.ne_of_lt (h.stores.fresh e he).2
    -- the entry exists, but the row is still stored as disabled
    have hcreated : Inv (w₁.createEntry w.nextId new) := by
      refine ((hadded.others w.nextId).createEntry hknown new).inv ?_ hadded.idle
      intro r hr henabled
      have hr : w₁.rows w.nextId = some r := hr
      rw [hw₁] at hr
      cases (World.setRow_self w w.nextId (some stored)).symm.trans hr
      cases henabled
    rcases registerHatchetEntry_cases w₁ w.nextId new answer with
      ⟨-, hr⟩ | hr | hr | ⟨-, hr⟩
    · rw [hr]
      exact .step hadded (.nil hadded)
    · rw [hr]
      have hgone := hadded.setRow hknown (nofun : ∀ r ∈ none, _)
      exact .step hadded (.step hgone (.nil hgone))
    · rw [hr]
      have hgone := hcreated.setRow hknown (nofun : ∀ r ∈ none, _)
      exact .step hadded (.step hcreated (.step hgone (.nil hgone)))
    · rw [hr]
      have hfinal : Inv ((w₁.createEntry w.nextId new).setRow w.nextId
          (some (setHatchetIds new w₁.nextEntryId))) := by
        refine ((hcreated.others w.nextId).setRow hknown ?_).inv (namedAt_registered hold)
          hcreated.idle
        rintro r ⟨⟩
        exact setHatchetIds_single new _
      exact .step hadded (.step hcreated (.step hfinal (.nil hfinal)))

theorem Others.safe_replacing (h : Others w id) (hr : w.replacing = some id)
    (htwo : (own w id).length ≤ 2) : Safe w := by
  refine h.safe ?_
  rw [if_pos hr]
  exact Nat.le_trans live_length_le_own htwo

theorem Others.setReplacing (h : Others w id) (replacing : Option ℕ) :
    Others { w with replacing } id :=
  ⟨⟨h.stores.nodup, h.stores.fresh, h.stores.single, h.stores.known⟩, h.named⟩

theorem Others.keeps_disable (h : Others w id) (hknown : id < w.nextId) (hidle : w.replacing = none)
    (new old : WorkflowSchedule) (answer : Answer) {w₀ : World} :
    Keeps w₀ [w.setRow id (some new.disable),
      (w.setRow id (some new.disable)).deleteEntryIds old answer] := by
  have hdisabled : Inv (w.setRow id (some new.disable)) := by
    refine (h.setRow hknown ?_).inv (namedAt_setRow ?_) hidle
    · rintro r ⟨⟩
      exact .inl rfl
    · rintro r ⟨⟩
      rfl
  have hremoved := hdisabled.deleteEntryIds old answer
  exact .step hdisabled (.step hremoved (.nil hremoved))

/-- The removal of the old entries leaves the new one, which the row names. -/
theorem namedAt_replaced {old new : WorkflowSchedule} {answer : Answer} (hn : Names w id old)
    (ha : answer ≠ .failed ∨ old.hasEntry = false) :
    NamedAt (((w.createEntry id new).setRow id
      (some (setHatchetIds new w.nextEntryId))).deleteEntryIds old answer) id := by
  -- no entry of the schedule but the new one is left
  have hleft : ∀ e ∈ (((w.createEntry id new).setRow id
      (some (setHatchetIds new w.nextEntryId))).deleteEntryIds old answer).entries,
      e.scheduleId = id → e.id = w.nextEntryId := by
    intro e he hid
    have hold : old.names e.id = true → answer = .failed := by
      intro hname
      by_contra hne
      rw [World.deleteEntryIds, if_neg hne] at he
      simpa [hname] using (List.mem_filter.mp he).2
    have hmem : e ∈ (w.createEntry id new).entries := by
      unfold World.deleteEntryIds at he
      split at he
      · exact he
      · exact (List.mem_filter.mp he).1
    rcases List.mem_cons.mp hmem with rfl | hmem
    · rfl
    · have hname := hn e hmem hid
      rcases ha with ha | ha
      · exact absurd (hold hname) ha
      · simp only [WorkflowSchedule.hasEntry, Bool.or_eq_false_iff, Option.isSome_eq_false_iff,
          Option.isNone_iff_eq_none] at ha
        simp [WorkflowSchedule.names, ha] at hname
  intro r hr _ e he hid
  rw [deleteEntryIds_rows, World.setRow_self] at hr
  cases hr
  rw [hleft e he hid]
  exact setHatchetIds_names new _

theorem settled_update {data : ScheduleUpdate} {now : ℕ} {allowed : Bool}
    {createAnswer deleteAnswer : Answer} (hrow : w.rows id = some row)
    (hr : data.refused row now allowed = false) (he : (data.apply row).enabled = true)
    (h : settled w (.update id data now allowed createAnswer deleteAnswer) = true) :
    Names w id row ∧
      (createAnswer = .done → deleteAnswer ≠ .failed ∨ row.hasEntry = false) := by
  simp only [settled, hrow, Option.all_some, hr, he, Bool.not_true, Bool.false_or,
    Bool.and_eq_true, List.all_eq_true, Bool.or_eq_true, bne_iff_ne, Bool.not_eq_true'] at h
  refine ⟨fun e he hid => (h.1 e he).resolve_left fun hne => hne hid, fun hdone => ?_⟩
  rcases h.2 with (hne | hne) | hne
  · exact absurd hdone hne
  · exact .inl hne
  · exact .inr hne

theorem keeps_replaceEntry_disabled (h : Inv w) {old new : WorkflowSchedule}
    (hknown : id < w.nextId) (hs : new.hatchetCronId = none ∨ new.hatchetScheduledId = none)
    (hd : new.enabled = false) (createAnswer deleteAnswer : Answer) :
    Keeps w (replaceEntry w id old new createAnswer deleteAnswer) := by
  have hinv : Inv (w.setRow id (some new)) := h.setRow hknown fun r hr => by
    cases hr
    exact ⟨hd, hs⟩
  have hr : ∀ w', registerHatchetEntry w' id new createAnswer = ([], true) := fun w' => by
    simp [registerHatchetEntry, hd]
  have hidle : { w.setRow id (some new) with replacing := none } = w.setRow id (some new) := by
    rw [← hinv.idle]
  unfold replaceEntry
  simp only [hr, endOf, List.getLast?_nil, Option.getD_none, hidle, if_true]
  have hlast := hinv.deleteEntryIds old deleteAnswer
  exact .step hinv (.step hlast (.nil hlast))

theorem keeps_replaceEntry_enabled (h : Inv w) {old new : WorkflowSchedule}
    {createAnswer deleteAnswer : Answer} (hold : w.rows id = some old)
    (hs : new.hatchetCronId = none ∨ new.hatchetScheduledId = none) (he : new.enabled = true)
    (hnames : Names w id old)
    (hdelete : createAnswer = .done → deleteAnswer ≠ .failed ∨ old.hasEntry = false) :
    Keeps w (replaceEntry w id old new createAnswer deleteAnswer) := by
  unfold replaceEntry
  set w₁ := w.setRow id (some new) with hw₁
  have hknown : id < w₁.nextId := h.stores.known id old hold
  have hothers : Others w₁ id := (h.others id).setRow hknown fun r hr => by
    cases hr
    exact hs
  have hone : (own w₁ id).length ≤ 1 :=
    h.stores.own_length_le (h.stores.single id old hold) hnames
  have hsafe : Safe w₁ := by
    refine hothers.safe (Nat.le_trans live_length_le_own (Nat.le_trans hone ?_))
    split <;> omega
  have hcreated := (hothers.setReplacing (some id)).createEntry hknown new
  set c := World.createEntry { w₁ with replacing := some id } id new with hc
  have htwo : (own c id).length ≤ 2 := by
    simpa [own, hc, World.createEntry] using hone
  dsimp only
  rcases registerHatchetEntry_cases { w₁ with replacing := some id } id new createAnswer with
    ⟨hd, -⟩ | hr | hr | ⟨hdone, hr⟩
  · rw [he] at hd
    cases hd
  · rw [hr]
    exact .cons hsafe ((hothers.setReplacing none).keeps_disable hknown rfl new old deleteAnswer)
  · rw [hr]
    exact .cons hsafe (.cons (hcreated.safe_replacing rfl htwo)
      ((hcreated.setReplacing none).keeps_disable hknown rfl new old deleteAnswer))
  · rw [hr]
    have hregistered : Others (c.setRow id (some (setHatchetIds new w₁.nextEntryId))) id := by
      refine hcreated.setRow hknown ?_
      rintro r ⟨⟩
      exact setHatchetIds_single new _
    have hlast : Inv ({ c.setRow id (some (setHatchetIds new w₁.nextEntryId)) with
        replacing := none }.deleteEntryIds old deleteAnswer) := by
      refine ((hregistered.setReplacing none).deleteEntryIds old deleteAnswer).inv ?_
        (deleteEntryIds_replacing _)
      exact namedAt_replaced (w := { w₁ with replacing := none }) hnames (hdelete hdone)
    exact .cons hsafe (.cons (hcreated.safe_replacing rfl htwo)
      (.cons (hregistered.safe_replacing rfl htwo) (.step hlast (.nil hlast))))

theorem keeps_updateSchedule (h : Inv w) {data : ScheduleUpdate} {now : ℕ} {allowed : Bool}
    {createAnswer deleteAnswer : Answer}
    (hsettled : settled w (.update id data now allowed createAnswer deleteAnswer) = true) :
    Keeps w (updateSchedule w id data now allowed createAnswer deleteAnswer) := by
  unfold updateSchedule
  cases hrow : w.rows id with
  | none => exact .nil h
  | some row =>
    dsimp only
    cases hrefused : data.refused row now allowed with
    | true => exact .nil h
    | false =>
      rw [if_neg (by simp)]
      cases henabled : (data.apply row).enabled with
      | false =>
        exact keeps_replaceEntry_disabled h (h.stores.known id row hrow) (.inl rfl) henabled _ _
      | true =>
        obtain ⟨hnames, hdelete⟩ := settled_update hrow hrefused henabled hsettled
        exact keeps_replaceEntry_enabled h hrow (.inl rfl) henabled hnames hdelete

theorem keeps_op (h : Inv w) (op : Op) (hsettled : settled w op = true) :
    Keeps w (op.points w) := by
  cases op with
  | create data userId now allowed answer =>
    exact keeps_createSchedule h data userId now allowed answer
  | update id data now allowed createAnswer deleteAnswer => exact keeps_updateSchedule h hsettled
  | disableForUser userId answers => exact keeps_disableAll h answers _
  | delete id allowed answer => exact keeps_deleteSchedule h allowed answer
  | fire entryId authorised => exact keeps_dispatch h entryId authorised

end Operations

theorem inv_empty : Inv {} where
  stores := ⟨List.nodup_nil, nofun, nofun, nofun⟩
  named _ _ := nofun
  idle := rfl

theorem safe_points (h : Inv w) {ops : List Op} (hs : settledRun w ops = true) :
    ∀ w' ∈ pointsOf w ops, Safe w' := by
  induction ops generalizing w with
  | nil =>
    intro w' hw'
    obtain rfl : w' = w := by simpa [pointsOf] using hw'
    exact h.safe
  | cons op ops ih =>
    simp only [settledRun, Bool.and_eq_true] at hs
    obtain ⟨hpoints, hend⟩ := keeps_op h op hs.1
    intro w' hw'
    simp only [pointsOf, List.cons_append, List.mem_cons, List.mem_append] at hw'
    rcases hw' with rfl | hw' | hw'
    · exact h.safe
    · exact hpoints w' hw'
    · exact ih hend hs.2 w' hw'

theorem inv_afterAll (h : Inv w) {ops : List Op} (hs : settledRun w ops = true) :
    Inv (afterAll w ops) := by
  induction ops generalizing w with
  | nil => exact h
  | cons op ops ih =>
    simp only [settledRun, Bool.and_eq_true] at hs
    exact ih (keeps_op h op hs.1).2 hs.2

/-- In every sequence of operations in which an update that asks for an enabled schedule finds no
live entry but the one the row names, and does not fail to remove that one when the new one is
registered: at most one live entry would pass the trigger's guard for a schedule, at the end and at
every point before, but for the two that an update has between its calls to the engine. -/
theorem one_live_trigger {ops : List Op} (hs : settledRun {} ops = true) (id : ℕ) :
    ((afterAll {} ops).live id).length ≤ 1 ∧
      ∀ w ∈ pointsOf {} ops, (w.live id).length ≤ if w.replacing = some id then 2 else 1 := by
  have hend := inv_afterAll inv_empty hs
  exact ⟨hend.stores.live_length_le (hend.named id), fun w hw => safe_points inv_empty hs w hw id⟩

section Examples

def hourly : ScheduleCreate where
  workflowId := 1
  scheduleType := .cron
  cronExpression := some "0 * * * *"

def createHourly : Op := .create hourly 7 0 true .done

def edited : List Op := [createHourly, .update 0 {} 0 true .done .done, .fire 1 false,
  .disableForUser 7 fun _ => .done]

theorem edited_one :
    ((afterAll {} [createHourly, .update 0 {} 0 true .done .done]).live 0).length = 1 ∧
      ((afterAll {} edited).live 0).length ≤ 1 :=
  ⟨by decide +kernel, (one_live_trigger (by decide +kernel) 0).1⟩

/-- The engine does not remove the old entry of an edited schedule; or the trigger disables a
schedule without removing its entry, and the schedule is enabled again. Both leave two entries that
fire. -/
theorem two_live_triggers :
    ((afterAll {} [createHourly, .update 0 {} 0 true .done .failed]).live 0).length = 2 ∧
      ((afterAll {} [createHourly, .fire 0 false,
        .update 0 { enabled := some true } 0 true .done .done]).live 0).length = 2 := by
  decide +kernel

end Examples

end Manus.Schedules
