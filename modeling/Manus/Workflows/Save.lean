import Manus.Context.Merge

/-! # Saving a workflow

A save loads the row of the workflow, compares its time of change with the one
the editor started from, checks the new definition and commits the columns that
differ from what it has loaded. Nothing holds the row in between, so two saves
that have both loaded the same row can both succeed.
-/

namespace Manus.Workflows

/-- A row of the workflows table; the time of change is when the last transaction that changed it
began. -/
structure WorkflowRow where
  columns : Dict Json
  updatedAt : ℕ

/-- `getattr(workflow, name)`. -/
def WorkflowRow.column (row : WorkflowRow) (name : String) : Json :=
  (row.columns.get? name).getD .null

/-- The fields a request sets, and the time of change its editor started from. -/
structure WorkflowUpdate where
  fields : Dict Json
  expectedUpdatedAt : Option ℕ := none

inductive UpdateError where
  | accessDenied
  | nameTaken
  | changed
  | invalid (message : String)
  deriving DecidableEq, Repr

section Rules

/-- The checks and repairs of a definition. None of them reads the database row again. -/
structure DefinitionRules where
  normalisedNodes : Json → Except String Json
  validateNoCycle : Json → Json → Except String Unit
  validateStopHereNotInFanOut : Json → Json → Except String Unit
  validateFanOutTopology : Json → Json → Except String Unit
  validateChildRunSecretInputs : Json → Except String Unit
  validateStaticAttributes : Json → Except String Unit
  repairOrphanGroups : Json → Json → Json

def updatableFields : List String :=
  ["name", "description", "folder", "visibility", "canvas_nodes", "canvas_edges", "canvas_groups",
    "static_attributes", "is_version_controlled", "notes", "ai_released", "ai_released_by_id",
    "ai_released_at", "ai_description", "ai_result_node_id", "ai_devices_input",
    "ai_credential_inputs", "ai_allow_free_ip", "ai_release_stamp"]

def aiReleaseDefinitionFields : List String :=
  ["canvas_nodes", "canvas_edges", "canvas_groups", "static_attributes"]

def aiReleaseCleared : Dict Json :=
  Dict.ofPairs [("ai_released", .bool false), ("ai_released_by_id", .null),
    ("ai_released_at", .null), ("ai_description", .null), ("ai_result_node_id", .null),
    ("ai_devices_input", .null), ("ai_credential_inputs", .null),
    ("ai_allow_free_ip", .bool false), ("ai_release_stamp", .null)]

/-- `value or "/"`. -/
def orRoot (value : Json) : Json := if value.truthy then value else .str "/"

/-- The name, folder and visibility of a row with some fields set. -/
def identityOf (row : WorkflowRow) (fields : Dict Json) : Json × Json × Json :=
  let new name := (fields.get? name).getD (row.column name)
  (new "name", orRoot (new "folder"), new "visibility")

/-- Whether the update moves the workflow to another identity. -/
def changesIdentity (row : WorkflowRow) (fields : Dict Json) : Bool :=
  ["name", "folder", "visibility"].any (fun name => (fields.get? name).isSome) &&
    decide (identityOf row fields ≠ identityOf row ∅)

def invalidatesAiRelease (row : WorkflowRow) (fields : Dict Json) : Bool :=
  (fields.get? "visibility" == some (.str "private")) ||
    aiReleaseDefinitionFields.any fun name =>
      (fields.get? name).any fun value => !Json.pyEq value (row.column name)

def invalid {α : Type} (result : Except String α) : Except UpdateError α :=
  result.mapError .invalid

/-- `value or []`. -/
def orEmpty (value : Json) : Json := if value.truthy then value else .arr []

def withNormalisedNodes (rules : DefinitionRules) (fields : Dict Json) :
    Except UpdateError (Dict Json) :=
  match fields.get? "canvas_nodes" with
  | none | some .null => .ok fields
  | some nodes => (invalid (rules.normalisedNodes nodes)).map (fields.insert "canvas_nodes")

/-- The fields of a request; no folder means the root. -/
def WorkflowUpdate.withFolder (data : WorkflowUpdate) : Dict Json :=
  match data.fields.get? "folder" with
  | some folder => data.fields.insert "folder" (orRoot folder)
  | none => data.fields

/-- Whether the update fits the row it has loaded, given whether the name it moves to is taken. -/
def checkVersion (row : WorkflowRow) (data : WorkflowUpdate) (nameExists : Bool) :
    Except UpdateError (Dict Json) :=
  if changesIdentity row data.withFolder && nameExists then .error .nameTaken
  else if data.expectedUpdatedAt.any (· ≠ row.updatedAt) then .error .changed
  else .ok data.withFolder

/-- The checks of the new definition, and what they repair. -/
def checkDefinition (rules : DefinitionRules) (row : WorkflowRow) (fields : Dict Json) :
    Except UpdateError (Dict Json) := do
  let fields ← withNormalisedNodes rules fields
  let new name := (fields.get? name).getD (row.column name)
  let has name := (fields.get? name).isSome
  if has "canvas_nodes" || has "canvas_edges" then
    invalid (rules.validateNoCycle (new "canvas_nodes") (new "canvas_edges"))
    invalid (rules.validateStopHereNotInFanOut (new "canvas_nodes") (new "canvas_edges"))
    invalid (rules.validateFanOutTopology (new "canvas_nodes") (new "canvas_edges"))
  if has "canvas_nodes" then
    invalid (rules.validateChildRunSecretInputs (new "canvas_nodes"))
  if has "static_attributes" then
    invalid (rules.validateStaticAttributes (orEmpty (new "static_attributes")))
  let fields := if has "canvas_nodes" || has "canvas_groups" then
      fields.insert "canvas_groups"
        (rules.repairOrphanGroups (new "canvas_nodes") (new "canvas_groups"))
    else fields
  let fields := if (row.column "ai_released").truthy && invalidatesAiRelease row fields then
      fields.update aiReleaseCleared
    else fields
  if fields.keys.any (· ∉ updatableFields) then throw (.invalid "fields not updatable")
  return fields

def updatedFields (rules : DefinitionRules) (row : WorkflowRow) (data : WorkflowUpdate)
    (nameExists : Bool) : Except UpdateError (Dict Json) := do
  checkDefinition rules row (← checkVersion row data nameExists)

end Rules

section Saves

/-- One save: who may do what, and its request. -/
structure SaveCall where
  data : WorkflowUpdate
  mayManage : Bool := true

/-- How far a save has got: its transaction has begun, it has loaded the row, its checks are
passed, or it is done. -/
inductive SaveState where
  | idle
  | begun (start : ℕ)
  | loaded (start : ℕ) (row : WorkflowRow)
  | checked (start : ℕ) (row : WorkflowRow) (fields : Dict Json)
  | saved
  | refused (error : UpdateError)

/-- A save that succeeded, with the row it had loaded. -/
structure Save where
  call : ℕ
  start : ℕ
  loaded : WorkflowRow
  fields : Dict Json

/-- The columns a flush writes: those whose new value differs from the loaded one. -/
def Save.changes (save : Save) : List (String × Json) :=
  save.fields.entries.filter fun p => !Json.pyEq (save.loaded.column p.1) p.2

/-- A row after the save is flushed; without a change no statement is sent. -/
def Save.flush (save : Save) (row : WorkflowRow) : WorkflowRow :=
  if save.changes.isEmpty then row
  else { columns := save.changes.foldl (fun columns p => columns.insert p.1 p.2) row.columns
         updatedAt := save.start }

/-- The row of one workflow, the saves under way, the clock, and the saves that succeeded, the
last one first. -/
structure SaveWorld where
  row : WorkflowRow
  states : ℕ → SaveState
  now : ℕ
  saves : List Save

inductive SaveStep where
  | begin (call : ℕ)
  | read (call : ℕ)
  | check (call : ℕ) (nameExists : Bool)
  | commit (call : ℕ)

def SaveWorld.setState (w : SaveWorld) (call : ℕ) (state : SaveState) : SaveWorld :=
  { w with states := Function.update w.states call state }

@[simp] theorem SaveWorld.setState_self (w : SaveWorld) (call : ℕ) (state : SaveState) :
    (w.setState call state).states call = state := Function.update_self ..

theorem SaveWorld.setState_of_ne (w : SaveWorld) {call other : ℕ} (state : SaveState)
    (h : other ≠ call) : (w.setState call state).states other = w.states other :=
  Function.update_of_ne h ..

/-- Transactions begin one after another, each at a time of its own. -/
def saveStep (rules : DefinitionRules) (calls : ℕ → SaveCall) (w : SaveWorld) :
    SaveStep → Option SaveWorld
  | .begin i => match w.states i with
    | .idle => some { w.setState i (.begun w.now) with now := w.now + 1 }
    | _ => none
  | .read i => match w.states i with
    | .begun start => some (w.setState i (.loaded start w.row))
    | _ => none
  | .check i nameExists => match w.states i with
    | .loaded start row =>
      if (calls i).mayManage then
        match updatedFields rules row (calls i).data nameExists with
        | .ok fields => some (w.setState i (.checked start row fields))
        | .error e => some (w.setState i (.refused e))
      else some (w.setState i (.refused .accessDenied))
    | _ => none
  | .commit i => match w.states i with
    | .checked start row fields =>
      let save : Save := ⟨i, start, row, fields⟩
      some { w.setState i .saved with row := save.flush w.row, saves := save :: w.saves }
    | _ => none

def saveRun (rules : DefinitionRules) (calls : ℕ → SaveCall) (w : SaveWorld)
    (steps : List SaveStep) : Option SaveWorld := steps.foldlM (saveStep rules calls) w

/-- Before any save: the row was changed before the clock of this run starts. -/
def saveInit (row : WorkflowRow) : SaveWorld where
  row
  states _ := .idle
  now := row.updatedAt + 1
  saves := []

end Saves

section Kept

/-- Every save was made on what the save before it left, and the row is what the last one left. -/
def Chained (first : WorkflowRow) : List Save → WorkflowRow → Prop
  | [], row => row = first
  | save :: saves, row => Chained first saves save.loaded ∧ row = save.flush save.loaded

structure SavesKept (rules : DefinitionRules) (calls : ℕ → SaveCall) (first : WorkflowRow)
    (w : SaveWorld) : Prop where
  chained : Chained first w.saves w.row
  whole : ∀ save ∈ w.saves.head?, ∀ name value, save.fields.get? name = some value →
    w.row.column name = value ∨ Json.pyEq (w.row.column name) value = true
  exclusive : ∀ save ∈ w.saves, ∀ save' ∈ w.saves, ∀ t,
    (calls save.call).data.expectedUpdatedAt = some t →
    (calls save'.call).data.expectedUpdatedAt = some t → save = save'
  conflict : ∀ save ∈ w.saves, ∀ t, (calls save.call).data.expectedUpdatedAt = some t →
    ∀ data : WorkflowUpdate, data.expectedUpdatedAt = some t → ∀ nameExists,
      updatedFields rules w.row data nameExists = .error .changed ∨
        updatedFields rules w.row data nameExists = .error .nameTaken

/-- A commit finds the row as it was loaded, and changes it. -/
def Undisturbed (w : SaveWorld) : SaveStep → Prop
  | .commit i => ∀ start row fields, w.states i = .checked start row fields →
      w.row = row ∧ Save.changes ⟨i, start, row, fields⟩ ≠ []
  | _ => True

/-- All commits of a run do. -/
def UndisturbedRun (rules : DefinitionRules) (calls : ℕ → SaveCall) :
    SaveWorld → List SaveStep → Prop
  | _, [] => True
  | w, step :: steps => Undisturbed w step ∧
      ∀ w', saveStep rules calls w step = some w' → UndisturbedRun rules calls w' steps

variable {rules : DefinitionRules} {calls : ℕ → SaveCall} {first : WorkflowRow}

theorem updatedFields_changed {row : WorkflowRow} {data : WorkflowUpdate} {t : ℕ}
    (he : data.expectedUpdatedAt = some t) (hne : t ≠ row.updatedAt) (nameExists : Bool) :
    updatedFields rules row data nameExists = .error .changed ∨
      updatedFields rules row data nameExists = .error .nameTaken := by
  have hversion : checkVersion row data nameExists = .error .changed ∨
      checkVersion row data nameExists = .error .nameTaken := by
    unfold checkVersion
    rw [he]
    simp only [Option.any_some, ne_eq, hne, not_false_iff, decide_true, if_true]
    split
    · exact .inr rfl
    · exact .inl rfl
  unfold updatedFields
  rcases hversion with h | h
  · left
    rw [h]
    rfl
  · right
    rw [h]
    rfl

theorem updatedFields_ok {row : WorkflowRow} {data : WorkflowUpdate} {nameExists : Bool}
    {fields : Dict Json} (h : updatedFields rules row data nameExists = .ok fields) {t : ℕ}
    (he : data.expectedUpdatedAt = some t) : t = row.updatedAt := by
  by_contra hne
  rcases updatedFields_changed he hne nameExists with hc | hc
  · rw [hc] at h
    cases h
  · rw [hc] at h
    cases h

theorem flush_column {save : Save} (h : save.changes ≠ []) (row : WorkflowRow) (name : String) :
    (save.flush row).column name = (save.changes.lookup name).getD (row.column name) := by
  have hn : (save.changes.map Prod.fst).Nodup :=
    save.fields.nodup.sublist (List.filter_sublist.map Prod.fst)
  unfold Save.flush WorkflowRow.column
  rw [if_neg (by simpa using h)]
  dsimp only
  rw [Dict.get?_foldl_insert, Dict.lookup_reverse hn]
  cases save.changes.lookup name <;> rfl

theorem flush_updatedAt {save : Save} (h : save.changes ≠ []) (row : WorkflowRow) :
    (save.flush row).updatedAt = save.start := by
  unfold Save.flush
  rw [if_neg (by simpa using h)]

/-- A save on the row it has loaded leaves all its fields there. -/
theorem flush_whole {save : Save} (hc : save.changes ≠ []) {name : String} {value : Json}
    (h : save.fields.get? name = some value) :
    (save.flush save.loaded).column name = value ∨
      Json.pyEq ((save.flush save.loaded).column name) value = true := by
  rw [flush_column hc]
  have hmem := Dict.get?_eq_some_iff.mp h
  by_cases hsame : Json.pyEq (save.loaded.column name) value = true
  · right
    have hnone : save.changes.lookup name = none := by
      refine List.lookup_eq_none_iff.mpr fun p hp => ?_
      obtain ⟨hp, hdiffers⟩ := List.mem_filter.mp hp
      by_contra hname
      obtain ⟨k, v⟩ := p
      obtain rfl : name = k := by simpa using hname
      have : v = value := Option.some.inj ((Dict.get?_eq_some_iff.mpr hp).symm.trans h)
      rw [this, hsame] at hdiffers
      cases hdiffers
    rw [hnone]
    exact hsame
  · left
    have hn : (save.changes.map Prod.fst).Nodup :=
      save.fields.nodup.sublist (List.filter_sublist.map Prod.fst)
    have hchange : (name, value) ∈ save.changes := List.mem_filter.mpr ⟨hmem, by simpa using hsame⟩
    have hlookup : save.changes.lookup name = some value :=
      (Dict.get?_eq_some_iff (d := ⟨save.changes, hn⟩)).mpr hchange
    rw [hlookup, Option.getD_some]

/-- When the transaction of a save began that is still under way. -/
def SaveState.start? : SaveState → Option ℕ
  | .begun start | .loaded start _ | .checked start _ _ => some start
  | _ => none

/-- When the row was changed: by the saves, and at first. -/
def changeTimes (first : WorkflowRow) (saves : List Save) : List ℕ :=
  saves.map Save.start ++ [first.updatedAt]

/-- What holds while no save is disturbed. -/
structure SaveInv (calls : ℕ → SaveCall) (first : WorkflowRow) (w : SaveWorld) : Prop where
  chained : Chained first w.saves w.row
  changed : ∀ save ∈ w.saves, save.changes ≠ []
  expected : ∀ save ∈ w.saves, ∀ t, (calls save.call).data.expectedUpdatedAt = some t →
    t = save.loaded.updatedAt
  nodup : (changeTimes first w.saves).Nodup
  past : ∀ t ∈ changeTimes first w.saves, t < w.now
  underway : ∀ i t, (w.states i).start? = some t → t < w.now ∧ t ∉ changeTimes first w.saves
  distinct : ∀ i j t, (w.states i).start? = some t → (w.states j).start? = some t → i = j
  checked : ∀ i start row fields, w.states i = .checked start row fields →
    ∀ t, (calls i).data.expectedUpdatedAt = some t → t = row.updatedAt

theorem chained_times {saves : List Save} {row : WorkflowRow} (h : Chained first saves row)
    (hc : ∀ save ∈ saves, save.changes ≠ []) :
    row.updatedAt :: saves.map (fun save => save.loaded.updatedAt) = changeTimes first saves := by
  induction saves generalizing row with
  | nil =>
    obtain rfl : row = first := h
    rfl
  | cons save saves ih =>
    obtain ⟨hrest, rfl⟩ := h
    have ih := ih hrest fun s hs => hc s (List.mem_cons_of_mem _ hs)
    rw [flush_updatedAt (hc save List.mem_cons_self), List.map_cons, ih]
    rfl

theorem SaveInv.kept {w : SaveWorld} (h : SaveInv calls first w) :
    SavesKept rules calls first w := by
  have htimes := chained_times h.chained h.changed
  have hnodup := htimes ▸ h.nodup
  obtain ⟨hrow, hloaded⟩ := List.nodup_cons.mp hnodup
  refine ⟨h.chained, ?_, ?_, ?_⟩
  · intro save hsave name value hvalue
    obtain ⟨saves, hs⟩ : ∃ saves, w.saves = save :: saves := by
      cases hw : w.saves with
      | nil => simp [hw] at hsave
      | cons s saves =>
        obtain rfl : s = save := by simpa [hw] using hsave
        exact ⟨saves, rfl⟩
    have hc := h.changed save (by simp [hs])
    have hchained := h.chained
    rw [hs] at hchained
    rw [hchained.2]
    exact flush_whole hc hvalue
  · intro save hsave save' hsave' t ht ht'
    have he := (h.expected save hsave t ht).symm.trans (h.expected save' hsave' t ht')
    exact List.inj_on_of_nodup_map hloaded hsave hsave' he
  · intro save hsave t ht data hdata nameExists
    refine updatedFields_changed hdata (fun he => hrow ?_) nameExists
    rw [← he, h.expected save hsave t ht]
    exact List.mem_map_of_mem hsave

/-- What a step does. -/
theorem saveStep_cases {w w' : SaveWorld} {step : SaveStep}
    (h : saveStep rules calls w step = some w') :
    (∃ i, w' = { w.setState i (.begun w.now) with now := w.now + 1 }) ∨
    (∃ i state, w' = w.setState i state ∧
      (state.start? = none ∨ state.start? = (w.states i).start?) ∧
      ∀ start row fields, state = .checked start row fields →
        ∀ t, (calls i).data.expectedUpdatedAt = some t → t = row.updatedAt) ∨
    (∃ i start row fields, step = .commit i ∧ w.states i = .checked start row fields ∧
      w' = { w.setState i .saved with
        row := Save.flush ⟨i, start, row, fields⟩ w.row
        saves := ⟨i, start, row, fields⟩ :: w.saves }) := by
  cases step with
  | begin i =>
    simp only [saveStep] at h
    split at h
    · exact .inl ⟨i, (Option.some.inj h).symm⟩
    · cases h
  | read i =>
    simp only [saveStep] at h
    split at h
    · rename_i start hs
      exact .inr (.inl ⟨i, _, (Option.some.inj h).symm, .inr (by rw [hs]; rfl), nofun⟩)
    · cases h
  | check i nameExists =>
    simp only [saveStep] at h
    split at h
    · rename_i start row hs
      right
      left
      split at h
      · split at h
        · rename_i fields hfields
          refine ⟨i, _, (Option.some.inj h).symm, .inr (by rw [hs]; rfl), ?_⟩
          rintro _ _ _ ⟨⟩ t ht
          exact updatedFields_ok hfields ht
        · exact ⟨i, _, (Option.some.inj h).symm, .inl rfl, nofun⟩
      · exact ⟨i, _, (Option.some.inj h).symm, .inl rfl, nofun⟩
    · cases h
  | commit i =>
    simp only [saveStep] at h
    split at h
    · rename_i start row fields hs
      exact .inr (.inr ⟨i, start, row, fields, rfl, hs, (Option.some.inj h).symm⟩)
    · cases h

/-- A save that gets further without a commit. -/
theorem SaveInv.setState {w : SaveWorld} (h : SaveInv calls first w) {i : ℕ} {state : SaveState}
    (hstart : state.start? = none ∨ state.start? = (w.states i).start?)
    (hchecked : ∀ start row fields, state = .checked start row fields →
      ∀ t, (calls i).data.expectedUpdatedAt = some t → t = row.updatedAt) :
    SaveInv calls first (w.setState i state) := by
  have hback : ∀ j t, ((w.setState i state).states j).start? = some t →
      (w.states j).start? = some t := by
    intro j t ht
    by_cases hj : j = i
    · subst hj
      rw [SaveWorld.setState_self] at ht
      rcases hstart with hn | hs
      · rw [hn] at ht
        cases ht
      · rw [← hs, ht]
    · rwa [w.setState_of_ne state hj] at ht
  refine ⟨h.chained, h.changed, h.expected, h.nodup, h.past,
    fun j t ht => h.underway j t (hback j t ht),
    fun j k t hj hk => h.distinct j k t (hback j t hj) (hback k t hk), ?_⟩
  intro j start row fields hj
  by_cases hij : j = i
  · subst hij
    rw [SaveWorld.setState_self] at hj
    exact hchecked start row fields hj
  · rw [w.setState_of_ne state hij] at hj
    exact h.checked j start row fields hj

theorem SaveInv.begin {w : SaveWorld} (h : SaveInv calls first w) (i : ℕ) :
    SaveInv calls first { w.setState i (.begun w.now) with now := w.now + 1 } := by
  have hcases : ∀ j t, (Function.update w.states i (.begun w.now) j).start? = some t →
      j = i ∧ t = w.now ∨ j ≠ i ∧ (w.states j).start? = some t := by
    intro j t ht
    by_cases hj : j = i
    · subst hj
      rw [Function.update_self] at ht
      exact .inl ⟨rfl, (Option.some.inj ht).symm⟩
    · rw [Function.update_of_ne hj] at ht
      exact .inr ⟨hj, ht⟩
  refine ⟨h.chained, h.changed, h.expected, h.nodup,
    fun t ht => (h.past t ht).trans (Nat.lt_succ_self _), fun j t ht => ?_, fun j k t hj hk => ?_,
    fun j start row fields hj => ?_⟩
  · rcases hcases j t ht with ⟨-, rfl⟩ | ⟨-, ht⟩
    · exact ⟨Nat.lt_succ_self _, fun hmem => lt_irrefl _ (h.past _ hmem)⟩
    · obtain ⟨hlt, hnot⟩ := h.underway j t ht
      exact ⟨hlt.trans (Nat.lt_succ_self _), hnot⟩
  · rcases hcases j t hj with ⟨rfl, rfl⟩ | ⟨-, hj'⟩
    · rcases hcases k _ hk with ⟨rfl, -⟩ | ⟨-, hk'⟩
      · rfl
      · exact absurd (h.underway k _ hk').1 (lt_irrefl _)
    · rcases hcases k t hk with ⟨rfl, rfl⟩ | ⟨-, hk'⟩
      · exact absurd (h.underway j _ hj').1 (lt_irrefl _)
      · exact h.distinct j k t hj' hk'
  · by_cases hji : j = i
    · subst hji
      simp only [SaveWorld.setState, Function.update_self] at hj
      cases hj
    · simp only [SaveWorld.setState, Function.update_of_ne hji] at hj
      exact h.checked j start row fields hj

theorem SaveInv.commit {w : SaveWorld} (h : SaveInv calls first w) {i start : ℕ}
    {fields : Dict Json} (hs : w.states i = .checked start w.row fields)
    (hc : Save.changes ⟨i, start, w.row, fields⟩ ≠ []) :
    SaveInv calls first { w.setState i .saved with
      row := Save.flush ⟨i, start, w.row, fields⟩ w.row
      saves := ⟨i, start, w.row, fields⟩ :: w.saves } := by
  have hset : SaveInv calls first (w.setState i .saved) := h.setState (.inl rfl) nofun
  obtain ⟨hlt, hfresh⟩ := h.underway i start (by rw [hs]; rfl)
  refine ⟨⟨h.chained, rfl⟩, ?_, ?_, List.nodup_cons.mpr ⟨hfresh, h.nodup⟩, ?_, ?_, hset.distinct,
    hset.checked⟩
  · intro save hsave
    rcases List.mem_cons.mp hsave with rfl | hsave
    · exact hc
    · exact h.changed save hsave
  · intro save hsave t ht
    rcases List.mem_cons.mp hsave with rfl | hsave
    · exact h.checked i start w.row fields hs t ht
    · exact h.expected save hsave t ht
  · intro t ht
    rcases List.mem_cons.mp ht with rfl | ht
    · exact hlt
    · exact h.past t ht
  · intro j t ht
    obtain ⟨hlt', hnot⟩ := hset.underway j t ht
    refine ⟨hlt', fun hmem => ?_⟩
    rcases List.mem_cons.mp hmem with rfl | hmem
    · -- only the save itself began then, and it is done
      by_cases hj : j = i
      · subst hj
        simp only [SaveWorld.setState, Function.update_self] at ht
        cases ht
      · simp only [SaveWorld.setState, Function.update_of_ne hj] at ht
        exact hj (h.distinct j i _ ht (by rw [hs]; rfl))
    · exact hnot hmem

theorem SaveInv.step {w w' : SaveWorld} {step : SaveStep} (h : SaveInv calls first w)
    (hu : Undisturbed w step) (hs : saveStep rules calls w step = some w') :
    SaveInv calls first w' := by
  rcases saveStep_cases hs with ⟨i, rfl⟩ | ⟨i, state, rfl, hstart, hchecked⟩ |
    ⟨i, start, row, fields, rfl, hstate, rfl⟩
  · exact h.begin i
  · exact h.setState hstart hchecked
  · obtain ⟨rfl, hc⟩ := hu start row fields hstate
    exact h.commit hstate hc

theorem saveInv_init : SaveInv calls first (saveInit first) where
  chained := rfl
  changed := nofun
  expected := nofun
  nodup := List.nodup_singleton _
  past t ht := by
    obtain rfl : t = first.updatedAt := by simpa [saveInit, changeTimes] using ht
    exact Nat.lt_succ_self _
  underway := nofun
  distinct := nofun
  checked := nofun

/-- If every commit finds the row its save has loaded, and changes it, no save is lost, however
the saves interleave. -/
theorem saveRun_kept {steps : List SaveStep} {w : SaveWorld}
    (hrun : saveRun rules calls (saveInit first) steps = some w)
    (hu : UndisturbedRun rules calls (saveInit first) steps) : SavesKept rules calls first w := by
  have key : ∀ (steps : List SaveStep) (w₀ : SaveWorld), SaveInv calls first w₀ →
      saveRun rules calls w₀ steps = some w → UndisturbedRun rules calls w₀ steps →
      SaveInv calls first w := by
    intro steps
    induction steps with
    | nil =>
      intro w₀ h hrun _
      cases hrun
      exact h
    | cons step steps ih =>
      intro w₀ h hrun hu
      obtain ⟨w₁, hstep, hrest⟩ := Option.bind_eq_some_iff.mp hrun
      exact ih w₁ (h.step hu.1 hstep) hrest (hu.2 w₁ hstep)
  exact (key steps _ saveInv_init hrun hu).kept

def noRules : DefinitionRules where
  normalisedNodes nodes := .ok nodes
  validateNoCycle _ _ := .ok ()
  validateStopHereNotInFanOut _ _ := .ok ()
  validateFanOutTopology _ _ := .ok ()
  validateChildRunSecretInputs _ := .ok ()
  validateStaticAttributes _ := .ok ()
  repairOrphanGroups _ groups := groups

def openedRow : WorkflowRow where
  columns := Dict.ofPairs [("name", .str "backup"), ("description", .str "")]
  updatedAt := 0

def describe (i : ℕ) : SaveCall where
  data := { fields := Dict.ofPairs [("description", .str (if i = 0 then "nightly" else "weekly"))]
            expectedUpdatedAt := some 0 }

/-- Both load the row before either commits: both saves succeed, and the first one is lost. -/
theorem bothSaves_succeed :
    ∃ w, saveRun noRules describe (saveInit openedRow)
        [.begin 0, .begin 1, .read 0, .read 1, .check 0 false, .check 1 false, .commit 0,
          .commit 1] = some w ∧
      w.saves.map Save.call = [1, 0] ∧ w.row.column "description" = .str "weekly" ∧
      ¬ SavesKept noRules describe openedRow w := by
  have hend : (saveRun noRules describe (saveInit openedRow)
      [.begin 0, .begin 1, .read 0, .read 1, .check 0 false, .check 1 false, .commit 0,
        .commit 1]).map (fun w => (w.saves.map Save.call, w.row.column "description")) =
      some ([1, 0], .str "weekly") := by decide +kernel
  obtain ⟨w, hw, he⟩ := Option.map_eq_some_iff.mp hend
  obtain ⟨hcalls, hrow⟩ := Prod.mk.inj he
  refine ⟨w, hw, hcalls, hrow, fun hkept => ?_⟩
  obtain ⟨s₁, rest, hs, h₁, hrest⟩ := List.map_eq_cons_iff.mp hcalls
  obtain ⟨s₀, rest, rfl, h₀, -⟩ := List.map_eq_cons_iff.mp hrest
  have := hkept.exclusive s₁ (by simp [hs]) s₀ (by simp [hs]) 0 rfl rfl
  rw [this, h₀] at h₁
  cases h₁

/-- One after the other, the second is refused. -/
theorem secondSave_refused :
    ∃ w, saveRun noRules describe (saveInit openedRow)
        [.begin 0, .read 0, .check 0 false, .commit 0, .begin 1, .read 1, .check 1 false] =
        some w ∧ SavesKept noRules describe openedRow w := by
  refine ⟨_, rfl, @saveRun_kept noRules describe openedRow
    [.begin 0, .read 0, .check 0 false, .commit 0, .begin 1, .read 1, .check 1 false] _ rfl ?_⟩
  refine ⟨trivial, fun w₁ h₁ => ⟨trivial, fun w₂ h₂ => ⟨trivial, fun w₃ h₃ => ⟨?_, fun w₄ _ =>
    ⟨trivial, fun w₅ _ => ⟨trivial, fun w₆ _ => ⟨trivial, fun w₇ _ => trivial⟩⟩⟩⟩⟩⟩⟩
  cases h₁
  cases h₂
  cases h₃
  rintro start row fields h
  cases h
  exact ⟨rfl, by decide +kernel⟩

end Kept

end Manus.Workflows
