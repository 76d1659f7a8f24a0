import Manus.Runs.Forest
import Manus.Runs.History
import Mathlib.Logic.Relation

/-! # Cancelling a run with the runs below it

A cancel marks its run and then goes through the runs below it once, while steps
of those runs start more of them. A call that starts a run looks again at its
parent afterwards. What is known of a run that was gone through is stable, as long
as no run is cut off from active runs below it.
-/

namespace Manus

open Relation

variable {ω : Type} {w w' : World}

section Below

/-- A run was started by another one, and the call that started it is over. -/
def World.Link (w : World) (parentRunId id : ℕ) : Prop :=
  w.Started parentRunId id ∧ id ∉ w.starting

def World.Cleared (w : World) (id : ℕ) : Prop := ∀ z, TransGen w.Link id z → ¬ w.Active z

/-- A run that a cancel may have to go through: it was started by another run, or is cancelled
itself, or was deleted when nothing below it was left. -/
inductive Stake (w : World) (id : ℕ) : Prop
  | child (parentRunId : ℕ) (h : w.Started parentRunId id)
  | cancelled (h : w.Cancelled id)
  | gone (hrow : w.runs id = none) (hstarting : ∀ z, w.Started id z → z ∉ w.starting)
      (hclear : w.Cleared id)

structure Halted (w : World) (id : ℕ) : Prop where
  created : ∃ first, w.created id = some first
  inactive : ¬ w.Active id
  stake : Stake w id

structure Swept (w : World) (id : ℕ) : Prop extends Halted w id where
  clear : w.Cleared id

/-- Neither a start that comes too late nor a deletion cuts active runs off. When the start of a run
ends, its parent is active or nothing below the new run is; and when a run that was started by
another one or is cancelled gets deleted, no run below it is active or being started. -/
structure NotCutOff (w w' : World) : Prop where
  ended : ∀ p id, w.Started p id → id ∈ w.starting → id ∉ w'.starting →
    (∃ q, w.Started q p) ∨ w.Cancelled p → w.Active p ∨ w.Cleared id
  deleted : ∀ id, w.runs id ≠ none → w'.runs id = none →
    (∃ q, w.Started q id) ∨ w.Cancelled id →
    ∀ z, TransGen w.Started id z → ¬ w.Active z ∧ z ∉ w.starting

/-- What holds of cancelled and of deleted runs in every reachable state. -/
structure SweepOk (w : World) : Prop where
  returned : ∀ id ∈ w.cancelReturned, Swept w id
  gone : ∀ id, (∃ p, w.Started p id) → w.runs id = none → Swept w id
  orphans : ∀ p id, w.Started p id → id ∈ w.starting → (∃ q, w.Started q p) → w.runs p ≠ none

abbrev sweepRules : Rules World := forestRules SweepOk (fun id w => Swept w id) NotCutOff

theorem Started.lt (h : ForestOk w) {p id : ℕ} (hs : w.Started p id) : p < id := by
  obtain ⟨first, hf, hp⟩ := hs
  exact ((h.chains id first hf).child p hp).1

end Below

section Steps

variable {Done : ℕ → World → Prop}

theorem ForestStep.created_back (h : ForestStep Done w w') {id : ℕ} {first : RunRow}
    (hf : w'.created id = some first) :
    w.created id = some first ∨ id = w.nextRunId ∧ FirstRow w first ∧ w' = w.create first := by
  cases h with
  | moved hm => exact .inl (hm.created ▸ hf)
  | created row hrow hw =>
    by_cases he : id = w.nextRunId
    · subst he
      rw [hw, ForestOk.create_created] at hf
      cases hf
      exact .inr ⟨rfl, hrow, hw⟩
    · rw [hw, ForestOk.create_created_of_ne row he] at hf
      exact .inl hf
  | ended _ _ _ _ _ _ hw =>
    subst hw
    exact .inl hf
  | deleted _ _ hw =>
    subst hw
    exact .inl hf
  | returned _ _ hw =>
    subst hw
    exact .inl hf

theorem ForestStep.started (hok : ForestOk w) (h : ForestStep Done w w') {p id : ℕ}
    (hs : w.Started p id) : w'.Started p id := by
  obtain ⟨first, hf, hp⟩ := hs
  exact ⟨first, h.created_some hok hf, hp⟩

theorem ForestStep.started_back (h : ForestStep Done w w') {p id : ℕ} (hs : w'.Started p id) :
    w.Started p id ∨ id ∈ w'.starting ∧ w'.runs id ≠ none ∧ w'.runs p ≠ none := by
  obtain ⟨first, hf, hp⟩ := hs
  rcases h.created_back hf with hf | ⟨rfl, hrow, hw⟩
  · exact .inl ⟨first, hf, hp⟩
  · obtain ⟨parent, hparent, -⟩ := hrow.child p hp
    refine .inr ⟨?_, ?_, ?_⟩
    · rw [hw]
      simp [World.create, hp]
    · rw [hw, ForestOk.create_runs]
      exact Option.some_ne_none _
    · by_cases he : p = w.nextRunId
      · rw [hw, he, ForestOk.create_runs]
        exact Option.some_ne_none _
      · rw [hw, ForestOk.create_runs_of_ne first he, hparent]
        exact Option.some_ne_none _

theorem ForestStep.starting_back (h : ForestStep Done w w') {id : ℕ} (hid : id ∈ w'.starting) :
    id ∈ w.starting ∨ id = w.nextRunId := by
  cases h with
  | moved hm => exact .inl (hm.starting ▸ hid)
  | created row _ hw =>
    subst hw
    simp only [World.create] at hid
    split at hid
    · exact (List.mem_cons.mp hid).symm.imp_left fun h => h
    · exact .inl hid
  | ended _ _ _ _ _ _ hw =>
    subst hw
    exact .inl (List.mem_filter.mp hid).1
  | deleted _ _ hw =>
    subst hw
    exact .inl hid
  | returned _ _ hw =>
    subst hw
    exact .inl hid

/-- A link was there before, or the start of its run ends with this step. -/
theorem ForestStep.link_back (h : ForestStep Done w w') {p id : ℕ} (hl : w'.Link p id) :
    w.Link p id ∨ w.Started p id ∧ id ∈ w.starting ∧
      (w.runs p = none ∨ w.Active p ∨ ¬ w.Active id) := by
  obtain ⟨hs, hdone⟩ := hl
  rcases h.started_back hs with hs | ⟨hstarting, -⟩
  · by_cases hid : id ∈ w.starting
    · right
      refine ⟨hs, hid, ?_⟩
      cases h with
      | moved hm => exact absurd (hm.starting ▸ hid) hdone
      | created row _ hw =>
        refine absurd ?_ hdone
        subst hw
        simp only [World.create]
        split
        · exact List.mem_cons_of_mem _ hid
        · exact hid
      | ended runId parentRunId first hfirst hparent hwhy hw =>
        subst hw
        have he : id = runId := by
          by_contra hne
          exact hdone (List.mem_filter.mpr ⟨hid, by simpa using hne⟩)
        subst he
        obtain ⟨first', hf', hp'⟩ := hs
        cases hfirst.symm.trans hf'
        cases hparent.symm.trans hp'
        exact hwhy
      | deleted _ _ hw =>
        subst hw
        exact absurd hid hdone
      | returned _ _ hw =>
        subst hw
        exact absurd hid hdone
    · exact .inl ⟨hs, hid⟩
  · exact absurd hstarting hdone

theorem ForestStep.runs_none (hok : ForestOk w) (h : ForestStep Done w w') {id : ℕ} {first : RunRow}
    (hf : w.created id = some first) (hnone : w.runs id = none) : w'.runs id = none := by
  cases h with
  | moved hm =>
    have hmoved := hm.rows id
    rw [hnone] at hmoved
    cases hrow : w'.runs id with
    | none => rfl
    | some row => rw [hrow] at hmoved; cases hmoved
  | created row _ hw =>
    rw [hw, ForestOk.create_runs_of_ne row (hok.lt_of_created hf).ne]
    exact hnone
  | ended _ _ _ _ _ _ hw => exact hw ▸ hnone
  | deleted ids _ hw => exact hw ▸ ForestOk.deleteRuns_none (.inr hnone)
  | returned _ _ hw => exact hw ▸ hnone

/-- A cancelled run stays cancelled, unless it is deleted. -/
theorem ForestStep.cancelled (hok : ForestOk w) (h : ForestStep Done w w') {id : ℕ}
    (hc : w.Cancelled id) : w'.Cancelled id ∨ w'.runs id = none := by
  obtain ⟨row, hrow, hs⟩ := hc
  cases h with
  | moved hm =>
    have hmoved := hm.rows id
    rw [hrow] at hmoved
    cases hrow' : w'.runs id with
    | none => exact .inr rfl
    | some row' =>
      rw [hrow'] at hmoved
      cases hmoved with
      | moved _ _ _ hsticky =>
        exact .inl ⟨row', hrow', (hsticky (by rw [hs]; decide)).trans hs⟩
  | created new _ hw =>
    refine .inl ⟨row, ?_, hs⟩
    rw [hw, ForestOk.create_runs_of_ne new (hok.lt_of_row hrow).ne]
    exact hrow
  | ended _ _ _ _ _ _ hw =>
    subst hw
    exact .inl ⟨row, hrow, hs⟩
  | deleted ids _ hw =>
    subst hw
    by_cases hid : id ∈ ids
    · exact .inr (ForestOk.deleteRuns_none (.inl hid))
    · exact .inl ⟨_, ForestOk.deleteRuns_of_not_mem hid hrow, hs⟩
  | returned _ _ hw =>
    subst hw
    exact .inl ⟨row, hrow, hs⟩

theorem ForestStep.no_starts (hok : ForestOk w) (h : ForestStep Done w w') {id : ℕ}
    (hrow : w'.runs id = none) (hnone : ∀ z, w.Started id z → z ∉ w.starting) :
    ∀ z, w'.Started id z → z ∉ w'.starting := by
  intro z hz hstarting
  rcases h.started_back hz with hz' | ⟨-, -, hne⟩
  · have ⟨first, hf, _⟩ := hz'
    rcases h.starting_back hstarting with hold | rfl
    · exact hnone z hz' hold
    · exact (hok.lt_of_created hf).ne rfl
  · exact hne hrow

end Steps

section Stability

variable {Done : ℕ → World → Prop}

theorem Halted.ended (hok : SweepOk w) (ha : NotCutOff w w') {p id : ℕ} (h : Halted w p)
    (hs : w.Started p id) (hid : id ∈ w.starting) (hdone : id ∉ w'.starting)
    (hwhy : w.runs p = none ∨ w.Active p ∨ ¬ w.Active id) : ¬ w.Active id ∧ w.Cleared id := by
  have hcond : ((∃ q, w.Started q p) ∨ w.Cancelled p) ∧ w.runs p ≠ none := by
    cases h.stake with
    | child q hq => exact ⟨.inl ⟨q, hq⟩, hok.orphans p id hs hid ⟨q, hq⟩⟩
    | cancelled hc =>
      have ⟨row, hrow, _⟩ := hc
      exact ⟨.inr hc, by rw [hrow]; exact Option.some_ne_none _⟩
    | gone _ hstarting _ => exact absurd hid (hstarting id hs)
  constructor
  · rcases hwhy with hgone | hactive | hnot
    · exact absurd hgone hcond.2
    · exact absurd hactive h.inactive
    · exact hnot
  · exact (ha.ended p id hs hid hdone hcond.1).resolve_left h.inactive

theorem Halted.link (hok : SweepOk w) (hs : ForestStep Done w w') (ha : NotCutOff w w') {p id : ℕ}
    (h : Halted w p) (hclear : w.Cleared p) (hl : w'.Link p id) : Swept w id := by
  have hover : w.Started p id ∧ ¬ w.Active id ∧ w.Cleared id := by
    rcases hs.link_back hl with hl' | ⟨hstarted, hid, hwhy⟩
    · exact ⟨hl'.1, hclear id (.single hl'), fun z hz => hclear z (.head hl' hz)⟩
    · exact ⟨hstarted, h.ended hok ha hstarted hid hl.2 hwhy⟩
  obtain ⟨hstarted, hnot, hcleared⟩ := hover
  have ⟨first, hf, _⟩ := hstarted
  exact ⟨⟨⟨first, hf⟩, hnot, .child p hstarted⟩, hcleared⟩

theorem Halted.cleared (hforest : ForestOk w) (hok : SweepOk w) (hs : ForestStep Done w w')
    (ha : NotCutOff w w') {id : ℕ} (h : Halted w id) (hclear : w.Cleared id) : w'.Cleared id := by
  have hbelow : ∀ z, TransGen w'.Link id z → Swept w z := by
    intro z hz
    induction hz with
    | single hl => exact h.link hok hs ha hclear hl
    | tail _ hl ih => exact ih.toHalted.link hok hs ha ih.clear hl
  intro z hz hactive
  obtain ⟨first, hf⟩ := (hbelow z hz).created
  exact (hbelow z hz).inactive (hs.active hforest hf hactive)

theorem cleared_of_deleted (hforest : ForestOk w) (hs : ForestStep Done w w') {id : ℕ}
    (h : ∀ z, TransGen w.Started id z → ¬ w.Active z ∧ z ∉ w.starting) : w'.Cleared id := by
  have hbelow : ∀ z, TransGen w'.Link id z → TransGen w.Started id z := by
    intro z hz
    induction hz with
    | single hl =>
      rcases hs.link_back hl with hl' | ⟨hstarted, -⟩
      · exact .single hl'.1
      · exact .single hstarted
    | tail _ hl ih =>
      rcases hs.link_back hl with hl' | ⟨hstarted, -⟩
      · exact ih.tail hl'.1
      · exact ih.tail hstarted
  intro z hz hactive
  have hstarted := hbelow z hz
  obtain ⟨y, -, first, hf, -⟩ := TransGen.tail'_iff.mp hstarted
  exact (h z hstarted).1 (hs.active hforest hf hactive)

theorem Halted.step (hforest : ForestOk w) (hok : SweepOk w) (hs : ForestStep Done w w')
    (ha : NotCutOff w w') {id : ℕ} (h : Halted w id) : Halted w' id := by
  obtain ⟨first, hf⟩ := h.created
  refine ⟨⟨first, hs.created_some hforest hf⟩, fun hactive => h.inactive
    (hs.active hforest hf hactive), ?_⟩
  cases h.stake with
  | child p hp => exact .child p (hs.started hforest hp)
  | cancelled hc =>
    rcases hs.cancelled hforest hc with hc' | hnone
    · exact .cancelled hc'
    · have ⟨row, hrow, _⟩ := hc
      have hbelow := ha.deleted id (by rw [hrow]; exact Option.some_ne_none _) hnone (.inr hc)
      exact .gone hnone (hs.no_starts hforest hnone fun z hz => (hbelow z (.single hz)).2)
        (cleared_of_deleted hforest hs hbelow)
  | gone hrow hstarting hclear =>
    have hnone := hs.runs_none hforest hf hrow
    exact .gone hnone (hs.no_starts hforest hnone hstarting) (h.cleared hforest hok hs ha hclear)

theorem Swept.step (hforest : ForestOk w) (hok : SweepOk w) (hs : ForestStep Done w w')
    (ha : NotCutOff w w') {id : ℕ} (h : Swept w id) : Swept w' id :=
  ⟨h.toHalted.step hforest hok hs ha, h.toHalted.cleared hforest hok hs ha h.clear⟩

/-- The runs linked to a halted one are listed, or were gone through already. -/
def Listed (w : World) (id : ℕ) (ids : List ℕ) : Prop :=
  Halted w id ∧ ∀ z, w.Link id z → z ∈ ids ∨ Swept w z

theorem Listed.step (hforest : ForestOk w) (hok : SweepOk w) (hs : ForestStep Done w w')
    (ha : NotCutOff w w') {id : ℕ} {ids : List ℕ} (h : Listed w id ids) : Listed w' id ids := by
  refine ⟨h.1.step hforest hok hs ha, fun z hl => ?_⟩
  rcases hs.link_back hl with hl' | ⟨hstarted, hid, hwhy⟩
  · exact (h.2 z hl').imp_right (Swept.step hforest hok hs ha)
  · -- the start ended with the run halted, so that the new run is over
    obtain ⟨hnot, hclear⟩ := h.1.ended hok ha hstarted hid hl.2 hwhy
    have ⟨first, hf, _⟩ := hstarted
    exact .inr (Swept.step hforest hok hs ha ⟨⟨⟨first, hf⟩, hnot, .child id hstarted⟩, hclear⟩)

theorem Listed.swept {id : ℕ} {ids : List ℕ} (h : Listed w id ids)
    (hids : ∀ z ∈ ids, Swept w z) : Swept w id := by
  have hchild : ∀ z, w.Link id z → Swept w z := fun z hl => (h.2 z hl).elim (hids z) fun hz => hz
  refine ⟨h.1, fun z hz => ?_⟩
  rcases TransGen.head'_iff.mp hz with ⟨y, hy, hyz⟩
  rcases reflTransGen_iff_eq_or_transGen.mp hyz with rfl | hyz
  · exact (hchild z hy).inactive
  · exact (hchild y hy).clear z hyz

theorem ForestStep.returned_back (h : ForestStep Done w w') {id : ℕ}
    (hid : id ∈ w'.cancelReturned) : id ∈ w.cancelReturned ∨ Done id w := by
  cases h with
  | moved hm => exact .inl (hm.cancelReturned ▸ hid)
  | created _ _ hw =>
    subst hw
    exact .inl hid
  | ended _ _ _ _ _ _ hw =>
    subst hw
    exact .inl hid
  | deleted _ _ hw =>
    subst hw
    exact .inl hid
  | returned runId hdone hw =>
    subst hw
    rcases List.mem_cons.mp hid with rfl | hid
    · exact .inr hdone
    · exact .inl hid

/-- Every allowed commit keeps what is known of cancelled and deleted runs. -/
theorem SweepOk.step (hforest : ForestOk w) (hok : SweepOk w)
    (hs : ForestStep (fun id w => Swept w id) w w') (ha : NotCutOff w w') : SweepOk w' := by
  -- a run that loses its row now has nothing left below it
  have hlost : ∀ id, (∃ p, w.Started p id) → w.runs id ≠ none → w'.runs id = none →
      ∀ z, TransGen w.Started id z → ¬ w.Active z ∧ z ∉ w.starting :=
    fun id hp hrow hnone => ha.deleted id hrow hnone (.inl hp)
  constructor
  · intro id hid
    exact (hs.returned_back hid).elim (hok.returned id) (fun h => h) |>.step hforest hok hs ha
  · rintro id ⟨p, hp⟩ hnone
    rcases hs.started_back hp with hp' | ⟨-, hne, -⟩
    · by_cases hrow : w.runs id = none
      · exact (hok.gone id ⟨p, hp'⟩ hrow).step hforest hok hs ha
      · have ⟨first, hf, _⟩ := hp'
        have hbelow := hlost id ⟨p, hp'⟩ hrow hnone
        refine ⟨⟨⟨first, hs.created_some hforest hf⟩, ?_, .child p hp⟩,
          cleared_of_deleted hforest hs hbelow⟩
        rintro ⟨row, hrow', -⟩
        rw [hnone] at hrow'
        cases hrow'
    · exact absurd hnone hne
  · rintro p id hp hid ⟨q, hq⟩ hnone
    rcases hs.started_back hp with hp' | ⟨-, -, hne⟩
    · rcases hs.started_back hq with hq' | ⟨-, hne, -⟩
      · have ⟨first, hf, _⟩ := hp'
        rcases hs.starting_back hid with hid' | rfl
        · have hrow := hok.orphans p id hp' hid' ⟨q, hq'⟩
          exact (hlost p ⟨q, hq'⟩ hrow hnone id (.single hp')).2 hid'
        · exact (hforest.lt_of_created hf).ne rfl
      · exact hne hnone
    · exact hne hnone

end Stability

section Triples

def halted (id : ℕ) : Assertion sweepRules where
  Holds w := Halted w id
  stable hI hs ha h := h.step hI.1 hI.2 hs ha

def swept (done : ℕ → Prop) : Assertion sweepRules where
  Holds w := ∀ id, done id → Swept w id
  stable hI hs ha h := fun id hid => (h id hid).step hI.1 hI.2 hs ha

def listed (id : ℕ) (ids : List ℕ) : Assertion sweepRules where
  Holds w := Listed w id ids
  stable hI hs ha h := h.step hI.1 hI.2 hs ha

/-- At most `depth` generations can be below a run, the run included. -/
def World.Deep (w : World) (id depth : ℕ) : Prop :=
  ∃ first, w.created id = some first ∧ maxChildRunDepth < first.ancestorWorkflowIds.length + depth

def deep (id depth : ℕ) : Assertion sweepRules where
  Holds w := w.Deep id depth
  stable hI hs _ h := by
    obtain ⟨first, hf, hd⟩ := h
    exact ⟨first, hs.created_some hI.1 hf, hd⟩

def kids (id depth : ℕ) (children : List (ℕ × RunRow)) : Assertion sweepRules where
  Holds w := ∀ child ∈ children, w.Started id child.1 ∧ w.Deep child.1 depth ∧
    (child.2.status ∉ activeRunStatuses → ¬ w.Active child.1)
  stable hI hs ha h := by
    intro child hchild
    obtain ⟨hstarted, hdeep, hover⟩ := h child hchild
    have ⟨first, hf, _⟩ := hstarted
    exact ⟨hs.started hI.1 hstarted, (deep child.1 depth).stable hI hs ha hdeep,
      fun hstatus hactive => hover hstatus (hs.active hI.1 hf hactive)⟩

/-- A program that goes through a halted run and adds the runs it visits to those already seen. -/
def Sweeps (depth : ℕ) (cancelBelow : ℕ → List ℕ → Run ω (List ℕ)) : Prop :=
  ∀ id seen, sweepRules.Triple (halted id ⊓ deep id depth ⊓ swept fun s => s ∈ seen ∧ id < s)
    (cancelBelow id seen) fun seen' => swept fun s => s = id ∨ s ∈ seen' ∧ s ∉ seen

variable {depth : ℕ} {cancelBelow : ℕ → List ℕ → Run ω (List ℕ)}

/-- Going through one child that is no longer active, and then through the others. -/
theorem Sweeps.cons (h : Sweeps depth cancelBelow) {id : ℕ} {child : ℕ × RunRow}
    {rest : List (ℕ × RunRow)} {seen : List ℕ}
    (hrest : ∀ seen, sweepRules.Triple (kids id depth rest ⊓ swept fun s => s ∈ seen ∧ id < s)
      (cancelEach cancelBelow rest seen)
      fun seen' => swept fun s => s ∈ rest.map Prod.fst ∨ s ∈ seen' ∧ s ∉ seen) :
    sweepRules.Triple (startedBy child.1 id ⊓ allOver [child.1] ⊓
        (kids id depth (child :: rest) ⊓ swept fun s => s ∈ seen ∧ id < s))
      (cancelBelow child.1 (child.1 :: seen) >>= fun seen => cancelEach cancelBelow rest seen)
      fun seen' => swept fun s => s ∈ (child :: rest).map Prod.fst ∨ s ∈ seen' ∧ s ∉ seen := by
  have hbelow := (h child.1 (child.1 :: seen)).frame
    (kids id depth rest ⊓ swept fun s => s ∈ seen ∧ id < s)
  refine .bind (hbelow.pre ?_) fun seen₁ => ?_
  · rintro w hI ⟨⟨hstarted, hover⟩, hkids, hseen⟩
    obtain ⟨hcreated, hnot⟩ := hover child.1 List.mem_cons_self
    refine ⟨⟨⟨⟨hcreated, hnot, .child id hstarted⟩, (hkids child List.mem_cons_self).2.1⟩, ?_⟩,
      fun other hother => hkids other (List.mem_cons_of_mem _ hother), hseen⟩
    rintro s ⟨hs, hlt⟩
    rcases List.mem_cons.mp hs with rfl | hs
    · exact absurd hlt (lt_irrefl _)
    · exact hseen s ⟨hs, (Started.lt hI.1 hstarted).trans hlt⟩
  · have hothers := (hrest seen₁).frame
      (swept fun s => s = child.1 ∨ s ∈ seen₁ ∧ s ∉ child.1 :: seen)
    refine (hothers.pre ?_).post fun seen₂ => ?_
    · rintro w hI ⟨hnew, hkids, hseen⟩
      refine ⟨⟨hkids, fun s ⟨hs, hlt⟩ => ?_⟩, hnew⟩
      by_cases hold : s ∈ child.1 :: seen
      · rcases List.mem_cons.mp hold with he | hold
        · exact hnew s (.inl he)
        · exact hseen s ⟨hold, hlt⟩
      · exact hnew s (.inr ⟨hs, hold⟩)
    · rintro w hI ⟨hothers, hnew⟩ s hs
      rcases hs with hs | ⟨hs, hold⟩
      · rcases List.mem_cons.mp hs with he | hs
        · exact hnew s (.inl he)
        · exact hothers s (.inl hs)
      · by_cases hmid : s ∈ seen₁
        · by_cases he : s = child.1
          · exact hnew s (.inl he)
          · exact hnew s (.inr ⟨hmid, fun hmem => (List.mem_cons.mp hmem).elim he hold⟩)
        · exact hothers s (.inr ⟨hs, hmid⟩)

theorem cancelEach_sweeps (h : Sweeps depth cancelBelow) (id : ℕ) (children : List (ℕ × RunRow))
    (seen : List ℕ) :
    sweepRules.Triple (kids id depth children ⊓ swept fun s => s ∈ seen ∧ id < s)
      (cancelEach cancelBelow children seen)
      fun seen' => swept fun s => s ∈ children.map Prod.fst ∨ s ∈ seen' ∧ s ∉ seen := by
  induction children generalizing seen with
  | nil =>
    refine .pure fun w hI hw s hs => ?_
    rcases hs with hs | ⟨hs, hnot⟩
    · cases hs
    · exact absurd hs hnot
  | cons child rest ih =>
    unfold cancelEach
    split
    · -- seen before, so gone through: its id is greater than the one of its parent
      rename_i hmem
      refine (((ih seen).frame (swept fun s => s = child.1)).pre ?_).post fun seen' => ?_
      · rintro w hI ⟨hkids, hseen⟩
        refine ⟨⟨fun other hother => hkids other (List.mem_cons_of_mem _ hother), hseen⟩, ?_⟩
        rintro s rfl
        exact hseen _ ⟨hmem, Started.lt hI.1 (hkids child List.mem_cons_self).1⟩
      · rintro w hI ⟨hothers, hchild⟩ s hs
        rcases hs with hs | hs
        · rcases List.mem_cons.mp hs with he | hs
          · exact hchild s he
          · exact hothers s (.inl hs)
        · exact hothers s (.inr hs)
    · split
      · refine .bind ((cancelActiveRun_over.frame (kids id depth (child :: rest) ⊓
          swept fun s => s ∈ seen ∧ id < s)).pre ?_) fun _ => h.cons ih
        rintro w hI ⟨hkids, hseen⟩
        exact ⟨(hkids child List.mem_cons_self).1, hkids, hseen⟩
      · rename_i hstatus
        refine (h.cons ih).pre ?_
        rintro w hI ⟨hkids, hseen⟩
        obtain ⟨hstarted, -, hover⟩ := hkids child List.mem_cons_self
        refine ⟨⟨hstarted, fun other hother => ?_⟩, hkids, hseen⟩
        rw [List.mem_singleton.mp hother]
        obtain ⟨first, hf, -⟩ := hstarted
        exact ⟨⟨first, hf⟩, hover hstatus⟩

theorem mem_children {id childId : ℕ} {row : RunRow} (hok : ForestOk w) :
    (childId, row) ∈ ((List.range w.nextRunId).filterMap fun z => match w.runs z with
      | some row => if row.parentRunId = some id then some (z, row) else none
      | none => none) ↔ w.runs childId = some row ∧ row.parentRunId = some id := by
  simp only [List.mem_filterMap, List.mem_range]
  constructor
  · rintro ⟨z, -, hz⟩
    split at hz
    · rename_i row' hrow'
      split at hz
      · rename_i hp
        cases hz
        exact ⟨hrow', hp⟩
      · cases hz
    · cases hz
  · rintro ⟨hrow, hp⟩
    exact ⟨childId, hok.lt_of_row hrow, by rw [hrow]; simp [hp]⟩

/-- Listing the runs that a halted run started. -/
theorem listChildren_triple (id depth : ℕ) :
    sweepRules.Triple (halted id ⊓ deep id (depth + 1)) (listChildren (ω := ω) id)
      fun children => listed id (children.map Prod.fst) ⊓ kids id depth children := by
  refine .get fun w hI hw => ⟨.moved (.refl w), ?_⟩
  obtain ⟨hhalted, first, hf, hdeep⟩ := hw
  -- the row of a listed run still has its link
  have hstarted : ∀ childId row, w.runs childId = some row → row.parentRunId = some id →
      w.Started id childId := by
    intro childId row hrow hp
    obtain ⟨first', hf', hof⟩ := hI.1.rows childId row hrow
    rcases hof.parent with he | ⟨he, -⟩
    · exact ⟨first', hf', he ▸ hp⟩
    · rw [he] at hp
      cases hp
  refine ⟨⟨hhalted, fun z hl => ?_⟩, ?_⟩
  · have ⟨⟨first', hf', hp'⟩, hdone⟩ := hl
    cases hrow : w.runs z with
    | none => exact .inr (hI.2.gone z ⟨id, hl.1⟩ hrow)
    | some row =>
      obtain ⟨first'', hf'', hof⟩ := hI.1.rows z row hrow
      cases hf'.symm.trans hf''
      rcases hof.parent with he | ⟨-, p, hp, hgone⟩
      · exact .inl (List.mem_map.mpr ⟨(z, row), (mem_children hI.1).mpr ⟨hrow, he.trans hp'⟩, rfl⟩)
      · -- the link was cleared when the run above was deleted, with nothing left below it
        cases hp'.symm.trans hp
        have hclear : w.Cleared id := by
          cases hhalted.stake with
          | child q hq => exact (hI.2.gone id ⟨q, hq⟩ hgone).clear
          | cancelled hc =>
            obtain ⟨row, hrow', -⟩ := hc
            rw [hgone] at hrow'
            cases hrow'
          | gone _ _ hclear => exact hclear
        exact .inr ⟨⟨⟨first', hf'⟩, hclear z (.single hl), .child id hl.1⟩,
          fun y hy => hclear y (.head hl hy)⟩
  · rintro ⟨childId, row⟩ hmem
    obtain ⟨hrow, hp⟩ := (mem_children hI.1).mp hmem
    have hchild := hstarted childId row hrow hp
    have ⟨first', hf', hp'⟩ := hchild
    obtain ⟨-, parent, hparent, hanc⟩ := (hI.1.chains childId first' hf').child id hp'
    cases hf.symm.trans hparent
    refine ⟨hchild, ⟨first', hf', ?_⟩, fun hstatus hactive => ?_⟩
    · rw [hanc, List.length_append, List.length_singleton]
      omega
    · obtain ⟨row', hrow', hactive⟩ := hactive
      cases hrow.symm.trans hrow'
      exact hstatus hactive

theorem cancelChildRuns_sweeps (depth : ℕ) : Sweeps (ω := ω) depth (cancelChildRuns depth) := by
  induction depth with
  | zero =>
    intro id seen
    refine .pure ?_
    rintro w hI ⟨⟨-, first, hf, hdeep⟩, -⟩
    have hdepth := (hI.1.chains id first hf).depth
    omega
  | succ depth ih =>
    intro id seen
    refine .bind ((listChildren_triple id depth).frame _) fun children => ?_
    refine (((cancelEach_sweeps ih id children seen).frame
      (listed id (children.map Prod.fst))).pre ?_).post fun seen' => ?_
    · rintro w hI ⟨⟨hlisted, hkids⟩, hseen⟩
      exact ⟨⟨hkids, hseen⟩, hlisted⟩
    · rintro w hI ⟨hdone, hlisted⟩ s hs
      rcases hs with rfl | hs
      · exact Listed.swept hlisted fun z hz => hdone z (.inl hz)
      · exact hdone s (.inr hs)

/-- A run that a cancel has marked is halted. -/
theorem cancelActiveRun_halted (runId : ℕ) :
    sweepRules.Triple ⊤ (cancelActiveRun (ω := ω) runId)
      fun won => if won then halted runId else ⊤ := by
  have hmark : sweepRules.Triple ⊤ (transitionRun (ω := ω) runId .cancelled)
      fun won => if won then halted runId else ⊤ := by
    refine .update fun w hI _ => ?_
    have hm : MovesRows w (w.transition runId .cancelled none {}).2 :=
      transition_movesRows w runId {} fun _ h => by cases h
    refine ⟨.moved hm, fun _ => ?_⟩
    rcases w.transition_cases runId .cancelled none {} with ht | ⟨row, hrow, -, ht⟩
    · rw [ht]
      trivial
    · obtain ⟨first, hf, -⟩ := hI.1.rows runId row hrow
      have hnot : ¬ (w.transition runId .cancelled none {}).2.Active runId :=
        transition_not_active w runId {} (by decide)
      rw [ht] at hm hnot ⊢
      refine ⟨⟨first, by rw [hm.created]; exact hf⟩, hnot,
        .cancelled ⟨row.move .cancelled {}, ?_, row.move_status _ _⟩⟩
      simp only [World.setRun, Function.update_self]
  refine .bind hmark fun won => ?_
  cases won with
  | true =>
    exact (Rules.Triple.always (lifecycle_forest.settleCancel runId true)).post
      fun r => by cases r <;> first | exact le_rfl | exact le_top
  | false => exact .bind (.always (lifecycle_forest.get _ fun _ _ => rfl)) fun _ => .pure le_top

/-- A cancel that returns has gone through its run. -/
theorem cancelRun_sweeps (runId : ℕ) :
    sweepRules.Triple ⊤ (do if ← cancelRun runId then returnCancel runId : Run ω Unit)
      fun _ => ⊤ := by
  have hcancel : sweepRules.Triple ⊤ (cancelRun (ω := ω) runId)
      fun returned => if returned then swept fun s => s = runId else ⊤ := by
    refine .bind (.always (lifecycle_forest.get _ fun _ _ => rfl)) fun found => ?_
    cases found with
    | none => exact .pure le_top
    | some row =>
      dsimp only
      split
      · exact .pure le_top
      · refine .bind (cancelActiveRun_halted runId) fun won => ?_
        cases won with
        | false => exact .pure le_top
        | true =>
          have hall : sweepRules.Triple (halted runId) (cancelAllChildRuns (ω := ω) runId)
              fun _ => swept fun s => s = runId := by
            refine .bind ((cancelChildRuns_sweeps (maxChildRunDepth + 1) runId [runId]).pre ?_)
              fun seen => .pure fun w hI hw s hs => hw s (.inl hs)
            rintro w hI hw
            obtain ⟨first, hf⟩ := hw.created
            refine ⟨⟨hw, first, hf, by omega⟩, ?_⟩
            rintro s ⟨hs, hlt⟩
            rw [List.mem_singleton.mp hs] at hlt
            exact absurd hlt (lt_irrefl _)
          exact .bind hall fun _ => .pure le_rfl
  refine .bind hcancel fun returned => ?_
  cases returned with
  | false => exact .pure le_top
  | true => exact .update fun w _ hw => ⟨.returned runId (hw runId rfl) rfl, fun _ => trivial⟩

end Triples

section Runs

theorem sweepRules_governs (d : Deployment ω) : sweepRules.Governs (forestSystem d) :=
  forest_governs d (fun hforest hok hs ha => hok.step hforest hs ha) cancelRun_sweeps

theorem sweepOk_start (canvases : ℕ → Option Canvas) : SweepOk { canvases } := by
  constructor
  · intro id hid
    cases hid
  · rintro id ⟨p, first, hf, -⟩
    cases hf
  · rintro p id ⟨first, hf, -⟩
    cases hf

/-- Cancelling a run leaves no active run below it. In every run of the system in which no start
and no deletion cuts active runs off, once the cancel of a run has returned and no start of a run is
under way, no run that it started, directly or through others, is pending, running or paused. -/
theorem cancel_leaves_none_active (d : Deployment ω) {canvases : ℕ → Option Canvas}
    {es : List (Event ForestLaunch (Answer ω))} {c : Config (Answer ω) World}
    (h : (forestSystem d).exec (.idle { canvases }) es = some c)
    (ha : (forestSystem d).AllowedRun (fun _ => NotCutOff) (.idle { canvases }) es) {runId : ℕ}
    (hreturned : runId ∈ c.state.cancelReturned) (hquiet : c.state.starting = []) :
    ∀ id, TransGen c.state.Started runId id → ¬ c.state.Active id := by
  have hok := (sweepRules_governs d).exec ⟨forestOk_start canvases, sweepOk_start canvases⟩ h ha
  intro id hid
  have hlinks : ∀ p z, c.state.Started p z → c.state.Link p z := by
    intro p z hs
    exact ⟨hs, by rw [hquiet]; exact List.not_mem_nil⟩
  exact (hok.2.returned runId hreturned).clear id (TransGen.mono hlinks _ _ hid)

end Runs

section Examples

/-- A run is cancelled between the two looks of a call that starts a run for it. The new run has
started another one by the time the call looks again. -/
def lateStart : List (Event ForestLaunch (Answer Unit)) :=
  .launch 0 (.run (.triggerRun { workflowId := 1, uuid := "u", hatchetRunId := "h" })) ::
    forestSteps 0 6 ++
  .launch 1 (.run (.startChildRun 0 2 childRun)) :: forestSteps 1 2 ++
  .launch 2 (.run (.cancelRun 0)) :: forestSteps 2 7 ++ forestSteps 1 5 ++
  .launch 3 (.run (.startChildRun 1 3 childRun)) :: forestSteps 3 8 ++ forestSteps 1 6

/-- The last of the three runs is active although the cancel of the first one has returned and
both starts are over. -/
theorem lateStart_leaves_active :
    ∃ c, (forestSystem demoDeployment).exec (.idle {}) lateStart = some c ∧
      0 ∈ c.state.cancelReturned ∧ c.state.starting = [] ∧
      TransGen c.state.Started 0 2 ∧ c.state.Active 2 := by
  have hrun : (((forestSystem demoDeployment).exec (.idle {}) lateStart).map fun c =>
      (c.state.cancelReturned, c.state.starting, (c.state.runs 2).map RunRow.status)) =
      some ([0], [], some .pending) := by decide +kernel
  have hlinks : (((forestSystem demoDeployment).exec (.idle {}) lateStart).map fun c =>
      ((c.state.created 1).map RunRow.parentRunId, (c.state.created 2).map RunRow.parentRunId)) =
      some (some (some 0), some (some 1)) := by decide +kernel
  obtain ⟨c, hc, hrun⟩ := Option.map_eq_some_iff.mp hrun
  rw [hc, Option.map_some, Option.some.injEq] at hlinks
  simp only [Prod.mk.injEq] at hrun hlinks
  obtain ⟨hreturned, hquiet, hstatus⟩ := hrun
  obtain ⟨hone, htwo⟩ := hlinks
  obtain ⟨row, hrow, hs⟩ := Option.map_eq_some_iff.mp hstatus
  refine ⟨c, hc, by simp [hreturned], hquiet, .tail (.single (Option.map_eq_some_iff.mp hone))
    (Option.map_eq_some_iff.mp htwo), row, hrow, by simp [hs, activeRunStatuses]⟩

def cancelledRoot : List (Event ForestLaunch (Answer Unit)) :=
  .launch 0 (.run (.triggerRun { workflowId := 1, uuid := "u", hatchetRunId := "h" })) ::
    forestSteps 0 6 ++
  .launch 1 (.run (.startChildRun 0 2 childRun)) :: forestSteps 1 8 ++
  .launch 2 (.run (.startChildRun 1 3 childRun)) :: forestSteps 2 8 ++
  .launch 3 (.run (.cancelRun 0)) :: forestSteps 3 17

def startsInTime (w w' : World) : Bool :=
  (w.starting.all fun id => id ∈ w'.starting || ((w.created id).bind RunRow.parentRunId).all
    fun p => (w.runs p).any fun row => row.status ∈ activeRunStatuses) &&
  (List.range w.nextRunId).all fun id => (w.runs id).isNone || (w'.runs id).isSome

theorem notCutOff_of_startsInTime (hok : ForestOk w) (h : startsInTime w w' = true) :
    NotCutOff w w' := by
  simp only [startsInTime, Bool.and_eq_true, List.all_eq_true, Bool.or_eq_true, decide_eq_true_eq,
    List.mem_range] at h
  constructor
  · rintro p id ⟨first, hf, hp⟩ hid hdone -
    left
    have hactive := (h.1 id hid).resolve_left hdone
    simp only [hf, Option.bind_some, hp, Option.all_some, Option.any_eq_true,
      decide_eq_true_eq] at hactive
    exact hactive
  · intro id hrow hnone
    obtain ⟨row, hrow'⟩ := Option.ne_none_iff_exists'.mp hrow
    have hkept := h.2 id (hok.lt_of_row hrow')
    rw [hrow', hnone] at hkept
    rcases hkept with hkept | hkept <;> cases hkept

theorem cancelledRoot_clears :
    ∃ c, (forestSystem demoDeployment).exec (.idle {}) cancelledRoot = some c ∧
      0 ∈ c.state.cancelReturned ∧ c.state.starting = [] ∧ TransGen c.state.Started 0 2 ∧
      ∀ id, TransGen c.state.Started 0 id → ¬ c.state.Active id := by
  have hrun : (((forestSystem demoDeployment).exec (.idle {}) cancelledRoot).map fun c =>
      (c.state.cancelReturned, c.state.starting)) = some ([0], []) := by decide +kernel
  have hlinks : (((forestSystem demoDeployment).exec (.idle {}) cancelledRoot).map fun c =>
      ((c.state.created 1).map RunRow.parentRunId, (c.state.created 2).map RunRow.parentRunId)) =
      some (some (some 0), some (some 1)) := by decide +kernel
  have hcheck : (forestSystem demoDeployment).checkRun (fun _ => startsInTime) (.idle {})
      cancelledRoot = true := by decide +kernel
  obtain ⟨c, hc, hrun⟩ := Option.map_eq_some_iff.mp hrun
  rw [hc, Option.map_some, Option.some.injEq] at hlinks
  simp only [Prod.mk.injEq] at hrun hlinks
  obtain ⟨hreturned, hquiet⟩ := hrun
  have hmem : 0 ∈ c.state.cancelReturned := by simp [hreturned]
  refine ⟨c, hc, hmem, hquiet, .tail (.single (Option.map_eq_some_iff.mp hlinks.1))
    (Option.map_eq_some_iff.mp hlinks.2),
    cancel_leaves_none_active demoDeployment hc ?_ hmem hquiet⟩
  have hforest := (plainRules_governs demoDeployment).steps
    ⟨forestOk_start fun _ => none, trivial⟩ (allowedRun_true cancelledRoot)
  exact (hforest.and (System.allowedRun_of_check (fun _ _ _ h => h) hcheck)).imp
    fun _ w w' h => notCutOff_of_startsInTime h.1.1.1 h.2

end Examples

end Manus
