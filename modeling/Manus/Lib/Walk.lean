import Manus.Lib.Except

/-! # Walks along a path

A path is walked segment by segment, each segment leading from one value to the next. A
step may find nothing, which ends the walk, or raise.
-/

namespace Manus

variable {σ α ε : Type}

/-- The value at the end of a path, unless something on the way is not there. -/
def walk (step : σ → α → Except ε (Option α)) : List σ → α → Except ε (Option α)
  | [], value => .ok (some value)
  | segment :: rest, value => do
    match ← step segment value with
    | some next => walk step rest next
    | none => return none

/-- A path leads from one value to another. -/
inductive Reaches (leads : σ → α → α → Prop) : List σ → α → α → Prop where
  | here (value : α) : Reaches leads [] value value
  | step {segment : σ} {rest : List σ} {value next last : α} (hnext : leads segment value next)
      (h : Reaches leads rest next last) : Reaches leads (segment :: rest) value last

/-- A path leads to a value where its next segment cannot be followed. -/
inductive Obstructed (leads : σ → α → α → Prop) (stuck : σ → α → Prop) :
    List σ → α → Prop where
  | here {segment : σ} {value : α} (rest : List σ) (h : stuck segment value) :
      Obstructed leads stuck (segment :: rest) value
  | step {segment : σ} {rest : List σ} {value next : α} (hnext : leads segment value next)
      (h : Obstructed leads stuck rest next) : Obstructed leads stuck (segment :: rest) value

section Steps

variable {step : σ → α → Except ε (Option α)} {leads : σ → α → α → Prop}
  {stuck : σ → α → Prop} {path : List σ} {value last : α}

@[simp] theorem walk_nil : walk step [] value = .ok (some value) := rfl

theorem walk_cons_some {segment : σ} {next : α} (h : step segment value = .ok (some next)) :
    walk step (segment :: path) value = walk step path next := by
  rw [walk, h]
  rfl

theorem walk_cons_none {segment : σ} (h : step segment value = .ok none) :
    walk step (segment :: path) value = .ok none := by
  rw [walk, h]
  rfl

theorem walk_cons_error {segment : σ} {e : ε} (h : step segment value = .error e) :
    walk step (segment :: path) value = .error e := by
  rw [walk, h]
  rfl

/-- A walk ends at the value that its path leads to. -/
theorem walk_eq_some_iff
    (hleads : ∀ segment ∈ path, ∀ value next,
      step segment value = .ok (some next) ↔ leads segment value next) :
    walk step path value = .ok (some last) ↔ Reaches leads path value last := by
  induction path generalizing value with
  | nil =>
    constructor
    · intro h
      obtain rfl := Option.some.inj (Except.ok.inj h)
      exact .here _
    · rintro ⟨⟩
      rfl
  | cons segment path ih =>
    have hstep := hleads segment List.mem_cons_self
    have ih := fun value =>
      @ih value fun segment hmem => hleads segment (List.mem_cons_of_mem _ hmem)
    constructor
    · intro h
      obtain ⟨next, hnext, h⟩ := bind_eq_ok.mp h
      cases next with
      | none => cases h
      | some next => exact .step ((hstep _ _).mp hnext) ((ih _).mp h)
    · rintro (_ | ⟨hnext, h⟩)
      rw [walk_cons_some ((hstep _ _).mpr hnext)]
      exact (ih _).mpr h

/-- A walk raises where its path is obstructed, and nowhere else. -/
theorem walk_error_iff
    (hleads : ∀ segment ∈ path, ∀ value next,
      step segment value = .ok (some next) ↔ leads segment value next)
    (hstuck : ∀ segment ∈ path, ∀ value,
      (∃ e, step segment value = .error e) ↔ stuck segment value) :
    (∃ e, walk step path value = .error e) ↔ Obstructed leads stuck path value := by
  induction path generalizing value with
  | nil =>
    constructor
    · rintro ⟨e, h⟩
      cases h
    · rintro ⟨⟩
  | cons segment path ih =>
    have hstep := hleads segment List.mem_cons_self
    have herror := hstuck segment List.mem_cons_self
    have ih := fun value =>
      @ih value (fun segment hmem => hleads segment (List.mem_cons_of_mem _ hmem))
        (fun segment hmem => hstuck segment (List.mem_cons_of_mem _ hmem))
    constructor
    · rintro ⟨e, h⟩
      cases hnext : step segment value with
      | error e => exact .here _ ((herror _).mp ⟨e, hnext⟩)
      | ok next =>
        cases next with
        | none =>
          rw [walk_cons_none hnext] at h
          cases h
        | some next =>
          rw [walk_cons_some hnext] at h
          exact .step ((hstep _ _).mp hnext) ((ih _).mp ⟨e, h⟩)
    · rintro (⟨-, h⟩ | ⟨hnext, h⟩)
      · obtain ⟨e, he⟩ := (herror _).mpr h
        exact ⟨e, walk_cons_error he⟩
      · rw [walk_cons_some ((hstep _ _).mpr hnext)]
        exact (ih _).mpr h

end Steps

end Manus
