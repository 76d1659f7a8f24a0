import Mathlib.Tactic.Common

/-! # Runs of a step function

A step function says what a move does, or that it cannot be made. A test looks at
the state before a move; it is a condition on a whole run when every move of the
run passes it.
-/

namespace Manus

variable {σ μ : Type} (step : σ → μ → Option σ)

/-- The state after some moves. -/
def runSteps (s : σ) (moves : List μ) : Option σ := moves.foldlM step s

/-- Every move of a run passes the test. -/
def along (test : σ → μ → Bool) : σ → List μ → Bool
  | _, [] => true
  | s, move :: moves => test s move && (step s move).all fun s' => along test s' moves

variable {step} {test : σ → μ → Bool} {s s' : σ}

theorem runSteps_induction {P : σ → Prop}
    (hstep : ∀ s move s', test s move = true → step s move = some s' → P s → P s')
    {moves : List μ} (hrun : runSteps step s moves = some s')
    (htest : along step test s moves = true) (h : P s) : P s' := by
  induction moves generalizing s with
  | nil =>
    cases hrun
    exact h
  | cons move moves ih =>
    obtain ⟨s₁, h₁, hrest⟩ := Option.bind_eq_some_iff.mp hrun
    simp only [along, h₁, Option.all_some, Bool.and_eq_true] at htest
    exact ih hrest htest.2 (hstep s move s₁ htest.1 h₁ h)

theorem along_append {moves moves' : List μ} (hrun : runSteps step s moves = some s')
    (h : along step test s (moves ++ moves') = true) :
    along step test s moves = true ∧ along step test s' moves' = true := by
  induction moves generalizing s with
  | nil =>
    cases hrun
    exact ⟨rfl, h⟩
  | cons move moves ih =>
    obtain ⟨s₁, h₁, hrest⟩ := Option.bind_eq_some_iff.mp hrun
    simp only [List.cons_append, along, h₁, Option.all_some, Bool.and_eq_true] at h ⊢
    exact ⟨⟨h.1, (ih hrest h.2).1⟩, (ih hrest h.2).2⟩

theorem along_true {moves : List μ} : along step (fun _ _ => true) s moves = true := by
  induction moves generalizing s with
  | nil => rfl
  | cons move moves ih => simp [along, ih]

theorem runSteps_invariant {P : σ → Prop} (hstep : ∀ s move s', step s move = some s' → P s → P s')
    {moves : List μ} (hrun : runSteps step s moves = some s') (h : P s) : P s' :=
  runSteps_induction (fun s move s' _ => hstep s move s') hrun along_true h

theorem runSteps_cons {move : μ} (h : step s move = some s') (moves : List μ) :
    runSteps step s (move :: moves) = runSteps step s' moves := by
  rw [runSteps, List.foldlM_cons, h]
  rfl

theorem along_cons {move : μ} (h : step s move = some s') (htest : test s move = true)
    (moves : List μ) : along step test s (move :: moves) = along step test s' moves := by
  rw [along, htest, Bool.true_and, h, Option.all_some]

theorem runSteps_append (moves moves' : List μ) : runSteps step s (moves ++ moves') =
    (runSteps step s moves).bind fun s' => runSteps step s' moves' :=
  List.foldlM_append

theorem along_iff {moves : List μ} : along step test s moves = true ↔
    ∀ before move after s', before ++ move :: after = moves →
      runSteps step s before = some s' → test s' move = true := by
  constructor
  · rintro h before move after s' rfl hrun
    exact (Bool.and_eq_true_iff.mp (along_append hrun h).2).1
  · intro h
    induction moves generalizing s with
    | nil => rfl
    | cons move moves ih =>
      refine Bool.and_eq_true_iff.mpr ⟨h [] move moves s rfl rfl, ?_⟩
      rw [Option.all_eq_true]
      intro s₁ h₁
      refine ih fun before move' after s' hmoves hrun => ?_
      refine h (move :: before) move' after s' (congrArg _ hmoves) ?_
      exact Option.bind_eq_some_iff.mpr ⟨s₁, h₁, hrun⟩

section Conditions

variable (step) in
/-- Every move of a run is made in a state that meets its condition. -/
def Along (Meets : σ → μ → Prop) : σ → List μ → Prop
  | _, [] => True
  | s, move :: moves => Meets s move ∧ ∀ s', step s move = some s' → Along Meets s' moves

variable {Meets : σ → μ → Prop}

theorem Along.append {moves moves' : List μ} (hrun : runSteps step s moves = some s')
    (h : Along step Meets s (moves ++ moves')) :
    Along step Meets s moves ∧ Along step Meets s' moves' := by
  induction moves generalizing s with
  | nil =>
    cases hrun
    exact ⟨trivial, h⟩
  | cons move moves ih =>
    obtain ⟨s₁, h₁, hrest⟩ := Option.bind_eq_some_iff.mp hrun
    have happend := ih hrest (h.2 s₁ h₁)
    constructor
    · refine ⟨h.1, fun s₂ h₂ => ?_⟩
      rw [h₁] at h₂
      cases h₂
      exact happend.1
    · exact happend.2

theorem Along.invariant {P : σ → Prop}
    (hstep : ∀ s move s', Meets s move → step s move = some s' → P s → P s')
    {moves : List μ} (hrun : runSteps step s moves = some s') (h : Along step Meets s moves)
    (hs : P s) : P s' := by
  induction moves generalizing s with
  | nil =>
    cases hrun
    exact hs
  | cons move moves ih =>
    obtain ⟨s₁, h₁, hrest⟩ := Option.bind_eq_some_iff.mp hrun
    exact ih hrest (h.2 s₁ h₁) (hstep s move s₁ h.1 h₁ hs)

theorem Along.cons {move : μ} {moves : List μ} (hstep : step s move = some s')
    (hmeets : Meets s move) (h : Along step Meets s' moves) :
    Along step Meets s (move :: moves) := by
  constructor
  · exact hmeets
  · intro s₁ h₁
    rw [hstep] at h₁
    cases h₁
    exact h

theorem Along.and {Q : μ → Prop} {moves : List μ} (h : Along step Meets s moves)
    (hmoves : ∀ move ∈ moves, Q move) :
    Along step (fun s move => Meets s move ∧ Q move) s moves := by
  induction moves generalizing s with
  | nil => trivial
  | cons move moves ih =>
    constructor
    · exact ⟨h.1, hmoves move List.mem_cons_self⟩
    · intro s₁ h₁
      exact ih (h.2 s₁ h₁) fun m hm => hmoves m (List.mem_cons_of_mem move hm)

end Conditions

end Manus
