import Manus.Lib.System

/-! # Threads that leave no trace

A map of states erases what one thread left behind. When the actions of all
other threads commute with the map and the thread itself changes nothing but
what the map erases, a run can be repeated without the thread.
-/

namespace Manus

variable {ι ω σ α β δ : Type} {e : σ → σ} {i : ℕ}

namespace Prog

/-- Every action the program takes as another thread than `i` commutes with the map. -/
def Commutes (e : σ → σ) (i : ℕ) : Prog ω σ α → Prop
  | ret _ => True
  | act f next =>
    (∀ t s, t.thread ≠ i → f t (e s) = (f t s).map fun r => (r.1, e r.2)) ∧
      ∀ x, (next x).Commutes e i

theorem Commutes.pure (a : α) : (pure a : Prog ω σ α).Commutes e i := trivial

theorem Commutes.bind {p : Prog ω σ α} {k : α → Prog ω σ β} (h : p.Commutes e i)
    (hk : ∀ a, (k a).Commutes e i) : (p >>= k).Commutes e i := by
  induction p with
  | ret a => exact hk a
  | act f next ih => exact ⟨h.1, fun x => ih x (h.2 x)⟩

theorem Commutes.map {p : Prog ω σ α} (h : p.Commutes e i) (f : α → β) :
    (f <$> p).Commutes e i := by
  rw [map_eq_pure_bind]
  exact h.bind fun a => .pure (f a)

theorem Commutes.lift {f : Action ω σ α}
    (h : ∀ t s, t.thread ≠ i → f t (e s) = (f t s).map fun r => (r.1, e r.2)) :
    (Prog.lift f).Commutes e i := ⟨h, fun _ => trivial⟩

theorem Commutes.update {f : σ → α × σ} (h : ∀ s, f (e s) = ((f s).1, e (f s).2)) :
    (Prog.update f : Prog ω σ α).Commutes e i :=
  .lift fun _ s _ => congrArg some (h s)

theorem Commutes.get {f : σ → α} (h : ∀ s, f (e s) = f s) :
    (Prog.get f : Prog ω σ α).Commutes e i :=
  .update fun s => by rw [h]

theorem Commutes.par {p : Prog ω σ α} {q : Prog ω σ β} (hp : p.Commutes e i)
    (hq : q.Commutes e i) : (p.par q).Commutes e i := by
  induction p generalizing q with
  | ret a => exact hq.map _
  | act f next ih =>
    induction q with
    | ret b => exact ⟨hp.1, fun x => ih x (hp.2 x) hq⟩
    | act f₂ next₂ ih₂ =>
      refine ⟨fun t s ht => ?_, ?_⟩
      · unfold eitherAction
        split
        · rw [hp.1 t.down s ht]
          cases f t.down s <;> rfl
        · rw [hq.1 t.down s ht]
          cases f₂ t.down s <;> rfl
      · rintro (x | y)
        · exact ih x (hp.2 x) hq
        · exact ih₂ y (hq.2 y)

theorem Commutes.gather {l : List (Prog ω σ α)} (h : ∀ p ∈ l, p.Commutes e i) :
    (Prog.gather l).Commutes e i := by
  induction l with
  | nil => trivial
  | cons p l ih =>
    exact ((h p List.mem_cons_self).par (ih fun q hq => h q (List.mem_cons_of_mem _ hq))).map _

end Prog

/-- The thread an event belongs to. -/
def Event.thread : Event ι ω → ℕ
  | .launch thread _ => thread
  | .step tick => tick.thread
  | .abort thread _ => thread

/-- The task commutes with the map, and so does what may run in its place. -/
def Task.Commutes (e : σ → σ) (i : ℕ) (task : Task ω σ) : Prop :=
  task.prog.Commutes e i ∧ ∀ p ∈ task.handlers, p.Commutes e i

namespace Config

/-- The configuration without a thread. -/
def erase (c : Config ω σ) (e : σ → σ) (i : ℕ) : Config ω σ :=
  ⟨Function.update c.threads i none, e c.state⟩

theorem erase_threads (c : Config ω σ) {j : ℕ} (h : j ≠ i) :
    (c.erase e i).threads j = c.threads j := Function.update_of_ne h _ _

theorem erase_put (c : Config ω σ) {j : ℕ} (h : j ≠ i) (task : Task ω σ) (s : σ) :
    (c.put j task s).erase e i = (c.erase e i).put j task (e s) := by
  simp only [erase, put, Function.update_comm h]

theorem erase_put_self (c : Config ω σ) (task : Task ω σ) {s : σ} (h : e s = e c.state) :
    (c.put i task s).erase e i = c.erase e i := by
  simp only [erase, put, Function.update_idem, h]

/-- All running tasks commute with the map. -/
def Commutes (c : Config ω σ) (e : σ → σ) (i : ℕ) : Prop :=
  ∀ j task, c.threads j = some task → task.Commutes e i

theorem Commutes.put {c : Config ω σ} (h : c.Commutes e i) {j : ℕ} {task : Task ω σ} {s : σ}
    (ht : task.Commutes e i) : (c.put j task s).Commutes e i := by
  intro k other hk
  by_cases hkj : k = j
  · subst hkj
    rw [put_self] at hk
    cases hk
    exact ht
  · rw [put_of_ne c hkj] at hk
    exact h k other hk

end Config

/-- Whatever is launched commutes with the map. -/
structure System.Commutes (sys : System ι ω σ) (e : σ → σ) (i : ℕ) : Prop where
  start : ∀ what s, sys.start what (e s) = (sys.start what s).map fun r => (r.1, e r.2)
  tasks : ∀ what s task s', sys.start what s = some (task, s') → task.Commutes e i

namespace System

variable {sys : System ι ω σ} {c c' : Config ω σ}

theorem Commutes.next (h : sys.Commutes e i) (hc : c.Commutes e i) {ev : Event ι ω}
    (he : sys.next c ev = some c') : c'.Commutes e i := by
  rcases next_cases he with ⟨j, what, task, s', rfl, -, hs, rfl⟩ |
    ⟨t, _, f, k, handlers, x, s', rfl, hth, -, rfl⟩ | ⟨j, n, task, p, rfl, hth, hp, rfl⟩
  · exact hc.put (h.tasks what _ _ _ hs)
  · obtain ⟨hprog, hhandlers⟩ := hc _ _ hth
    exact hc.put ⟨hprog.2 x, hhandlers⟩
  · exact hc.put ⟨(hc _ _ hth).2 p hp, fun q hq => (nomatch hq)⟩

theorem Commutes.exec (h : sys.Commutes e i) (hc : c.Commutes e i) {es : List (Event ι ω)}
    (he : sys.exec c es = some c') : c'.Commutes e i := by
  induction es generalizing c with
  | nil =>
    cases he
    exact hc
  | cons ev es ih =>
    obtain ⟨c₁, h₁, he⟩ := Option.bind_eq_some_iff.mp he
    exact ih (h.next hc h₁) he

/-- An event of another thread can happen without the thread, in the same way. -/
theorem Commutes.next_erase (h : sys.Commutes e i) (hc : c.Commutes e i) {ev : Event ι ω}
    (hne : ev.thread ≠ i) :
    sys.next (c.erase e i) ev = (sys.next c ev).map fun c' => c'.erase e i := by
  cases ev with
  | launch j what =>
    have hj : j ≠ i := hne
    simp only [System.next, c.erase_threads hj]
    split
    · rfl
    · rw [show (c.erase e i).state = e c.state from rfl, h.start]
      cases sys.start what c.state with
      | none => rfl
      | some r => exact congrArg some (c.erase_put hj r.1 r.2).symm
  | step t =>
    have hj : t.thread ≠ i := hne
    simp only [System.next, c.erase_threads hj]
    cases hth : c.threads t.thread with
    | none => rfl
    | some task =>
      obtain ⟨prog, handlers⟩ := task
      cases prog with
      | ret a => rfl
      | act f k =>
        dsimp only
        rw [show (c.erase e i).state = e c.state from rfl, (hc _ _ hth).1.1 t c.state hj]
        cases f t c.state with
        | none => rfl
        | some r => exact congrArg some (c.erase_put hj ⟨k r.1, handlers⟩ r.2).symm
  | abort j n =>
    have hj : j ≠ i := hne
    simp only [System.next, c.erase_threads hj]
    cases hth : c.threads j with
    | none => rfl
    | some task =>
      obtain ⟨prog, handlers⟩ := task
      cases prog with
      | ret a => rfl
      | act f k =>
        dsimp only
        cases handlers[n]? with
        | none => rfl
        | some p => exact congrArg some (c.erase_put hj ⟨p, []⟩ c.state).symm

theorem erase_next {ev : Event ι ω} (he : sys.next c ev = some c') (hi : ev.thread = i)
    (hs : e c'.state = e c.state) : c'.erase e i = c.erase e i := by
  rcases next_cases he with ⟨j, what, task, s', rfl, -, -, rfl⟩ |
    ⟨t, _, f, k, handlers, x, s', rfl, -, -, rfl⟩ | ⟨j, n, task, p, rfl, -, -, rfl⟩
  all_goals
    obtain rfl := hi
    exact c.erase_put_self _ hs

theorem Commutes.exec_erase (h : sys.Commutes e i) (hc : c.Commutes e i) {es : List (Event ι ω)}
    (hne : ∀ ev ∈ es, ev.thread ≠ i) :
    sys.exec (c.erase e i) es = (sys.exec c es).map fun c' => c'.erase e i := by
  induction es generalizing c with
  | nil => rfl
  | cons ev es ih =>
    simp only [System.exec, h.next_erase hc (hne ev List.mem_cons_self)]
    cases hn : sys.next c ev with
    | none => rfl
    | some c₁ => exact ih (h.next hc hn) fun ev' hev' => hne ev' (List.mem_cons_of_mem _ hev')

theorem Commutes.exec_without (h : sys.Commutes e i) (hc : c.Commutes e i)
    {es : List (Event ι ω)} (he : sys.exec c es = some c')
    (hs : sys.AllowedRun (fun ev s s' => ev.thread = i → e s' = e s) c es) :
    ∃ c'', sys.exec c (es.filter fun ev => ev.thread ≠ i) = some c'' ∧
      e c''.state = e c'.state := by
  have herased : sys.exec (c.erase e i) (es.filter fun ev => ev.thread ≠ i) =
      some (c'.erase e i) := by
    induction es generalizing c with
    | nil =>
      cases he
      rfl
    | cons ev es ih =>
      obtain ⟨c₁, h₁, he⟩ := Option.bind_eq_some_iff.mp he
      obtain ⟨hev, hs⟩ := hs c₁ h₁
      have hrest := ih (h.next hc h₁) he hs
      by_cases hi : ev.thread = i
      · rw [List.filter_cons_of_neg (by simpa using hi), ← erase_next h₁ hi (hev hi)]
        exact hrest
      · rw [List.filter_cons_of_pos (by simpa using hi)]
        simp only [System.exec, h.next_erase hc hi, h₁, Option.map_some, Option.bind_some]
        exact hrest
  rw [h.exec_erase hc fun ev hev => by simpa using (List.mem_filter.mp hev).2] at herased
  obtain ⟨c'', hc'', hsame⟩ := Option.map_eq_some_iff.mp herased
  exact ⟨c'', hc'', congrArg Config.state hsame⟩

end System

end Manus
