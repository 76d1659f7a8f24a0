import Manus.Lib.Except
import Mathlib.Data.Finset.Lattice.Lemmas
import Mathlib.Data.List.Chain
import Mathlib.Data.List.Nodup

/-! # Dialogues

A computation that asks questions is a tree over their answers. It can be run before
all of them are known: a question without an answer goes on record and reads as a
default. Once nothing goes on record, more answers change nothing. A question that
takes several rounds of answers to come up depends on a chain of others.
-/

namespace Manus

/-- A computation that asks questions before it returns or raises. -/
inductive Dialogue (κ β ε α : Type) where
  | done (result : Except ε α)
  | ask (question : κ) (next : β → Dialogue κ β ε α)

namespace Dialogue

variable {κ β ε α γ : Type}

def bind (f : α → Dialogue κ β ε γ) : Dialogue κ β ε α → Dialogue κ β ε γ
  | done (.ok a) => f a
  | done (.error e) => done (.error e)
  | ask k next => ask k fun b => (next b).bind f

/-- The questions in their order, when every answer is known. -/
def trace (oracle : κ → β) : Dialogue κ β ε α → List κ
  | done _ => []
  | ask k next => k :: trace oracle (next (oracle k))

variable [Inhabited β]

/-- What comes of a dialogue when some answers are known; an answer may be an error. -/
def result (known : κ → Option (Except ε β)) : Dialogue κ β ε α → Except ε α
  | done r => r
  | ask k next =>
    match known k with
    | none => result known (next default)
    | some (.ok b) => result known (next b)
    | some (.error e) => .error e

theorem result_bind {known : κ → Option (Except ε β)} {f : α → Dialogue κ β ε γ}
    (t : Dialogue κ β ε α) :
    (t.bind f).result known = t.result known >>= fun a => (f a).result known := by
  induction t with
  | done r => cases r <;> rfl
  | ask k next ih =>
    simp only [bind, result]
    cases known k with
    | none => exact ih default
    | some r =>
      cases r with
      | error e => rfl
      | ok b => exact ih b

variable [DecidableEq κ]

/-- The answers to some questions. -/
def answersTo (oracle : κ → β) (asked : Finset κ) (k : κ) : Option (Except ε β) :=
  if k ∈ asked then some (.ok (oracle k)) else none

section Run

variable (known : κ → Option (Except ε β))

/-- The questions that were asked and are without an answer. -/
def unanswered : Dialogue κ β ε α → Finset κ
  | done _ => ∅
  | ask k next =>
    match known k with
    | none => insert k (unanswered (next default))
    | some (.ok b) => unanswered (next b)
    | some (.error _) => ∅

/-- The dialogue as a computation that keeps the questions on record. -/
def run (t : Dialogue κ β ε α) : StateT (Finset κ) (Except ε) α :=
  fun pending => (t.result known).map fun a => (a, pending ∪ t.unanswered known)

variable {known}

theorem unanswered_bind {f : α → Dialogue κ β ε γ} {t : Dialogue κ β ε α} {a : α}
    (h : t.result known = .ok a) :
    (t.bind f).unanswered known = t.unanswered known ∪ (f a).unanswered known := by
  induction t with
  | done r =>
    cases h
    simp [bind, unanswered]
  | ask k next ih =>
    simp only [bind, unanswered]
    simp only [result] at h
    cases hk : known k with
    | none =>
      simp only [hk] at h
      simp only [ih default h, Finset.insert_union]
    | some r =>
      simp only [hk] at h
      cases r with
      | error e => cases h
      | ok b => exact ih b h

theorem run_bind (t : Dialogue κ β ε α) (f : α → Dialogue κ β ε γ) :
    (t.bind f).run known = t.run known >>= fun a => (f a).run known := by
  funext pending
  change _ = t.run known pending >>= fun r => (f r.1).run known r.2
  simp only [run, result_bind]
  cases ht : t.result known with
  | error e => rfl
  | ok a =>
    change ((f a).result known).map _ = ((f a).result known).map _
    simp only [unanswered_bind ht, Finset.union_assoc]

theorem run_eq_ok {t : Dialogue κ β ε α} {pending pending' : Finset κ} {a : α} :
    t.run known pending = .ok (a, pending') ↔
      t.result known = .ok a ∧ pending' = pending ∪ t.unanswered known := by
  rw [run, map_eq_ok]
  constructor
  · rintro ⟨a', h, heq⟩
    cases heq
    exact ⟨h, rfl⟩
  · rintro ⟨h, rfl⟩
    exact ⟨a, h, rfl⟩

theorem run_eq_error {t : Dialogue κ β ε α} {pending : Finset κ} {e : ε} :
    t.run known pending = .error e ↔ t.result known = .error e := by
  rw [run]
  cases t.result known <;> simp [Except.map]

end Run

section Settled

theorem result_of_settled {soft known known' : κ → Option (Except ε β)} {t : Dialogue κ β ε α}
    (hsoft : ∀ k r, soft k = some r → known k = known' k ∧
      ∃ b, r = .ok b ∧ (known k = some (.ok b) ∨ ∃ e, known k = some (.error e)))
    (h : t.unanswered soft = ∅) : t.result known = t.result known' := by
  induction t with
  | done r => rfl
  | ask k next ih =>
    simp only [unanswered] at h
    cases hk : soft k with
    | none =>
      simp only [hk] at h
      exact absurd h (Finset.insert_ne_empty _ _)
    | some r =>
      obtain ⟨hsame, b, rfl, hknown⟩ := hsoft k r hk
      simp only [hk] at h
      simp only [result, ← hsame]
      rcases hknown with hknown | ⟨e, hknown⟩
      · simp only [hknown]
        exact ih b h
      · simp only [hknown]

end Settled

section Chains

variable {oracle : κ → β} {t : Dialogue κ β ε α} {asked : Finset κ} {k : κ}

/-- Among true answers, the one to `h` makes the dialogue ask `k`, which it did not ask before. -/
def Feeds (oracle : κ → β) (t : Dialogue κ β ε α) (h k : κ) : Prop :=
  ∃ asked : Finset κ, k ∉ asked ∧ k ∉ t.unanswered (answersTo oracle asked) ∧
    k ∈ t.unanswered (answersTo oracle (insert h asked))

theorem not_mem_of_unanswered (h : k ∈ t.unanswered (answersTo oracle asked)) : k ∉ asked := by
  induction t with
  | done r => simp [unanswered] at h
  | ask k' next ih =>
    by_cases hk' : k' ∈ asked
    · simp only [unanswered, answersTo, hk', if_true] at h
      exact ih _ h
    · simp only [unanswered, answersTo, hk', if_false, Finset.mem_insert] at h
      rcases h with rfl | h
      · exact hk'
      · exact ih _ h

theorem mem_unanswered_of_trace {before after : List κ}
    (htrace : t.trace oracle = before ++ k :: after) (hbefore : ∀ h ∈ before, h ∈ asked)
    (hk : k ∉ asked) : k ∈ t.unanswered (answersTo oracle asked) := by
  induction before generalizing t with
  | nil =>
    cases t with
    | done r => cases htrace
    | ask k' next =>
      obtain ⟨rfl, -⟩ := List.cons_eq_cons.mp htrace
      simp [unanswered, answersTo, hk]
  | cons h before ih =>
    cases t with
    | done r => cases htrace
    | ask k' next =>
      obtain ⟨rfl, hnext⟩ := List.cons_eq_cons.mp htrace
      have hmem : k' ∈ asked := hbefore k' List.mem_cons_self
      simp only [unanswered, answersTo, hmem, if_true]
      exact ih hnext fun h hh => hbefore h (List.mem_cons_of_mem _ hh)

theorem exists_first_unanswered (h : (t.unanswered (answersTo oracle asked)).Nonempty) :
    ∃ before k after, t.trace oracle = before ++ k :: after ∧ (∀ h ∈ before, h ∈ asked) ∧
      k ∉ asked := by
  induction t with
  | done r => simp [unanswered] at h
  | ask k' next ih =>
    by_cases hk' : k' ∈ asked
    · simp only [unanswered, answersTo, hk', if_true] at h
      obtain ⟨before, k, after, htrace, hbefore, hk⟩ := ih _ h
      refine ⟨k' :: before, k, after, congrArg (k' :: ·) htrace, ?_, hk⟩
      intro x hx
      rcases List.mem_cons.mp hx with rfl | hx
      · exact hk'
      · exact hbefore x hx
    · exact ⟨[], k', _, rfl, by simp, hk'⟩

theorem exists_switch {P : Finset κ → Prop} {l : List κ} {s : Finset κ} (hs : ¬ P s)
    (hl : P (s ∪ l.toFinset)) :
    ∃ l₁ h l₂, l = l₁ ++ h :: l₂ ∧ ¬ P (s ∪ l₁.toFinset) ∧ P (insert h (s ∪ l₁.toFinset)) := by
  induction l generalizing s with
  | nil =>
    rw [List.toFinset_nil, Finset.union_empty] at hl
    exact absurd hl hs
  | cons x l ih =>
    have hstep : ∀ l' : List κ, s ∪ (x :: l').toFinset = insert x s ∪ l'.toFinset := by
      intro l'
      rw [List.toFinset_cons, Finset.union_insert, Finset.insert_union]
    by_cases hx : P (insert x s)
    · refine ⟨[], x, l, rfl, ?_, ?_⟩
      · rwa [List.toFinset_nil, Finset.union_empty]
      · rwa [List.toFinset_nil, Finset.union_empty]
    · rw [hstep] at hl
      obtain ⟨l₁, h, l₂, rfl, hnot, hthen⟩ := ih hx hl
      refine ⟨x :: l₁, h, l₂, rfl, ?_, ?_⟩
      · rwa [hstep]
      · rwa [hstep]

/-- A question of the dialogue that is without an answer after so many rounds, each of which got
the answers to what was asked in it, ends a chain of as many others, each feeding the next. -/
theorem exists_chain {rounds : ℕ → Finset κ} {n : ℕ} {before after : List κ}
    (hrounds : ∀ m < n, rounds m ∪ t.unanswered (answersTo oracle (rounds m)) ⊆ rounds (m + 1))
    (htrace : t.trace oracle = before ++ k :: after) (hfirst : k ∉ before) (hk : k ∉ rounds n) :
    ∃ l : List κ, l.length = n ∧ l.Sublist before ∧ (l ++ [k]).Nodup ∧
      (l ++ [k]).IsChain (Feeds oracle t) := by
  induction n generalizing k before after with
  | zero => exact ⟨[], rfl, List.nil_sublist _, List.nodup_singleton _, .singleton _⟩
  | succ n ih =>
    have hlater := hrounds n (Nat.lt_succ_self n)
    have hnot : k ∉ rounds n := fun hmem => hk (hlater (Finset.mem_union_left _ hmem))
    have hhidden : k ∉ t.unanswered (answersTo oracle (rounds n)) :=
      fun hmem => hk (hlater (Finset.mem_union_right _ hmem))
    -- with everything before it answered as well, the question is asked
    have hall : k ∈ t.unanswered (answersTo oracle (rounds n ∪ before.toFinset)) := by
      apply mem_unanswered_of_trace htrace
      · exact fun h hh => Finset.mem_union_right _ (List.mem_toFinset.mpr hh)
      · simp [hnot, hfirst]
    obtain ⟨before₁, h, before₂, rfl, hbefore, hthen⟩ :=
      exists_switch (P := fun s => k ∈ t.unanswered (answersTo oracle s)) hhidden hall
    have hnew : h ∉ rounds n ∪ before₁.toFinset := by
      intro hmem
      rw [Finset.insert_eq_of_mem hmem] at hthen
      exact hbefore hthen
    have hparts : h ∉ rounds n ∧ h ∉ before₁ := by simpa using hnew
    rw [List.append_assoc, List.cons_append] at htrace
    obtain ⟨l, hlength, hsub, hnodup, hchain⟩ :=
      ih (fun m hm => hrounds m (Nat.lt_succ_of_lt hm)) htrace hparts.2 hparts.1
    have hsub' : (l ++ [h]).Sublist (before₁ ++ h :: before₂) :=
      hsub.append (List.Sublist.cons_cons h (List.nil_sublist _))
    refine ⟨l ++ [h], by simp [hlength], hsub', ?_, ?_⟩
    · rw [List.nodup_append]
      refine ⟨hnodup, List.nodup_singleton _, ?_⟩
      rintro x hx y hy rfl
      cases List.mem_singleton.mp hy
      exact hfirst (hsub'.subset hx)
    · rw [List.isChain_append]
      refine ⟨hchain, .singleton _, ?_⟩
      intro x hx y hy
      rw [List.getLast?_concat, Option.mem_some_iff] at hx
      rw [List.head?_cons, Option.mem_some_iff] at hy
      subst hx hy
      exact ⟨_, not_mem_of_unanswered hthen ∘ Finset.mem_insert_of_mem, hbefore, hthen⟩

end Chains

end Dialogue

end Manus
