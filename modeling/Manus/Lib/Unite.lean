import Manus.Lib.Dict

/-! # Merges described by facts

A merge of two values is described by the facts that hold of them: it succeeds
when no fact of the one clashes with a fact of the other, and the result has the
facts of both. So described, the order of a fold of merges does not matter, and
a merge of dictionaries, key by key, is described as soon as the merge of their
values is.
-/

namespace Manus

section Facts

variable {α φ ε : Type}

/-- No fact of the one value clashes with a fact of the other. -/
def Agree (has : α → φ → Prop) (clash : φ → φ → Prop) (a b : α) : Prop :=
  ∀ p q, has a p → has b q → ¬ clash p q

/-- Merging two values that agree gives one with the facts of both. -/
structure Unites (valid : α → Prop) (has : α → φ → Prop) (clash : φ → φ → Prop)
    (f : α → α → Except ε α) : Prop where
  union : ∀ {a b c}, valid a → valid b → Agree has clash a b → f a b = .ok c →
    valid c ∧ ∀ p, has c p ↔ has a p ∨ has b p

/-- Two values can be merged exactly when they agree. -/
structure Merges (valid : α → Prop) (has : α → φ → Prop) (clash : φ → φ → Prop)
    (f : α → α → Except ε α) : Prop extends Unites valid has clash f where
  succeeds : ∀ {a b}, valid a → valid b → ((∃ c, f a b = .ok c) ↔ Agree has clash a b)

variable {valid : α → Prop} {has : α → φ → Prop} {clash : φ → φ → Prop} {f : α → α → Except ε α}

theorem Agree.symm (hs : ∀ {p q}, clash p q → clash q p) {a b : α} (h : Agree has clash a b) :
    Agree has clash b a :=
  fun p q hp hq hc => h q p hq hp (hs hc)

theorem Agree.of_union {a b c d : α} (h : ∀ p, has c p ↔ has a p ∨ has b p) :
    Agree has clash c d ↔ Agree has clash a d ∧ Agree has clash b d := by
  constructor
  · intro hc
    exact ⟨fun p q hp => hc p q ((h p).mpr (.inl hp)), fun p q hp => hc p q ((h p).mpr (.inr hp))⟩
  · rintro ⟨ha, hb⟩ p q hp
    rcases (h p).mp hp with hp | hp
    · exact ha p q hp
    · exact hb p q hp

theorem Unites.fold (h : Unites valid has clash f) {l : List α} {a c : α}
    (hv : ∀ b ∈ a :: l, valid b) (hl : (a :: l).Pairwise (Agree has clash))
    (hc : l.foldlM f a = .ok c) : valid c ∧ ∀ p, has c p ↔ ∃ b ∈ a :: l, has b p := by
  induction l generalizing a with
  | nil =>
    cases hc
    exact ⟨hv _ List.mem_cons_self, by simp⟩
  | cons b l ih =>
    rw [List.foldlM_cons, bind_eq_ok] at hc
    obtain ⟨m, hm, hc⟩ := hc
    simp only [List.pairwise_cons, List.mem_cons, forall_eq_or_imp] at hl hv
    obtain ⟨hmv, hmp⟩ := h.union hv.1 hv.2.1 hl.1.1 hm
    obtain ⟨hcv, hcp⟩ := ih (a := m) (by simpa using ⟨hmv, hv.2.2⟩) (by
      refine List.pairwise_cons.mpr ⟨fun d hd => ?_, hl.2.2⟩
      exact (Agree.of_union hmp).mpr ⟨hl.1.2 d hd, hl.2.1 d hd⟩) hc
    refine ⟨hcv, fun p => ?_⟩
    simp [hcp, hmp, or_assoc]

/-- A fold succeeds exactly when all values agree with each other. -/
theorem Merges.fold_succeeds (h : Merges valid has clash f) {l : List α} {a : α}
    (hv : ∀ b ∈ a :: l, valid b) :
    (∃ c, l.foldlM f a = .ok c) ↔ (a :: l).Pairwise (Agree has clash) := by
  induction l generalizing a with
  | nil =>
    constructor
    · rintro -
      exact List.pairwise_singleton _ _
    · rintro -
      exact ⟨a, rfl⟩
  | cons b l ih =>
    have hva := hv a (by simp)
    have hvb := hv b (by simp)
    -- the first merge succeeds if the first two values agree, and goes on with their facts
    have hnext : ∀ {m}, f a b = .ok m → ((∃ c, l.foldlM f m = .ok c) ↔
        (∀ d ∈ l, Agree has clash a d ∧ Agree has clash b d) ∧ l.Pairwise (Agree has clash)) := by
      intro m hm
      obtain ⟨hmv, hmp⟩ := h.union hva hvb ((h.succeeds hva hvb).mp ⟨m, hm⟩) hm
      rw [ih (by simpa [hmv] using fun d hd => hv d (by simp [hd])), List.pairwise_cons]
      simp only [Agree.of_union hmp]
    simp only [List.foldlM_cons, bind_eq_ok, List.pairwise_cons, List.mem_cons, forall_eq_or_imp]
    constructor
    · rintro ⟨c, m, hm, hc⟩
      obtain ⟨hd, hl⟩ := (hnext hm).mp ⟨c, hc⟩
      exact ⟨⟨(h.succeeds hva hvb).mp ⟨m, hm⟩, fun d hm => (hd d hm).1⟩,
        fun d hm => (hd d hm).2, hl⟩
    · rintro ⟨⟨hab, ha⟩, hb, hl⟩
      obtain ⟨m, hm⟩ := (h.succeeds hva hvb).mpr hab
      obtain ⟨c, hc⟩ := (hnext hm).mpr ⟨fun d hd => ⟨ha d hd, hb d hd⟩, hl⟩
      exact ⟨c, m, hm, hc⟩

theorem agree_perm (hs : ∀ {p q}, clash p q → clash q p) {l l' : List α} (hp : l.Perm l') :
    l.Pairwise (Agree has clash) ↔ l'.Pairwise (Agree has clash) :=
  hp.pairwise_iff fun h => h.symm hs

end Facts

section Values

variable {β : Type} (same : β → β → Bool)

/-- Equal in both directions. -/
def Matches (v w : β) : Prop := same v w = true ∧ same w v = true

variable {same} {valid : β → Prop} {ε : Type} {message : ε}

theorem Matches.symm {v w : β} (h : Matches same v w) : Matches same w v := ⟨h.2, h.1⟩

theorem Matches.trans (ht : ∀ u v w, same u v = true → same v w = true → same u w = true)
    {u v w : β} (h : Matches same u v) (h' : Matches same v w) : Matches same u w :=
  ⟨ht u v w h.1 h'.1, ht w v u h'.2 h.2⟩

theorem same_of_matches (hr : ∀ v, valid v → same v v = true) (v w : β) (_ : valid v)
    (hw : valid w) (h : ∀ u, Matches same v u ↔ Matches same w u) : same v w = true :=
  ((h w).mpr ⟨hr w hw, hr w hw⟩).1

/-- Two values that must be equal: the facts are the values themselves. -/
theorem merges_agreeing (hr : ∀ v, valid v → same v v = true)
    (hsymm : ∀ v w, valid v → valid w → same v w = true → same w v = true)
    (ht : ∀ u v w, same u v = true → same v w = true → same u w = true) :
    Merges valid (Matches same) (fun v w => ¬ Matches same v w)
      (fun l r => if same l r then .ok r else .error message) where
  union := by
    intro a b c hva hvb _ hc
    split at hc
    · rename_i hab
      cases hc
      have hab : Matches same a b := ⟨hab, hsymm a b hva hvb hab⟩
      refine ⟨hvb, fun p => ⟨.inr, ?_⟩⟩
      rintro (h | h)
      · exact hab.symm.trans ht h
      · exact h
    · cases hc
  succeeds := by
    intro a b hva hvb
    constructor
    · rintro ⟨c, hc⟩ p q hp hq hpq
      split at hc
      · rename_i hab
        have hab : Matches same a b := ⟨hab, hsymm a b hva hvb hab⟩
        exact hpq ((hp.symm.trans ht hab).trans ht hq)
      · cases hc
    · intro h
      have hab := not_not.mp (h a b ⟨hr a hva, hr a hva⟩ ⟨hr b hvb, hr b hvb⟩)
      exact ⟨b, if_pos hab.1⟩

end Values

namespace Dict

variable {α φ ε : Type}

/-- A key is there, or a fact holds of its value. -/
def Has (has : α → φ → Prop) (d : Dict α) (p : String × Option φ) : Prop :=
  ∃ v, d.get? p.1 = some v ∧ ∀ q ∈ p.2, has v q

/-- Facts under the same key clash. -/
def Clash (clash : φ → φ → Prop) (p q : String × Option φ) : Prop :=
  p.1 = q.1 ∧ ∃ p' ∈ p.2, ∃ q' ∈ q.2, clash p' q'

/-- Every value passes. -/
def Forall (valid : α → Prop) (d : Dict α) : Prop := ∀ k v, d.get? k = some v → valid v

/-- The same keys, with values in the relation. -/
def Same (same : α → α → Prop) (d e : Dict α) : Prop :=
  ∀ k, Option.Rel same (d.get? k) (e.get? k)

variable {valid : α → Prop} {has : α → φ → Prop} {clash : φ → φ → Prop}
  {f : String → α → α → Except ε α}

theorem Clash.symm (hs : ∀ {p q}, clash p q → clash q p) {p q : String × Option φ}
    (h : Clash clash p q) : Clash clash q p := by
  obtain ⟨hk, p', hp, q', hq, hc⟩ := h
  exact ⟨hk.symm, q', hq, p', hp, hs hc⟩

theorem agree_iff {d e : Dict α} : Agree (Has has) (Clash clash) d e ↔
    ∀ k a b, d.get? k = some a → e.get? k = some b → Agree has clash a b := by
  constructor
  · intro h k a b ha hb p q hp hq hc
    refine h (k, some p) (k, some q) ⟨a, ha, ?_⟩ ⟨b, hb, ?_⟩ ⟨rfl, p, rfl, q, rfl, hc⟩
    · simpa using hp
    · simpa using hq
  · rintro h ⟨k, p⟩ ⟨k', q⟩ ⟨a, ha, hp⟩ ⟨b, hb, hq⟩ ⟨rfl, p', hp', q', hq', hc⟩
    exact h _ a b ha hb p' q' (hp p' hp') (hq q' hq') hc

/-- Key by key, where the values agree. -/
theorem unites_mergeWith (h : ∀ k, Unites valid has clash (f k)) :
    Unites (Forall valid) (Has has) (Clash clash) (mergeWith f) where
  union := by
    intro d e m hd he hagree hm
    have hkey : ∀ k, (∀ v, m.get? k = some v → valid v) ∧
        ∀ p, Has has m (k, p) ↔ Has has d (k, p) ∨ Has has e (k, p) := by
      intro k
      have hc := get?_mergeWith hm k
      cases ha : d.get? k with
      | none =>
        rw [ha] at hc
        have hmk := (Except.ok.inj hc).symm
        exact ⟨by simpa only [hmk] using he k, fun p => by simp [Has, ha, hmk]⟩
      | some a =>
        cases hb : e.get? k with
        | none =>
          rw [ha, hb] at hc
          have hmk := (Except.ok.inj hc).symm
          refine ⟨fun v hv => hd k v (by rw [ha, ← hmk, hv]), fun p => by simp [Has, ha, hb, hmk]⟩
        | some b =>
          rw [ha, hb] at hc
          obtain ⟨c, hc, hmk⟩ := map_eq_ok.mp hc
          obtain ⟨hcv, hcp⟩ := (h k).union (hd k a ha) (he k b hb)
            (agree_iff.mp hagree k a b ha hb) hc
          refine ⟨fun v hv => ?_, fun p => ?_⟩
          · rw [← hmk, Option.some.injEq] at hv
            exact hv ▸ hcv
          · cases p with
            | none => simp [Has, ha, ← hmk]
            | some p => simp [Has, ha, hb, ← hmk, hcp]
    exact ⟨fun k => (hkey k).1, fun p => (hkey p.1).2 p.2⟩

theorem merges_mergeWith (h : ∀ k, Merges valid has clash (f k)) :
    Merges (Forall valid) (Has has) (Clash clash) (mergeWith f) where
  toUnites := unites_mergeWith fun k => (h k).toUnites
  succeeds := by
    intro d e hd he
    rw [agree_iff]
    constructor
    · rintro ⟨m, hm⟩ k a b ha hb
      have hc := get?_mergeWith hm k
      rw [ha, hb] at hc
      obtain ⟨c, hc, -⟩ := map_eq_ok.mp hc
      exact ((h k).succeeds (hd k a ha) (he k b hb)).mp ⟨c, hc⟩
    · intro hagree
      apply mergeWith_succeeds
      intro k a b ha hb
      exact ((h k).succeeds (hd k a ha) (he k b hb)).mpr (hagree k a b ha hb)

theorem same_of_has {same : α → α → Prop}
    (hs : ∀ a b, valid a → valid b → (∀ p, has a p ↔ has b p) → same a b) {d e : Dict α}
    (hd : Forall valid d) (he : Forall valid e) (h : ∀ p, Has has d p ↔ Has has e p) :
    d.Same same e := by
  intro k
  have hk := h (k, none)
  cases ha : d.get? k with
  | none =>
    cases hb : e.get? k with
    | none => exact .none
    | some b => simp [Has, ha, hb] at hk
  | some a =>
    cases hb : e.get? k with
    | none => simp [Has, ha, hb] at hk
    | some b =>
      refine .some (hs a b (hd k a ha) (he k b hb) fun p => ?_)
      have hp := h (k, some p)
      simpa [Has, ha, hb] using hp

theorem mergeWith_self {d : Dict α} (h : ∀ k v, d.get? k = some v → f k v v = .ok v) :
    mergeWith f d d = .ok d := by
  have key : ∀ rest : List (String × α), (∀ p ∈ rest, p ∈ d.entries) →
      rest.foldlM (mergeEntry f d) d = .ok d := by
    intro rest hrest
    induction rest with
    | nil => rfl
    | cons p rest ih =>
      obtain ⟨k, v⟩ := p
      have hv : d.get? k = some v := get?_eq_some_iff.mpr (hrest (k, v) List.mem_cons_self)
      have hsame : d.insert k v = d := ext_entries (insertEntry_self hv)
      have hstep : mergeEntry f d d (k, v) = .ok d := by
        simp only [mergeEntry, hv, h k v hv]
        exact congrArg Except.ok hsame
      rw [List.foldlM_cons, hstep]
      exact ih fun q hq => hrest q (List.mem_cons_of_mem _ hq)
  exact key d.entries fun _ hp => hp

end Dict

end Manus
