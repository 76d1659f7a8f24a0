import Mathlib.Data.List.Infix
import Mathlib.Data.List.Sort

/-! # Masking stretches of a text

Stretches of a text are given by where they begin and end. Stretches that touch
are joined, and each joined stretch is replaced by one mask. A word whose every
occurrence lies in some stretch does not occur in the masked text, unless it
overlaps the mask itself.
-/

namespace Manus

universe u

variable {α : Type u}

section Overlap

/-- The two texts can be laid over each other: they share a stretch that begins where one of them
begins and ends where one of them ends. -/
def Overlap (s t : List α) : Prop :=
  ∃ u a b c d, u ≠ [] ∧ s = a ++ (u ++ b) ∧ t = c ++ (u ++ d) ∧ (a = [] ∨ c = []) ∧
    (b = [] ∨ d = [])

theorem not_overlap_of_disjoint {s t : List α} (h : ∀ c ∈ s, c ∉ t) : ¬ Overlap s t := by
  rintro ⟨u, a, b, c, d, hu, rfl, rfl, -, -⟩
  obtain ⟨x, hx⟩ := List.exists_mem_of_ne_nil u hu
  exact h x (by simp [hx]) (by simp [hx])

/-- Where a word occurs in a text of three pieces. -/
theorem infix_append_mask {s x mask y : List α} (hmask : mask ≠ [])
    (h : s <:+: x ++ (mask ++ y)) : s <:+: x ∨ s <:+: y ∨ Overlap s mask := by
  by_cases hs : s = []
  · exact .inl (hs ▸ List.nil_infix)
  obtain ⟨before, after, h⟩ := h
  rw [List.append_assoc] at h
  rcases List.append_eq_append_iff.mp h with ⟨x', rfl, hx⟩ | ⟨x', rfl, hx⟩
  · -- the word begins in the first piece, or right after it
    rcases List.append_eq_append_iff.mp hx with ⟨x'', rfl, -⟩ | ⟨u, rfl, hu⟩
    · exact .inl ⟨before, x'', by simp⟩
    · by_cases hne : u = []
      · subst hne
        exact .inl ⟨before, [], by simp⟩
      · right
        right
        rcases List.append_eq_append_iff.mp hu with ⟨b, rfl, -⟩ | ⟨d, rfl, -⟩
        · exact ⟨mask, x', b, [], [], hmask, rfl, by simp, .inr rfl, .inr rfl⟩
        · exact ⟨u, x', [], [], d, hne, by simp, rfl, .inr rfl, .inl rfl⟩
  · right
    rcases List.append_eq_append_iff.mp hx with ⟨m, rfl, hy⟩ | ⟨u, rfl, hy⟩
    · exact .inl ⟨m, after, by simp [hy]⟩
    · by_cases hne : u = []
      · subst hne
        exact .inl ⟨[], after, by simpa using hy⟩
      · right
        rcases List.append_eq_append_iff.mp hy with ⟨d, rfl, -⟩ | ⟨b, rfl, -⟩
        · exact ⟨s, [], [], x', d, hs, by simp, rfl, .inl rfl, .inl rfl⟩
        · exact ⟨u, [], b, x', [], hne, rfl, by simp, .inl rfl, .inr rfl⟩

end Overlap

section Spans

/-- Where a word occurs in a text. -/
def occurrences [DecidableEq α] (word text : List α) : List ℕ :=
  (List.range (text.length + 1)).filter fun start => word.isPrefixOf (text.drop start)

/-- Join stretches that touch; they come ordered by where they begin. -/
def joinSpans : ℕ × ℕ → List (ℕ × ℕ) → List (ℕ × ℕ)
  | last, [] => [last]
  | (lastBegin, lastEnd), (start, stop) :: spans =>
    if start ≤ lastEnd then joinSpans (lastBegin, max lastEnd stop) spans
    else (lastBegin, lastEnd) :: joinSpans (start, stop) spans

/-- The text from `cursor` on, with the stretches masked. -/
def maskSpans (mask text : List α) : ℕ → List (ℕ × ℕ) → List α
  | cursor, [] => text.drop cursor
  | cursor, (start, stop) :: spans =>
    (text.take start).drop cursor ++ (mask ++ maskSpans mask text stop spans)

/-- The first stretch lies inside the second. -/
def Inside (a b : ℕ × ℕ) : Prop := b.1 ≤ a.1 ∧ a.2 ≤ b.2

theorem mem_occurrences [DecidableEq α] {word text : List α} {start : ℕ} :
    start ∈ occurrences word text ↔ start ≤ text.length ∧ word <+: text.drop start := by
  rw [occurrences, List.mem_filter, List.mem_range, Nat.lt_succ_iff, List.isPrefixOf_iff_prefix]

/-- Ordered by where they begin. -/
def Ordered (spans : List (ℕ × ℕ)) : Prop := spans.Pairwise fun a b => a.1 ≤ b.1

/-- One after another, without touching. -/
def Apart (spans : List (ℕ × ℕ)) : Prop := spans.Pairwise fun a b => a.2 < b.1

/-- Joining keeps the stretches apart and loses none. -/
theorem joinSpans_spec {last : ℕ × ℕ} {spans : List (ℕ × ℕ)} (h : Ordered (last :: spans))
    (hv : ∀ a ∈ last :: spans, a.1 ≤ a.2) :
    (∀ a ∈ last :: spans, ∃ b ∈ joinSpans last spans, Inside a b) ∧
      Apart (joinSpans last spans) ∧ ∀ b ∈ joinSpans last spans, last.1 ≤ b.1 ∧ b.1 ≤ b.2 := by
  induction spans generalizing last with
  | nil =>
    have := hv last List.mem_cons_self
    simp [joinSpans, Inside, Apart, this]
  | cons next spans ih =>
    obtain ⟨lastBegin, lastEnd⟩ := last
    obtain ⟨start, stop⟩ := next
    obtain ⟨hlast, hnext⟩ := List.pairwise_cons.mp h
    have hbegin : lastBegin ≤ start := hlast (start, stop) List.mem_cons_self
    have hlastv : lastBegin ≤ lastEnd := hv _ List.mem_cons_self
    unfold joinSpans
    split
    · have hjoined : Ordered ((lastBegin, max lastEnd stop) :: spans) :=
        List.pairwise_cons.mpr ⟨fun b hb => hlast b (List.mem_cons_of_mem _ hb),
          (List.pairwise_cons.mp hnext).2⟩
      obtain ⟨hwithin, hapart, hfirst⟩ := ih hjoined fun a ha => by
        rcases List.mem_cons.mp ha with rfl | ha
        · exact le_trans hlastv (le_max_left _ _)
        · exact hv a (by simp [ha])
      refine ⟨fun a ha => ?_, hapart, hfirst⟩
      -- both stretches lie in the joined one
      obtain ⟨b, hb, hb₁, hb₂⟩ := hwithin _ List.mem_cons_self
      dsimp only at hb₁ hb₂
      rcases List.mem_cons.mp ha with rfl | ha
      · exact ⟨b, hb, hb₁, le_trans (le_max_left _ _) hb₂⟩
      · rcases List.mem_cons.mp ha with rfl | ha
        · exact ⟨b, hb, le_trans hb₁ hbegin, le_trans (le_max_right _ _) hb₂⟩
        · exact hwithin a (List.mem_cons_of_mem _ ha)
    · rename_i hgap
      obtain ⟨hwithin, hapart, hfirst⟩ := ih hnext fun a ha => hv a (List.mem_cons_of_mem _ ha)
      refine ⟨fun a ha => ?_, List.pairwise_cons.mpr ⟨fun b hb => ?_, hapart⟩, fun b hb => ?_⟩
      · rcases List.mem_cons.mp ha with rfl | ha
        · exact ⟨_, List.mem_cons_self, le_rfl, le_rfl⟩
        · obtain ⟨b, hb, hab⟩ := hwithin a ha
          exact ⟨b, List.mem_cons_of_mem _ hb, hab⟩
      · exact lt_of_lt_of_le (not_le.mp hgap) (hfirst b hb).1
      · rcases List.mem_cons.mp hb with rfl | hb
        · exact ⟨le_rfl, hlastv⟩
        · exact ⟨le_trans hbegin (hfirst b hb).1, (hfirst b hb).2⟩

theorem occurs_of_infix_drop {word text : List α} {cursor : ℕ} (h : word <:+: text.drop cursor)
    (hw : word ≠ []) : ∃ start, cursor ≤ start ∧ word <+: text.drop start ∧
      start + word.length ≤ text.length := by
  obtain ⟨before, after, h⟩ := h
  refine ⟨cursor + before.length, by omega, ⟨after, ?_⟩, ?_⟩
  · rw [← List.drop_drop, ← h, List.append_assoc, List.drop_left]
  · have hlength := congrArg List.length h
    have hpos : 0 < word.length := List.length_pos_iff.mpr hw
    simp only [List.length_append, List.length_drop] at hlength
    omega

variable {mask text word : List α}

/-- If stretches cover all occurrences of a word, masking them leaves none. -/
theorem not_infix_maskSpans (hmask : mask ≠ []) (hw : word ≠ []) (ho : ¬ Overlap word mask)
    {spans : List (ℕ × ℕ)} (hapart : Apart spans) (hv : ∀ b ∈ spans, b.1 ≤ b.2) {cursor : ℕ}
    (hcursor : ∀ b ∈ spans, cursor ≤ b.2) (hcover : ∀ start, cursor ≤ start →
      word <+: text.drop start → ∃ b ∈ spans, Inside (start, start + word.length) b) :
    ¬ word <:+: maskSpans mask text cursor spans := by
  have hpos : 0 < word.length := List.length_pos_iff.mpr hw
  induction spans generalizing cursor with
  | nil =>
    intro hin
    obtain ⟨start, hstart, hp, -⟩ := occurs_of_infix_drop hin hw
    obtain ⟨b, hb, -⟩ := hcover start hstart hp
    cases hb
  | cons span spans ih =>
    obtain ⟨first, stop⟩ := span
    obtain ⟨hafter, hapart⟩ := List.pairwise_cons.mp hapart
    have hspan : first ≤ stop := hv _ List.mem_cons_self
    have hstop : cursor ≤ stop := hcursor _ List.mem_cons_self
    intro hin
    rcases infix_append_mask hmask hin with hin | hin | hin
    · -- before the first stretch: nothing covers such an occurrence
      obtain ⟨start, hstart, hp, hlength⟩ := occurs_of_infix_drop hin hw
      rw [List.length_take] at hlength
      rw [List.drop_take] at hp
      obtain ⟨b, hb, hwithin, -⟩ := hcover start hstart (hp.trans (List.take_prefix _ _))
      rcases List.mem_cons.mp hb with rfl | hb
      · dsimp only at hwithin
        omega
      · have := hafter b hb
        dsimp only at hwithin this
        omega
    · have hv' : ∀ b ∈ spans, b.1 ≤ b.2 := fun b hb => hv b (List.mem_cons_of_mem _ hb)
      have hcursor' : ∀ b ∈ spans, stop ≤ b.2 :=
        fun b hb => le_trans (hafter b hb).le (hv' b hb)
      refine ih hapart hv' hcursor' (fun start hstart hp => ?_) hin
      obtain ⟨b, hb, hwithin⟩ := hcover start (le_trans hstop hstart) hp
      rcases List.mem_cons.mp hb with rfl | hb
      · have := hwithin.2
        dsimp only at this
        omega
      · exact ⟨b, hb, hwithin⟩
    · exact ho hin

end Spans

section Runs

/-- The position lies in one of the stretches. -/
def InSpans (spans : List (ℕ × ℕ)) (i : ℕ) : Prop := ∃ a ∈ spans, a.1 ≤ i ∧ i < a.2

instance (spans : List (ℕ × ℕ)) : DecidablePred (InSpans spans) :=
  fun i => decidable_of_iff (spans.any fun a => decide (a.1 ≤ i ∧ i < a.2)) (by simp [InSpans])

/-- A text with each maximal run of covered positions replaced by one mask: a covered character
gives the mask where a run begins and nothing further on. The text begins at a position, and
`inside` says whether the character before it was covered. -/
def maskRuns (mask : List α) (covered : ℕ → Prop) [DecidablePred covered] :
    ℕ → Bool → List α → List α
  | _, _, [] => []
  | i, inside, c :: cs =>
    if covered i then (if inside then [] else mask) ++ maskRuns mask covered (i + 1) true cs
    else c :: maskRuns mask covered (i + 1) false cs

variable {mask text : List α} {covered : ℕ → Prop} [DecidablePred covered] {i : ℕ}

theorem maskRuns_uncovered (mask rest : List α) (inside : Bool) {kept : List α}
    (h : ∀ j, i ≤ j → j < i + kept.length → ¬ covered j) :
    ∃ inside', maskRuns mask covered i inside (kept ++ rest) =
        kept ++ maskRuns mask covered (i + kept.length) inside' rest ∧
      (inside' = true → inside = true ∧ kept = []) := by
  induction kept generalizing i inside with
  | nil => exact ⟨inside, rfl, fun h => ⟨h, rfl⟩⟩
  | cons c cs ih =>
    have hc : ¬ covered i := h i le_rfl (by simp)
    obtain ⟨inside', heq, hinside⟩ := ih false (i := i + 1)
      fun j hj hlt => h j (by omega) (by simp only [List.length_cons]; omega)
    refine ⟨inside', ?_, fun htrue => absurd (hinside htrue).1 (by decide)⟩
    rw [List.cons_append, maskRuns, if_neg hc, heq, List.length_cons, List.cons_append,
      Nat.add_right_comm, Nat.add_assoc]

theorem maskRuns_inside {run rest : List α} (h : ∀ j, i ≤ j → j < i + run.length → covered j) :
    maskRuns mask covered i true (run ++ rest) =
      maskRuns mask covered (i + run.length) true rest := by
  induction run generalizing i with
  | nil => rfl
  | cons c cs ih =>
    have hc : covered i := h i le_rfl (by simp)
    have hrest := ih (i := i + 1)
      fun j hj hlt => h j (by omega) (by simp only [List.length_cons]; omega)
    have hplace : i + 1 + cs.length = i + (cs.length + 1) := by omega
    rw [List.cons_append, maskRuns, if_pos hc, if_pos rfl, List.nil_append, hrest,
      List.length_cons, hplace]

theorem maskRuns_run {run rest : List α} (hne : run ≠ [])
    (h : ∀ j, i ≤ j → j < i + run.length → covered j) :
    maskRuns mask covered i false (run ++ rest) =
      mask ++ maskRuns mask covered (i + run.length) true rest := by
  cases run with
  | nil => exact absurd rfl hne
  | cons c cs =>
    have hc : covered i := h i le_rfl (by simp)
    have hrest : maskRuns mask covered (i + 1) true (cs ++ rest) =
        maskRuns mask covered (i + 1 + cs.length) true rest :=
      maskRuns_inside fun j hj hlt => h j (by omega) (by simp only [List.length_cons]; omega)
    have hplace : i + 1 + cs.length = i + (cs.length + 1) := by omega
    rw [List.cons_append, maskRuns, if_pos hc, if_neg (by decide), hrest, List.length_cons, hplace]

theorem inSpans_joinSpans {last : ℕ × ℕ} {spans : List (ℕ × ℕ)} (h : Ordered (last :: spans)) :
    InSpans (joinSpans last spans) i ↔ InSpans (last :: spans) i := by
  induction spans generalizing last with
  | nil => rfl
  | cons next spans ih =>
    obtain ⟨lastBegin, lastEnd⟩ := last
    obtain ⟨start, stop⟩ := next
    obtain ⟨hlast, hnext⟩ := List.pairwise_cons.mp h
    have hbegin : lastBegin ≤ start := hlast (start, stop) List.mem_cons_self
    unfold joinSpans
    split
    · rename_i htouch
      have hjoined : Ordered ((lastBegin, max lastEnd stop) :: spans) :=
        List.pairwise_cons.mpr ⟨fun b hb => hlast b (List.mem_cons_of_mem _ hb),
          (List.pairwise_cons.mp hnext).2⟩
      rw [ih hjoined]
      simp only [InSpans, List.exists_mem_cons_iff, ← or_assoc]
      apply or_congr_left
      -- the two stretches leave no gap
      omega
    · simp only [InSpans, List.exists_mem_cons_iff] at ih ⊢
      rw [ih hnext]

theorem joinSpans_valid {last : ℕ × ℕ} {spans : List (ℕ × ℕ)} {n : ℕ}
    (hv : ∀ a ∈ last :: spans, a.1 < a.2 ∧ a.2 ≤ n) :
    ∀ b ∈ joinSpans last spans, b.1 < b.2 ∧ b.2 ≤ n := by
  induction spans generalizing last with
  | nil => exact hv
  | cons next spans ih =>
    have hlast := hv last List.mem_cons_self
    have hnext := hv next (List.mem_cons_of_mem _ List.mem_cons_self)
    have hrest : ∀ a ∈ spans, a.1 < a.2 ∧ a.2 ≤ n :=
      fun a ha => hv a (List.mem_cons_of_mem _ (List.mem_cons_of_mem _ ha))
    unfold joinSpans
    split
    · apply ih
      rintro a ha
      rcases List.mem_cons.mp ha with rfl | ha
      · dsimp only
        omega
      · exact hrest a ha
    · rintro b hb
      rcases List.mem_cons.mp hb with rfl | hb
      · exact hlast
      · exact ih (List.forall_mem_cons.mpr ⟨hnext, hrest⟩) b hb

/-- Masking stretches that lie apart replaces each run of what they cover by one mask. -/
theorem maskSpans_eq_maskRuns {spans : List (ℕ × ℕ)} (hapart : Apart spans)
    (hv : ∀ b ∈ spans, b.1 < b.2 ∧ b.2 ≤ text.length) {cursor : ℕ} {inside : Bool}
    (hcursor : ∀ b ∈ spans, cursor ≤ b.1 ∧ (inside = true → cursor < b.1))
    (hcover : ∀ i, cursor ≤ i → (covered i ↔ InSpans spans i)) :
    maskSpans mask text cursor spans = maskRuns mask covered cursor inside (text.drop cursor) := by
  induction spans generalizing cursor inside with
  | nil =>
    have hnone : ∀ j, cursor ≤ j → j < cursor + (text.drop cursor).length → ¬ covered j := by
      rintro j hj - hc
      obtain ⟨b, hb, -⟩ := (hcover j hj).mp hc
      cases hb
    obtain ⟨_, heq, -⟩ := maskRuns_uncovered mask [] inside hnone
    rw [List.append_nil] at heq
    rw [heq, maskSpans, maskRuns, List.append_nil]
  | cons span spans ih =>
    obtain ⟨start, stop⟩ := span
    obtain ⟨hafter, hapart⟩ := List.pairwise_cons.mp hapart
    obtain ⟨hspan, hlength⟩ := hv _ List.mem_cons_self
    obtain ⟨hstart, hgap⟩ := hcursor _ List.mem_cons_self
    dsimp only at hspan hlength hstart hgap hafter
    -- the text up to the stretch, the stretch, and the rest
    have hkept : ((text.take start).drop cursor).length = start - cursor := by
      rw [List.length_drop, List.length_take]
      omega
    have hrun : ((text.take stop).drop start).length = stop - start := by
      rw [List.length_drop, List.length_take]
      omega
    have hbefore : text.drop cursor = (text.take start).drop cursor ++ text.drop start := by
      conv_lhs => rw [← List.take_append_drop start text]
      rw [List.drop_append_of_le_length (by rw [List.length_take]; omega)]
    have hwithin : text.drop start = (text.take stop).drop start ++ text.drop stop := by
      conv_lhs => rw [← List.take_append_drop stop text]
      rw [List.drop_append_of_le_length (by rw [List.length_take]; omega)]
    have hfirst : ∀ b ∈ (start, stop) :: spans, start ≤ b.1 := by
      rintro b hb
      rcases List.mem_cons.mp hb with rfl | hb
      · exact le_rfl
      · have := hafter b hb
        omega
    have hnone : ∀ j, cursor ≤ j → j < cursor + ((text.take start).drop cursor).length →
        ¬ covered j := by
      rintro j hj hlt hc
      obtain ⟨b, hb, hle, -⟩ := (hcover j hj).mp hc
      have := hfirst b hb
      omega
    obtain ⟨inside', heq, hinside⟩ := maskRuns_uncovered mask (text.drop start) inside hnone
    have hfresh : inside' = false := by
      by_contra htrue
      obtain ⟨hi, hnil⟩ := hinside (by simpa using htrue)
      have hlt := hgap hi
      rw [hnil, List.length_nil] at hkept
      omega
    have hplace : cursor + ((text.take start).drop cursor).length = start := by omega
    rw [hbefore, heq, hplace, hfresh, hwithin, maskRuns_run (by
        intro hnil
        rw [hnil, List.length_nil] at hrun
        omega) fun j hj hlt => (hcover j (by omega)).mpr
          ⟨_, List.mem_cons_self, hj, by dsimp only; omega⟩, maskSpans, hrun,
      Nat.add_sub_cancel' hspan.le]
    congr 2
    apply ih hapart (fun b hb => hv b (List.mem_cons_of_mem _ hb))
    · exact fun b hb => ⟨(hafter b hb).le, fun _ => hafter b hb⟩
    · intro j hj
      rw [hcover j (by omega)]
      constructor
      · rintro ⟨b, hb, hcovers⟩
        rcases List.mem_cons.mp hb with rfl | hb
        · exact absurd hcovers.2 (by dsimp only; omega)
        · exact ⟨b, hb, hcovers⟩
      · rintro ⟨b, hb, hcovers⟩
        exact ⟨b, List.mem_cons_of_mem _ hb, hcovers⟩

end Runs

end Manus
