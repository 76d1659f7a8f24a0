import Mathlib.Data.List.TakeWhile
import Mathlib.Data.Nat.Notation
import Mathlib.Tactic.Common

/-! # Words

A text is cut into words at its separators, and words are put together with one separator
between them. Putting the words of a text together collapses its runs of separators.
-/

namespace Manus

variable {α : Type}

/-- The pieces of a list have no separators. -/
theorem mem_splitOnP {p : α → Bool} {l piece : List α} (h : piece ∈ l.splitOnP p) {x : α}
    (hx : x ∈ piece) : x ∈ l ∧ p x = false := by
  induction l generalizing piece with
  | nil =>
    rw [List.splitOnP_nil, List.mem_singleton] at h
    cases h ▸ hx
  | cons a l ih =>
    rw [List.splitOnP_cons_eq_if_modifyHead] at h
    cases ha : p a with
    | true =>
      rw [if_pos ha, List.mem_cons] at h
      rcases h with rfl | h
      · cases hx
      · exact (ih h hx).imp_left (List.mem_cons_of_mem a)
    | false =>
      rw [if_neg (by simp [ha])] at h
      obtain ⟨first, rest, hsplit⟩ := List.exists_cons_of_ne_nil (List.splitOnP_ne_nil p l)
      rw [hsplit, List.modifyHead_cons, List.mem_cons] at h
      rw [hsplit] at ih
      rcases h with rfl | h
      · rcases List.mem_cons.mp hx with rfl | hx
        · exact ⟨List.mem_cons_self, ha⟩
        · exact (ih List.mem_cons_self hx).imp_left (List.mem_cons_of_mem a)
      · exact (ih (List.mem_cons_of_mem _ h) hx).imp_left (List.mem_cons_of_mem a)

theorem mem_intercalate {c separator : α} {parts : List (List α)}
    (h : c ∈ [separator].intercalate parts) : c = separator ∨ ∃ part ∈ parts, c ∈ part := by
  induction parts with
  | nil => cases h
  | cons part parts ih =>
    cases parts with
    | nil => exact Or.inr ⟨part, List.mem_singleton_self _, by simpa using h⟩
    | cons next parts =>
      rw [List.intercalate_cons_cons, List.mem_append, List.mem_append, List.mem_singleton] at h
      rcases h with (h | h) | h
      · exact Or.inr ⟨part, List.mem_cons_self, h⟩
      · exact Or.inl h
      · rcases ih h with h | ⟨other, hother, h⟩
        · exact Or.inl h
        · exact Or.inr ⟨other, List.mem_cons_of_mem _ hother, h⟩

section Pair

variable {x : α} {l a b : List α}

theorem splitOn_eq_singleton_iff [DecidableEq α] : l.splitOn x = [a] ↔ l = a ∧ x ∉ a := by
  constructor
  · intro h
    have hl : [x].intercalate (l.splitOn x) = l := List.intercalate_splitOn x
    rw [h, List.intercalate_singleton] at hl
    refine ⟨hl.symm, fun hx => ?_⟩
    have hmem := (mem_splitOnP (p := (· == x)) (show a ∈ l.splitOn x by rw [h]; simp) hx).2
    simp at hmem
  · rintro ⟨rfl, hx⟩
    have hsplit : ([x].intercalate [l]).splitOn x = [l] :=
      List.splitOn_intercalate x (by simpa using hx) (by simp)
    rwa [List.intercalate_singleton] at hsplit

theorem splitOn_eq_pair_iff [DecidableEq α] :
    l.splitOn x = [a, b] ↔ l = a ++ x :: b ∧ x ∉ a ∧ x ∉ b := by
  constructor
  · intro h
    have hl : [x].intercalate (l.splitOn x) = l := List.intercalate_splitOn x
    rw [h, List.intercalate_cons_cons, List.intercalate_singleton] at hl
    have hpiece : ∀ piece ∈ [a, b], x ∉ piece := by
      intro piece hpiece hx
      have hmem := (mem_splitOnP (p := (· == x)) (show piece ∈ l.splitOn x by rwa [h]) hx).2
      simp at hmem
    exact ⟨by simpa using hl.symm, hpiece a (by simp), hpiece b (by simp)⟩
  · rintro ⟨rfl, ha, hb⟩
    have hsplit : ([x].intercalate [a, b]).splitOn x = [a, b] :=
      List.splitOn_intercalate x (by simpa using ⟨ha, hb⟩) (by simp)
    rw [List.intercalate_cons_cons, List.intercalate_singleton] at hsplit
    simpa using hsplit

/-- Text before the first mark is determined. -/
theorem append_cons_inj_of_notMem_left {a' b' : List α} (ha : x ∉ a) (ha' : x ∉ a') :
    a ++ x :: b = a' ++ x :: b' ↔ a = a' ∧ b = b' := by
  induction a generalizing a' with
  | nil =>
    cases a' with
    | nil => simp
    | cons y a' =>
      constructor
      · intro h
        obtain ⟨rfl, -⟩ := List.cons.inj h
        exact absurd List.mem_cons_self ha'
      · rintro ⟨h, -⟩
        cases h
  | cons y a ih =>
    cases a' with
    | nil =>
      constructor
      · intro h
        obtain ⟨rfl, -⟩ := List.cons.inj h
        exact absurd List.mem_cons_self ha
      · rintro ⟨h, -⟩
        cases h
    | cons z a' =>
      have hrest : a ++ x :: b = a' ++ x :: b' ↔ a = a' ∧ b = b' :=
        ih (fun h => ha (List.mem_cons_of_mem _ h)) fun h => ha' (List.mem_cons_of_mem _ h)
      simp only [List.cons_append, List.cons.injEq, hrest, and_assoc]

end Pair

section Words

variable {p : α → Bool} {sep c : α} {word text : List α} {ws : List (List α)}

/-- What stands between the separators. -/
def words (p : α → Bool) (text : List α) : List (List α) := (text.splitOnP p).filter (· ≠ [])

/-- Words with one separator between them. -/
def unwords (sep : α) (ws : List (List α)) : List α := [sep].intercalate ws

/-- The text with one separator for each run of them, and none at the ends. -/
def collapse (p : α → Bool) (sep : α) (text : List α) : List α := unwords sep (words p text)

structure IsWord (p : α → Bool) (word : List α) : Prop where
  ne_nil : word ≠ []
  solid : ∀ x ∈ word, p x = false

@[simp] theorem words_nil : words p [] = [] := by
  simp [words]

theorem words_cons_sep (hc : p c = true) (text : List α) : words p (c :: text) = words p text := by
  simp [words, List.splitOnP_cons_eq_if_modifyHead, hc]

theorem words_append_sep (hc : p c = true) (text : List α) :
    words p (text ++ [c]) = words p text := by
  simp [words, List.splitOnP_append_cons _ _ hc]

theorem words_append_cons (hc : p c = true) (hword : IsWord p word) (text : List α) :
    words p (word ++ c :: text) = word :: words p text := by
  rw [words, List.splitOnP_append_cons_of_forall_mem hword.solid c hc, words,
    List.filter_cons_of_pos (by simpa using hword.ne_nil)]

theorem words_word (hword : IsWord p word) : words p word = [word] := by
  rw [words, List.splitOnP_eq_singleton hword.solid,
    List.filter_cons_of_pos (by simpa using hword.ne_nil)]
  rfl

theorem words_congr {q : α → Bool} (h : ∀ x ∈ text, p x = q x) : words p text = words q text := by
  have hsplit : text.splitOnP p = text.splitOnP q := by
    induction text with
    | nil => rfl
    | cons x text ih =>
      obtain ⟨hx, hrest⟩ := List.forall_mem_cons.mp h
      rw [List.splitOnP_cons_eq_if_modifyHead, List.splitOnP_cons_eq_if_modifyHead, hx, ih hrest]
  rw [words, words, hsplit]

theorem isWord_of_mem_words (h : word ∈ words p text) : IsWord p word := by
  obtain ⟨hpiece, hne⟩ := List.mem_filter.mp h
  exact ⟨by simpa using hne, fun x hx => (mem_splitOnP hpiece hx).2⟩

theorem mem_of_mem_words (h : word ∈ words p text) {x : α} (hx : x ∈ word) : x ∈ text :=
  (mem_splitOnP (List.mem_filter.mp h).1 hx).1

@[simp] theorem unwords_nil : unwords sep [] = [] := rfl

theorem unwords_singleton (word : List α) : unwords sep [word] = word :=
  List.intercalate_singleton

theorem unwords_cons (word : List α) (hne : ws ≠ []) :
    unwords sep (word :: ws) = word ++ sep :: unwords sep ws := by
  cases ws with
  | nil => exact absurd rfl hne
  | cons other ws =>
    rw [unwords, List.intercalate_cons_cons, List.append_assoc]
    rfl

theorem words_unwords (hsep : p sep = true) (hws : ∀ word ∈ ws, IsWord p word) :
    words p (unwords sep ws) = ws := by
  induction ws with
  | nil => simp
  | cons word ws ih =>
    obtain ⟨hword, hrest⟩ := List.forall_mem_cons.mp hws
    by_cases hne : ws = []
    · rw [hne, unwords_singleton, words_word hword]
    · rw [unwords_cons word hne, words_append_cons hsep hword, ih hrest]

theorem words_collapse (hsep : p sep = true) (text : List α) :
    words p (collapse p sep text) = words p text :=
  words_unwords hsep fun _ hword => isWord_of_mem_words hword

theorem collapse_unwords (hsep : p sep = true) (hws : ∀ word ∈ ws, IsWord p word) :
    collapse p sep (unwords sep ws) = unwords sep ws := by
  rw [collapse, words_unwords hsep hws]

theorem mem_unwords {x : α} (h : x ∈ unwords sep ws) : x = sep ∨ ∃ word ∈ ws, x ∈ word := by
  induction ws with
  | nil => cases h
  | cons word ws ih =>
    by_cases hne : ws = []
    · rw [hne, unwords_singleton] at h
      exact Or.inr ⟨word, List.mem_cons_self, h⟩
    · rw [unwords_cons word hne] at h
      rcases List.mem_append.mp h with h | h
      · exact Or.inr ⟨word, List.mem_cons_self, h⟩
      · rcases List.mem_cons.mp h with rfl | h
        · exact Or.inl rfl
        · obtain hsep | ⟨other, hother, hx⟩ := ih h
          · exact Or.inl hsep
          · exact Or.inr ⟨other, List.mem_cons_of_mem _ hother, hx⟩

theorem mem_collapse {x : α} (h : x ∈ collapse p sep text) : x = sep ∨ x ∈ text := by
  rcases mem_unwords h with hsep | ⟨word, hword, hx⟩
  · exact Or.inl hsep
  · exact Or.inr (mem_of_mem_words hword hx)

theorem unwords_eq_nil (hws : ∀ word ∈ ws, IsWord p word) (h : unwords sep ws = []) : ws = [] := by
  cases ws with
  | nil => rfl
  | cons word ws =>
    have hword := (hws word List.mem_cons_self).ne_nil
    by_cases hne : ws = []
    · rw [hne, unwords_singleton] at h
      exact absurd h hword
    · rw [unwords_cons word hne] at h
      simp at h

/-- The first word of a text, or the separators before it. -/
theorem word_cases (text : List α) :
    text = [] ∨ (∃ c rest, text = c :: rest ∧ p c = true) ∨ IsWord p text ∨
      ∃ word c rest, text = word ++ c :: rest ∧ IsWord p word ∧ p c = true := by
  cases htext : text with
  | nil => exact Or.inl rfl
  | cons d tail =>
    cases hd : p d with
    | true => exact Or.inr (Or.inl ⟨d, tail, rfl, hd⟩)
    | false =>
      right; right
      have hsplit := List.takeWhile_append_dropWhile (p := fun x => !p x) (l := d :: tail)
      have hword : IsWord p ((d :: tail).takeWhile fun x => !p x) := by
        constructor
        · rw [List.takeWhile_cons_of_pos (by simp [hd])]
          exact List.cons_ne_nil _ _
        · intro x hx
          simpa using List.mem_takeWhile_imp hx
      cases hrest : (d :: tail).dropWhile fun x => !p x with
      | nil =>
        rw [hrest, List.append_nil] at hsplit
        rw [← hsplit]
        exact Or.inl hword
      | cons c rest =>
        have hc : p c = true := by
          have hne : (d :: tail).dropWhile (fun x => !p x) ≠ [] := by
            rw [hrest]
            exact List.cons_ne_nil c rest
          have hhead := List.head_dropWhile_not _ hne
          simpa [hrest] using hhead
        rw [hrest] at hsplit
        exact Or.inr ⟨_, c, rest, hsplit.symm, hword, hc⟩

section Middle

variable {bar : α}

/-- At most one separator. -/
def AtMostOne (sep : α) (gap : List α) : Prop := gap = [] ∨ gap = [sep]

theorem collapse_after_bar (hbar : p bar = false) {front : List α}
    (hfront : ∀ x ∈ front, p x = false) (text : List α) :
    ∃ after, AtMostOne sep after ∧
      collapse p sep (front ++ bar :: text) = front ++ bar :: (after ++ collapse p sep text) := by
  have hword : ∀ rest : List α, (∀ x ∈ rest, p x = false) → IsWord p (front ++ bar :: rest) := by
    intro rest hrest
    constructor
    · simp
    · intro x hx
      rcases List.mem_append.mp hx with hx | hx
      · exact hfront x hx
      · rcases List.mem_cons.mp hx with rfl | hx
        · exact hbar
        · exact hrest x hx
  have hclosed : ∀ {first : List α} {c : α} {rest : List α}, IsWord p first → p c = true →
      collapse p sep (first ++ c :: rest) =
        first ++ (if words p rest = [] then [] else sep :: collapse p sep rest) := by
    intro first c rest hfirst hc
    rw [collapse, words_append_cons hc hfirst]
    split
    · next hnone => rw [hnone, unwords_singleton, List.append_nil]
    · next hsome => rw [unwords_cons _ hsome, collapse]
  rcases @word_cases α p text with rfl | ⟨c, rest, rfl, hc⟩ | hsolid | ⟨word, c, rest, rfl, hw, hc⟩
  · refine ⟨[], Or.inl rfl, ?_⟩
    have hone := hword [] (by simp)
    rw [collapse, words_word hone, unwords_singleton]
    simp [collapse]
  · have hrest : collapse p sep (c :: rest) = collapse p sep rest := by
      rw [collapse, words_cons_sep hc, collapse]
    have hsplit : front ++ bar :: c :: rest = (front ++ [bar]) ++ c :: rest := by simp
    rw [hsplit, hclosed (hword [] (by simp)) hc, hrest]
    by_cases hnone : words p rest = []
    · exact ⟨[], Or.inl rfl, by simp [hnone, collapse]⟩
    · exact ⟨[sep], Or.inr rfl, by simp [hnone]⟩
  · refine ⟨[], Or.inl rfl, ?_⟩
    rw [collapse, words_word (hword text hsolid.solid), unwords_singleton, collapse,
      words_word hsolid, unwords_singleton]
    rfl
  · refine ⟨[], Or.inl rfl, ?_⟩
    have hsplit : front ++ bar :: (word ++ c :: rest) = (front ++ bar :: word) ++ c :: rest := by
      simp
    rw [hsplit, hclosed (hword word hw.solid) hc, hclosed hw hc]
    simp

/-- A character that is no separator is kept, with at most one separator on its sides. -/
theorem collapse_append_bar (hbar : p bar = false) (front text : List α) :
    ∃ before after, AtMostOne sep before ∧ AtMostOne sep after ∧
      collapse p sep (front ++ bar :: text) =
        collapse p sep front ++ before ++ bar :: (after ++ collapse p sep text) ∧
      (words p front = [] → before = []) := by
  induction hlength : front.length using Nat.strongRecOn generalizing front with
  | ind n ih =>
    rcases @word_cases α p front with rfl | ⟨c, rest, rfl, hc⟩ | hsolid |
      ⟨word, c, rest, rfl, hw, hc⟩
    · obtain ⟨after, hafter, hcollapse⟩ :=
        @collapse_after_bar α p sep bar hbar [] (by simp) text
      exact ⟨[], after, Or.inl rfl, hafter, by simpa [collapse] using hcollapse, fun _ => rfl⟩
    · obtain ⟨before, after, hbefore, hafter, hcollapse, hnone⟩ :=
        ih rest.length (by simp [← hlength]) rest rfl
      refine ⟨before, after, hbefore, hafter, ?_, ?_⟩
      · have hfront : collapse p sep (c :: rest) = collapse p sep rest := by
          rw [collapse, words_cons_sep hc, collapse]
        rw [List.cons_append, collapse, words_cons_sep hc, ← collapse, hcollapse, hfront]
      · rwa [words_cons_sep hc]
    · obtain ⟨after, hafter, hcollapse⟩ :=
        @collapse_after_bar α p sep bar hbar front hsolid.solid text
      refine ⟨[], after, Or.inl rfl, hafter, ?_, fun _ => rfl⟩
      rw [hcollapse]
      conv_rhs => rw [collapse, words_word hsolid, unwords_singleton]
      simp [collapse]
    · obtain ⟨before, after, hbefore, hafter, hcollapse, hnone⟩ :=
        ih rest.length (by simp [← hlength]; omega) rest rfl
      have hwords : words p (rest ++ bar :: text) ≠ [] := by
        intro hnil
        have hnil' : collapse p sep (rest ++ bar :: text) = [] := by rw [collapse, hnil]; rfl
        rw [hcollapse] at hnil'
        simp at hnil'
      have htotal : collapse p sep (word ++ c :: rest ++ bar :: text) =
          word ++ sep :: collapse p sep (rest ++ bar :: text) := by
        rw [List.append_assoc, List.cons_append, collapse, words_append_cons hc hw,
          unwords_cons _ hwords, collapse]
      rw [htotal, hcollapse]
      by_cases hempty : words p rest = []
      · refine ⟨[sep], after, Or.inr rfl, hafter, ?_, ?_⟩
        · rw [hnone hempty]
          simp [collapse, words_append_cons hc hw, hempty, unwords_singleton]
        · rw [words_append_cons hc hw]
          exact fun h => absurd h (List.cons_ne_nil _ _)
      · refine ⟨before, after, hbefore, hafter, ?_, ?_⟩
        · simp [collapse, words_append_cons hc hw, unwords_cons word hempty]
        · rw [words_append_cons hc hw]
          exact fun h => absurd h (List.cons_ne_nil _ _)

theorem mem_collapse_of_mem (hbar : p bar = false) (h : bar ∈ text) :
    bar ∈ collapse p sep text := by
  obtain ⟨front, rest, rfl⟩ := List.append_of_mem h
  obtain ⟨before, after, -, -, hcollapse, -⟩ := @collapse_append_bar α p sep bar hbar front rest
  rw [hcollapse]
  simp

theorem words_append_gap (hsep : p sep = true) {gap : List α} (hgap : AtMostOne sep gap)
    (text : List α) : words p (text ++ gap) = words p text := by
  rcases hgap with rfl | rfl
  · rw [List.append_nil]
  · exact words_append_sep hsep text

theorem words_gap_append (hsep : p sep = true) {gap : List α} (hgap : AtMostOne sep gap)
    (text : List α) : words p (gap ++ text) = words p text := by
  rcases hgap with rfl | rfl
  · rfl
  · exact words_cons_sep hsep text

end Middle

end Words

end Manus
