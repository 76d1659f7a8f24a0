import Manus.Secrets.Redaction

/-! # What scrubbing leaves of a text

The occurrences of the secrets are collected as stretches, sorted and joined, and each
joined stretch is replaced. What comes out is the text with each maximal run of covered
characters replaced by one placeholder, whatever overlaps or nests.
-/

namespace Manus

variable {secrets : List String} {text : String}

def CoveredBySecret (secrets : List String) (text : List Char) (i : ℕ) : Prop :=
  ∃ secret ∈ secrets, ∃ start, (start ≤ i ∧ i < start + secret.length) ∧
    secret.toList <+: text.drop start

def secretSpans (secrets : List String) (text : List Char) : List (ℕ × ℕ) :=
  secrets.flatMap fun secret => (occurrences secret.toList text).map
    fun start => (start, start + secret.length)

theorem mem_secretSpans {text : List Char} {span : ℕ × ℕ} : span ∈ secretSpans secrets text ↔
    ∃ secret ∈ secrets, span.1 ≤ text.length ∧ secret.toList <+: text.drop span.1 ∧
      span.2 = span.1 + secret.length := by
  simp only [secretSpans, List.mem_flatMap, List.mem_map, mem_occurrences]
  constructor
  · rintro ⟨secret, hsecret, start, ⟨hstart, hoccurs⟩, rfl⟩
    exact ⟨secret, hsecret, hstart, hoccurs, rfl⟩
  · rintro ⟨secret, hsecret, hstart, hoccurs, hstop⟩
    exact ⟨secret, hsecret, span.1, ⟨hstart, hoccurs⟩, Prod.ext rfl hstop.symm⟩

theorem inSpans_secretSpans {text : List Char} {i : ℕ} :
    InSpans (secretSpans secrets text) i ↔ CoveredBySecret secrets text i := by
  constructor
  · rintro ⟨span, hspan, hcovers⟩
    obtain ⟨secret, hsecret, -, hoccurs, hstop⟩ := mem_secretSpans.mp hspan
    rw [hstop] at hcovers
    exact ⟨secret, hsecret, span.1, hcovers, hoccurs⟩
  · rintro ⟨secret, hsecret, start, hcovers, hoccurs⟩
    refine ⟨(start, start + secret.length), mem_secretSpans.mpr
      ⟨secret, hsecret, ?_, hoccurs, rfl⟩, hcovers⟩
    -- a secret that covers a position is not empty, so it does not occur past the end
    have hlength := hoccurs.length_le
    rw [List.length_drop, String.length_toList] at hlength
    omega

instance (secrets : List String) (text : List Char) :
    DecidablePred (CoveredBySecret secrets text) :=
  fun _ => decidable_of_iff _ inSpans_secretSpans

theorem secretSpans_valid (hne : ∀ secret ∈ secrets, secret ≠ "") {span : ℕ × ℕ}
    (h : span ∈ secretSpans secrets text.toList) :
    span.1 < span.2 ∧ span.2 ≤ text.toList.length := by
  obtain ⟨secret, hsecret, hstart, hoccurs, hstop⟩ := mem_secretSpans.mp h
  have hpos : 0 < secret.length := by
    rw [Nat.pos_iff_ne_zero, Ne, String.length_eq_zero_iff]
    exact hne secret hsecret
  have hlength := hoccurs.length_le
  rw [List.length_drop, String.length_toList] at hlength
  omega

/-- Scrubbing replaces each maximal run of characters that occurrences of secrets cover by one
placeholder, and keeps all others in order. -/
theorem scrubString_eq_maskRuns (hne : ∀ secret ∈ secrets, secret ≠ "") :
    scrubString text secrets = String.ofList (maskRuns redactedPlaceholder.toList
      (CoveredBySecret secrets text.toList) 0 false text.toList) := by
  have hmem : ∀ a, a ∈ (secretSpans secrets text.toList).insertionSort spanLe ↔
      a ∈ secretSpans secrets text.toList := fun a => List.mem_insertionSort spanLe
  have hvalid : ∀ a ∈ (secretSpans secrets text.toList).insertionSort spanLe,
      a.1 < a.2 ∧ a.2 ≤ text.toList.length :=
    fun a ha => secretSpans_valid hne ((hmem a).mp ha)
  have hcovered : ∀ i, InSpans ((secretSpans secrets text.toList).insertionSort spanLe) i ↔
      CoveredBySecret secrets text.toList i := by
    intro i
    rw [← inSpans_secretSpans]
    simp only [InSpans, hmem]
  have hordered := ordered_insertionSort (secretSpans secrets text.toList)
  cases hsort : (secretSpans secrets text.toList).insertionSort spanLe with
  | nil =>
    -- no secret occurs, and the whole text is kept
    rw [hsort] at hcovered
    have hnone : ∀ j, 0 ≤ j → j < 0 + text.toList.length →
        ¬ CoveredBySecret secrets text.toList j := by
      rintro j - - hc
      obtain ⟨a, ha, -⟩ := (hcovered j).mpr hc
      cases ha
    obtain ⟨_, heq, -⟩ := maskRuns_uncovered redactedPlaceholder.toList [] false hnone
    rw [List.append_nil] at heq
    rw [heq, maskRuns, List.append_nil, String.ofList_toList, scrubString]
    split
    next => rfl
    next h => exact absurd (h.symm.trans hsort) (List.cons_ne_nil _ _)
  | cons first spans =>
    rw [hsort] at hcovered hvalid hordered
    obtain ⟨-, hapart, hfirst⟩ := joinSpans_spec hordered fun a ha => (hvalid a ha).1.le
    have hscrub : scrubString text secrets = String.ofList
        (maskSpans redactedPlaceholder.toList text.toList 0 (joinSpans first spans)) := by
      rw [scrubString]
      split
      next h => exact absurd (hsort.symm.trans h) (List.cons_ne_nil _ _)
      next h =>
        obtain ⟨rfl, rfl⟩ := List.cons.inj (h.symm.trans hsort)
        rfl
    rw [hscrub]
    have hcover : ∀ i, 0 ≤ i → (CoveredBySecret secrets text.toList i ↔
        InSpans (joinSpans first spans) i) := by
      rintro i -
      rw [inSpans_joinSpans hordered, hcovered]
    have hstart : ∀ b ∈ joinSpans first spans, 0 ≤ b.1 ∧ (false = true → 0 < b.1) :=
      fun b _ => ⟨Nat.zero_le _, fun h => absurd h (by decide)⟩
    rw [maskSpans_eq_maskRuns hapart (joinSpans_valid hvalid) hstart hcover, List.drop_zero]

theorem scrubString_nested :
    scrubString "xabcdefghijkab-ab" ["abcdefgh", "defghijk", "ab"] =
      "x" ++ redactedPlaceholder ++ "-" ++ redactedPlaceholder :=
  (scrubString_eq_maskRuns (by decide)).trans (by decide +kernel)

end Manus
