import Manus.Runs.OutputFits

/-! # When the output cap only shrinks

The cap does what it is for unless values that are smaller than their markers have to be
replaced, or an object that the step produced is taken for a marker.
-/

namespace Manus.OutputCap

open JsonValue (at? putAt DistinctKeys)

section Conditions

def IsTruncation (value : Json) : Prop := ∃ n, value.Same (marker n)

structure Shrunk (valueMax totalMax : ℕ) (before after : Json) : Prop where
  smaller : size after ≤ size before
  slot : ∀ place ∈ slots after, ∀ value, at? place after = some value →
    size value ≤ valueMax ∨ IsTruncation value
  total : totalMax < size after → ∀ place ∈ slots after, ∀ value, at? place after = some value →
    IsTruncation value

def LooksTruncated (before : Json) (place : List String) : Prop :=
  isMarker (original before place) = true ∧ ¬ IsTruncation (original before place)

def replacedValue (bound valueMax : ℕ) (before : Json) (place : List String) : Json :=
  let value := capped valueMax before place
  if isMarker value = false ∧ bound ≤ size value then marker (size value) else value

def replacedFrom (bound valueMax : ℕ) (before : Json) : Json :=
  (slots before).foldl
    (fun now place => putAt (replacedValue bound valueMax before place) place now) before

end Conditions

section Replacing

variable {before now : Json} {val : List String → Json} {valueMax : ℕ}

theorem Filled.foldl_put (hkeys : DistinctKeys before) (value : List String → Json)
    {places : List (List String)} (h : Filled before val now)
    (hplaces : ∀ place ∈ places, place ∈ OutputCap.slots before) :
    Filled before (fun place => if place ∈ places then value place else val place)
      (places.foldl (fun now place => putAt (value place) place now) now) := by
  induction places generalizing val now with
  | nil => exact h.congr fun place _ => by simp
  | cons place places ih =>
    rw [List.foldl_cons]
    apply (ih (h.put hkeys (hplaces place List.mem_cons_self) (value place))
      fun other hother => hplaces other (List.mem_cons_of_mem _ hother)).congr
    intro other _
    by_cases heq : other = place
    · subst heq
      simp
    · simp [heq]

theorem filled_replacedFrom (hkeys : DistinctKeys before) (bound valueMax : ℕ) :
    Filled before (replacedValue bound valueMax before) (replacedFrom bound valueMax before) := by
  have hfold := (Filled.start hkeys).foldl_put hkeys (replacedValue bound valueMax before)
    fun place hplace => hplace
  exact hfold.congr fun place hplace => if_pos hplace

def openSlots (valueMax : ℕ) (before : Json) (places : List (List String)) : List Sized :=
  (places.filter fun place => !isMarker (capped valueMax before place)).map
    fun place => ⟨size (capped valueMax before place), place⟩

theorem sum_replacedValue (bound : ℕ) (places : List (List String)) :
    ((places.map fun place => size (replacedValue bound valueMax before place)).sum : ℤ) =
      (places.map fun place => size (capped valueMax before place)).sum -
        totalGain ((openSlots valueMax before places).filter fun sized => bound ≤ sized.size) := by
  induction places with
  | nil => rfl
  | cons place places ih =>
    simp only [List.map_cons, List.sum_cons, Nat.cast_add, ih]
    cases hmarker : isMarker (capped valueMax before place) with
    | true =>
      have hopen : openSlots valueMax before (place :: places) =
          openSlots valueMax before places := by
        simp [openSlots, hmarker]
      have hvalue : replacedValue bound valueMax before place = capped valueMax before place := by
        simp [replacedValue, hmarker]
      rw [hopen, hvalue]
      omega
    | false =>
      have hopen : openSlots valueMax before (place :: places) =
          ⟨size (capped valueMax before place), place⟩ :: openSlots valueMax before places := by
        simp [openSlots, hmarker]
      rw [hopen]
      by_cases hbound : bound ≤ size (capped valueMax before place)
      · have hvalue : replacedValue bound valueMax before place =
            marker (size (capped valueMax before place)) := by
          simp [replacedValue, hmarker, hbound]
        rw [List.filter_cons_of_pos (by simpa using hbound), totalGain_cons, hvalue]
        simp only [gain]
        omega
      · have hvalue : replacedValue bound valueMax before place =
            capped valueMax before place := by
          simp [replacedValue, hbound]
        rw [List.filter_cons_of_neg (by simpa using hbound), hvalue]
        omega

theorem size_replacedFrom (hkeys : DistinctKeys before)
    (hfilled : Filled before (capped valueMax before) now) (bound : ℕ) :
    (size (replacedFrom bound valueMax before) : ℤ) =
      size now - totalGain ((openSlots valueMax before (slots before)).filter
        fun sized => bound ≤ sized.size) := by
  have hreplaced := (filled_replacedFrom hkeys bound valueMax).size
  have hcapped := hfilled.size
  have hsum := @sum_replacedValue before valueMax bound (slots before)
  omega

end Replacing

section Remaining

variable {before now : Json} {valueMax : ℕ}

theorem sizedPlaces_capped (hkeys : DistinctKeys before)
    (hfilled : Filled before (capped valueMax before) now) :
    sizedPlaces ((sizedPlaces (slots before) before).map Sized.place) now =
      openSlots valueMax before (slots before) := by
  have hplaces : (sizedPlaces (slots before) before).map Sized.place =
      (slots before).filter fun place => !isMarker (original before place) := by
    rw [sizedPlaces_eq (Filled.start hkeys).value, List.map_map]
    exact List.map_id _
  have hvalue : ∀ place ∈ (slots before).filter fun place => !isMarker (original before place),
      at? place now = some (capped valueMax before place) :=
    fun place hplace => hfilled.value place (List.mem_filter.mp hplace).1
  rw [hplaces, sizedPlaces_eq hvalue, openSlots, List.filter_filter]
  congr 1
  apply List.filter_congr
  intro place _
  cases hmarker : isMarker (capped valueMax before place) with
  | true => rfl
  | false => rw [original_of_capped hmarker]; rfl

theorem remaining_perm (hkeys : DistinctKeys before)
    (hfilled : Filled before (capped valueMax before) now) :
    (remaining (sizedPlaces (slots before) before) now).Perm
      (openSlots valueMax before (slots before)) := by
  rw [remaining, sizedPlaces_capped hkeys hfilled]
  exact (List.reverse_perm _).trans (List.mergeSort_perm _ _)

theorem left_remaining (hkeys : DistinctKeys before)
    (hfilled : Filled before (capped valueMax before) now) :
    Left before (capped valueMax before)
      (remaining (sizedPlaces (slots before) before) now) := by
  have hperm := remaining_perm hkeys hfilled
  have hmem : ∀ sized ∈ remaining (sizedPlaces (slots before) before) now,
      sized.place ∈ slots before ∧ size (capped valueMax before sized.place) = sized.size := by
    intro sized hsized
    obtain ⟨place, hplace, rfl⟩ := List.mem_map.mp (hperm.mem_iff.mp hsized)
    exact ⟨(List.mem_filter.mp hplace).1, rfl⟩
  constructor
  · exact fun sized hsized => (hmem sized hsized).1
  · exact fun sized hsized => (hmem sized hsized).2
  · apply (hperm.map Sized.place).nodup_iff.mpr
    rw [openSlots, List.map_map]
    change (((slots before).filter _).map id).Nodup
    rw [List.map_id]
    exact (nodup_slots hkeys).filter _
  · rw [remaining, List.pairwise_reverse]
    have htrans : ∀ a b c : Sized, decide (a.size ≤ b.size) = true →
        decide (b.size ≤ c.size) = true → decide (a.size ≤ c.size) = true := by
      intro a b c hab hbc
      simp only [decide_eq_true_eq] at hab hbc ⊢
      omega
    have htotal : ∀ a b : Sized, (decide (a.size ≤ b.size) || decide (b.size ≤ a.size)) = true := by
      intro a b
      simp only [Bool.or_eq_true, decide_eq_true_eq]
      omega
    have hsorted := List.pairwise_mergeSort htrans htotal
      (sizedPlaces ((sizedPlaces (slots before) before).map Sized.place) now)
    exact hsorted.imp fun hle => by simpa using hle

theorem mem_remaining (hkeys : DistinctKeys before)
    (hfilled : Filled before (capped valueMax before) now) {place : List String} :
    place ∈ (remaining (sizedPlaces (slots before) before) now).map Sized.place ↔
      place ∈ slots before ∧ isMarker (capped valueMax before place) = false := by
  rw [((remaining_perm hkeys hfilled).map Sized.place).mem_iff, openSlots, List.map_map]
  change place ∈ ((slots before).filter _).map id ↔ _
  rw [List.map_id, List.mem_filter]
  simp

theorem totalGain_perm {rest rest' : List Sized} (h : rest.Perm rest') :
    totalGain rest = totalGain rest' := (h.map gain).sum_eq

end Remaining

section Capped

variable {before : Json} {valueMax totalMax : ℕ}

theorem isTruncation_marker (n : ℕ) : IsTruncation (marker n) := ⟨n, JsonValue.Same.refl _⟩

theorem looksTruncated_of (hmax : 32 ≤ valueMax) {place : List String}
    (hsize : valueMax < size (capped valueMax before place))
    (htruncation : ¬ IsTruncation (capped valueMax before place)) :
    LooksTruncated before place ∧ capped valueMax before place = original before place := by
  cases hmarker : isMarker (original before place) with
  | true =>
    rw [capped_of_marker hmarker] at htruncation ⊢
    exact ⟨⟨hmarker, htruncation⟩, rfl⟩
  | false =>
    rcases capped_cases hmax hmarker with ⟨n, hn⟩ | ⟨hle, -⟩
    · rw [hn] at htruncation
      exact absurd (isTruncation_marker n) htruncation
    · omega

theorem shrunk_cappedOutput_iff (hkeys : DistinctKeys before) (hmax : 32 ≤ valueMax) :
    Shrunk valueMax totalMax before (cappedOutput valueMax totalMax before) ↔
      (∀ place ∈ slots before, LooksTruncated before place →
        size (original before place) ≤ valueMax) ∧
      (size (replacedFrom 33 valueMax before) ≤ totalMax ∨
        (∀ place ∈ slots before, ¬ LooksTruncated before place) ∧
          size (replacedFrom 0 valueMax before) ≤ size before) := by
  have hfilled : Filled before (capped valueMax before)
      ((sizedPlaces (slots before) before).foldl (shrinkAt valueMax) before) :=
    filled_capped hkeys
  have hleft := left_remaining hkeys hfilled
  have hperm := remaining_perm hkeys hfilled
  have hmem := fun place => @mem_remaining before _ valueMax hkeys hfilled place
  have hlarge := size_replacedFrom hkeys hfilled 33
  have hall := size_replacedFrom hkeys hfilled 0
  have hsmaller : size ((sizedPlaces (slots before) before).foldl (shrinkAt valueMax) before) ≤
      size before := by
    have hsize := hfilled.size
    have hsum : ((slots before).map fun place => size (capped valueMax before place)).sum ≤
        ((slots before).map fun place => size (original before place)).sum :=
      List.sum_le_sum fun place _ => size_capped_le hmax place
    omega
  unfold cappedOutput
  dsimp only
  generalize (sizedPlaces (slots before) before).foldl (shrinkAt valueMax) before = shrunk at *
  generalize remaining (sizedPlaces (slots before) before) shrunk = rest at *
  have hlargeGain : totalGain ((openSlots valueMax before (slots before)).filter
      fun sized => 33 ≤ sized.size) = largeGain rest :=
    totalGain_perm (hperm.symm.filter _)
  have hallGain : totalGain ((openSlots valueMax before (slots before)).filter
      fun sized => 0 ≤ sized.size) = totalGain rest := by
    rw [List.filter_eq_self.mpr (by simp)]
    exact totalGain_perm hperm.symm
  rw [hlargeGain] at hlarge
  rw [hallGain] at hall
  by_cases hfits : (size shrunk : ℤ) - largeGain rest ≤ totalMax
  · obtain ⟨hle, hunder, val, hdone, hval⟩ := replaceLargest_fits hkeys hfilled hleft hfits
    generalize replaceLargest totalMax rest shrunk = out at *
    constructor
    · intro h
      refine ⟨?_, Or.inl (by omega)⟩
      intro place hplace hlooks
      have hkept : val place = original before place := by
        rcases hval place with heq | ⟨hrest, -⟩
        · rw [heq, capped_of_marker hlooks.1]
        · have hopen := ((hmem place).mp hrest).2
          rw [capped_of_marker hlooks.1, hlooks.1] at hopen
          cases hopen
      have hslot := h.slot place (by rw [hdone.slots]; exact hplace) _ (hdone.value place hplace)
      rw [hkept] at hslot
      exact hslot.resolve_right hlooks.2
    · rintro ⟨hlooks, -⟩
      constructor
      · omega
      · intro place hplace value hvalue
        rw [hdone.slots] at hplace
        obtain rfl := Option.some.inj ((hdone.value place hplace).symm.trans hvalue)
        rcases hval place with heq | ⟨-, n, hn⟩
        · by_contra hneither
          rw [not_or, Nat.not_le, heq] at hneither
          obtain ⟨hlook, hsame⟩ := looksTruncated_of hmax hneither.1 hneither.2
          have hle := hlooks place hplace hlook
          rw [← hsame] at hle
          omega
        · exact Or.inr (hn ▸ isTruncation_marker n)
      · intro hover
        omega
  · obtain ⟨hsize, val, hdone, hval⟩ :=
      replaceLargest_runs_out hkeys hfilled hleft (Int.lt_of_not_ge hfits)
    have hgains := totalGain_le_largeGain rest
    generalize replaceLargest totalMax rest shrunk = out at *
    have hover : totalMax < size out := by omega
    have hkept : ∀ place ∈ slots before, (∃ n, val place = marker n) ∨
        isMarker (capped valueMax before place) = true ∧
          val place = capped valueMax before place := by
      intro place hplace
      rcases hval place with ⟨hrest, heq⟩ | ⟨-, hmarker⟩
      · right
        rw [hmem] at hrest
        refine ⟨?_, heq⟩
        by_contra hopen
        exact hrest ⟨hplace, by simpa using hopen⟩
      · exact Or.inl hmarker
    constructor
    · intro h
      have hnone : ∀ place ∈ slots before, ¬ LooksTruncated before place := by
        intro place hplace hlooks
        have htotal := h.total hover place (by rw [hdone.slots]; exact hplace) _
          (hdone.value place hplace)
        rcases hval place with ⟨-, heq⟩ | ⟨hrest, -⟩
        · rw [heq, capped_of_marker hlooks.1] at htotal
          exact hlooks.2 htotal
        · have hopen := ((hmem place).mp hrest).2
          rw [capped_of_marker hlooks.1, hlooks.1] at hopen
          cases hopen
      refine ⟨fun place hplace hlooks => absurd hlooks (hnone place hplace), Or.inr ⟨hnone, ?_⟩⟩
      have hle := h.smaller
      omega
    · rintro ⟨-, hcond⟩
      obtain ⟨hnone, hle⟩ := hcond.resolve_left (by omega)
      have htruncation : ∀ place ∈ slots before, IsTruncation (val place) := by
        intro place hplace
        rcases hkept place hplace with ⟨n, hn⟩ | ⟨hmarker, heq⟩
        · exact hn ▸ isTruncation_marker n
        · rw [heq]
          cases horiginal : isMarker (original before place) with
          | true =>
            rw [capped_of_marker horiginal]
            by_contra hnot
            exact hnone place hplace ⟨horiginal, hnot⟩
          | false =>
            rcases capped_cases hmax horiginal with ⟨n, hn⟩ | ⟨-, hopen⟩
            · rw [hn]
              exact isTruncation_marker n
            · rw [hmarker] at hopen
              cases hopen
      have hslot : ∀ place ∈ slots out, ∀ value, at? place out = some value →
          IsTruncation value := by
        intro place hplace value hvalue
        rw [hdone.slots] at hplace
        obtain rfl := Option.some.inj ((hdone.value place hplace).symm.trans hvalue)
        exact htruncation place hplace
      exact ⟨by omega, fun place hplace value hvalue => Or.inr (hslot place hplace value hvalue),
        fun _ => hslot⟩

/-- The cap only shrinks and reaches its limit when it can, in just these cases. -/
theorem capPersistedOutput_iff {persisted : List (String × Json)}
    (hkeys : DistinctKeys (.obj persisted)) (hmax : size (marker 0) ≤ valueMax) :
    (∃ after, capPersistedOutput valueMax totalMax persisted = .ok after ∧
        Shrunk valueMax totalMax (.obj persisted) after) ↔
      hasLongInt (.obj persisted) = false ∧
      (∀ place ∈ slots (.obj persisted), LooksTruncated (.obj persisted) place →
        size (original (.obj persisted) place) ≤ valueMax) ∧
      (size (replacedFrom 33 valueMax (.obj persisted)) ≤ totalMax ∨
        (∀ place ∈ slots (.obj persisted), ¬ LooksTruncated (.obj persisted) place) ∧
          size (replacedFrom 0 valueMax (.obj persisted)) ≤ size (.obj persisted)) := by
  have hmarker : size (marker 0) = 32 := by decide +kernel
  rw [hmarker] at hmax
  rw [← shrunk_cappedOutput_iff hkeys hmax, capPersistedOutput]
  cases hlong : hasLongInt (.obj persisted) with
  | true => simp
  | false => simp

end Capped

section Small

def smallNumbers : List (String × Json) :=
  [("success", .obj [("metadata",
    .obj [("a", .num (.int 1)), ("b", .num (.int 2)), ("c", .num (.int 3))])])]

theorem distinctKeys_smallNumbers : DistinctKeys (.obj smallNumbers) := by
  apply DistinctKeys.obj (by decide)
  rintro field (_ | ⟨_, ⟨⟩⟩)
  apply DistinctKeys.obj (by decide)
  rintro field (_ | ⟨_, ⟨⟩⟩)
  apply DistinctKeys.obj (by decide)
  intro field hfield
  simp only [List.mem_cons, List.not_mem_nil, or_false] at hfield
  rcases hfield with rfl | rfl | rfl <;> exact JsonValue.distinctKeys_num _

/-- With room for all of it nothing is lost. -/
theorem capPersistedOutput_iff_small :
    ∃ after, capPersistedOutput 40 100 smallNumbers = .ok after ∧
      Shrunk 40 100 (.obj smallNumbers) after := by
  apply (capPersistedOutput_iff distinctKeys_smallNumbers (by decide +kernel)).mpr
  refine ⟨by decide +kernel, ?_, Or.inl (by decide +kernel)⟩
  have hall : ∀ place ∈ slots (.obj smallNumbers),
      isMarker (original (.obj smallNumbers) place) = false := by decide +kernel
  intro place hplace hlooks
  rw [LooksTruncated, hall place hplace] at hlooks
  cases hlooks.1

/-- Markers in place of small numbers make the output larger. -/
theorem small_numbers_grow :
    ¬ ∀ valueMax totalMax persisted, DistinctKeys (.obj persisted) →
      size (marker 0) ≤ valueMax → size (marker 0) ≤ totalMax →
      ∃ after, capPersistedOutput valueMax totalMax persisted = .ok after ∧
        Shrunk valueMax totalMax (.obj persisted) after := by
  intro h
  obtain ⟨after, hafter, hshrunk⟩ :=
    h 40 40 smallNumbers distinctKeys_smallNumbers (by decide +kernel) (by decide +kernel)
  have hcapped : cappedOutput 40 40 (.obj smallNumbers) = after := by
    rw [capPersistedOutput, if_neg (by decide +kernel)] at hafter
    exact Except.ok.inj hafter
  rw [← hcapped, shrunk_cappedOutput_iff distinctKeys_smallNumbers (by decide)] at hshrunk
  have hlarge : ¬ size (replacedFrom 33 40 (.obj smallNumbers)) ≤ 40 := by decide +kernel
  have hall : ¬ size (replacedFrom 0 40 (.obj smallNumbers)) ≤ size (.obj smallNumbers) := by
    decide +kernel
  rcases hshrunk.2 with hfits | ⟨-, hsmaller⟩
  · exact hlarge hfits
  · exact hall hsmaller

end Small

end Manus.OutputCap
