import Manus.Runs.OutputSlots
import Mathlib.Data.List.Perm.Basic
import Mathlib.Algebra.Order.BigOperators.Group.List
import Mathlib.Tactic.Linarith

/-! # What the output cap reaches

Every slot is capped on its own, and the loop over the largest values reaches its limit
unless it runs out of slots. It makes the output larger once only values that are smaller
than their markers are left.
-/

namespace Manus.OutputCap

open JsonValue (at? putAt DistinctKeys)

section Filling

def original (before : Json) (place : List String) : Json := (at? place before).getD .null

structure Filled (before : Json) (val : List String → Json) (now : Json) : Prop where
  value : ∀ place ∈ slots before, at? place now = some (val place)
  size : size now + ((slots before).map fun place => size (original before place)).sum =
    size before + ((slots before).map fun place => size (val place)).sum
  slots : slots now = slots before

variable {before now : Json} {val val' : List String → Json} {place : List String}

theorem Filled.start (h : DistinctKeys before) : Filled before (original before) before where
  value place hplace := by
    obtain ⟨-, value, hvalue⟩ := mem_slots h hplace
    rw [original, hvalue, Option.getD_some]
  size := rfl
  slots := rfl

theorem Filled.congr (h : Filled before val now)
    (hval : ∀ place ∈ OutputCap.slots before, val place = val' place) :
    Filled before val' now where
  value place hplace := by rw [← hval place hplace, h.value place hplace]
  size := by
    rw [h.size]
    congr 2
    apply List.map_congr_left
    intro place hplace
    rw [hval place hplace]
  slots := h.slots

theorem sum_map_update {l : List (List String)} (hnodup : l.Nodup) (hplace : place ∈ l)
    (new : Json) :
    (l.map fun other => size (Function.update val place new other)).sum + size (val place) =
      (l.map fun other => size (val other)).sum + size new := by
  induction l with
  | nil => cases hplace
  | cons first l ih =>
    obtain ⟨hfirst, hnodup⟩ := List.nodup_cons.mp hnodup
    rcases List.mem_cons.mp hplace with rfl | hplace
    · have hrest : (l.map fun other => size (Function.update val place new other)) =
          l.map fun other => size (val other) := by
        apply List.map_congr_left
        intro other hother
        rw [Function.update_of_ne]
        rintro rfl
        exact hfirst hother
      simp only [List.map_cons, List.sum_cons, Function.update_self, hrest]
      omega
    · have hne : first ≠ place := by
        rintro rfl
        exact hfirst hplace
      have hrest := ih hnodup hplace
      simp only [List.map_cons, List.sum_cons, Function.update_of_ne hne]
      omega

theorem Filled.put (hkeys : DistinctKeys before) (h : Filled before val now)
    (hplace : place ∈ OutputCap.slots before) (new : Json) :
    Filled before (Function.update val place new) (putAt new place now) where
  value other hother := by
    by_cases heq : other = place
    · subst heq
      rw [Function.update_self]
      exact JsonValue.at?_putAt_self (h.value other hother)
    · rw [Function.update_of_ne heq, ← h.value other hother]
      have hapart := (mem_slots hkeys hplace).1.apart (mem_slots hkeys hother).1 (Ne.symm heq)
      exact JsonValue.at?_putAt_apart hapart
  size := by
    have hput := @size_putAt new now _ place (h.value place hplace)
    have hsum := @sum_map_update val place _ (nodup_slots hkeys) hplace new
    have hsize := h.size
    omega
  slots := (slots_putAt (mem_slots hkeys hplace).1 now).trans h.slots

end Filling

section Capping

variable {before now : Json} {val : List String → Json} {valueMax : ℕ}

def capped (valueMax : ℕ) (before : Json) (place : List String) : Json :=
  let value := original before place
  if isMarker value then value
  else if valueMax < size value then shrink valueMax (size value) value
  else value

theorem capped_of_marker {place : List String} (h : isMarker (original before place) = true) :
    capped valueMax before place = original before place := by
  rw [capped, if_pos h]

theorem capped_cases (hmax : 32 ≤ valueMax) {place : List String}
    (h : isMarker (original before place) = false) :
    (∃ n, capped valueMax before place = marker n) ∨
      size (capped valueMax before place) ≤ valueMax ∧
        isMarker (capped valueMax before place) = false := by
  rw [capped, if_neg (by simp [h])]
  split
  · rename_i hlarge
    rcases shrink_cases hmax hlarge h with hmarker | hfits
    · exact Or.inl ⟨_, hmarker⟩
    · exact Or.inr hfits
  · rename_i hsmall
    exact Or.inr ⟨Nat.le_of_not_lt hsmall, h⟩

theorem original_of_capped {place : List String}
    (h : isMarker (capped valueMax before place) = false) :
    isMarker (original before place) = false := by
  cases horiginal : isMarker (original before place) with
  | false => rfl
  | true =>
    rw [capped_of_marker horiginal, horiginal] at h
    cases h

theorem size_capped_le (hmax : 32 ≤ valueMax) (place : List String) :
    size (capped valueMax before place) ≤ size (original before place) := by
  cases hmarker : isMarker (original before place) with
  | true => rw [capped_of_marker hmarker]
  | false =>
    rw [capped, if_neg (by simp [hmarker])]
    split
    · rename_i hlarge
      rcases shrink_cases hmax hlarge hmarker with heq | ⟨hfits, -⟩
      · rw [heq]
        exact size_marker_le (by omega)
      · omega
    · exact le_rfl

theorem sizedPlaces_eq {places : List (List String)}
    (h : ∀ place ∈ places, at? place now = some (val place)) :
    sizedPlaces places now = (places.filter fun place => !isMarker (val place)).map
      fun place => ⟨size (val place), place⟩ := by
  induction places with
  | nil => rfl
  | cons place places ih =>
    have hplace := h place List.mem_cons_self
    have hrest := ih fun other hother => h other (List.mem_cons_of_mem _ hother)
    unfold sizedPlaces at hrest ⊢
    cases hmarker : isMarker (val place) with
    | true => simp [hplace, hmarker, hrest]
    | false => simp [hplace, hmarker, hrest]

/-- The first pass caps the slots it goes over. -/
theorem Filled.foldl_shrinkAt (hkeys : DistinctKeys before) {places : List (List String)}
    (h : Filled before val now) (hnodup : places.Nodup)
    (hplaces : ∀ place ∈ places,
      place ∈ OutputCap.slots before ∧ val place = original before place ∧
      isMarker (original before place) = false) :
    Filled before (fun place => if place ∈ places then capped valueMax before place else val place)
      ((places.map fun place => (⟨OutputCap.size (original before place), place⟩ : Sized)).foldl
        (shrinkAt valueMax) now) := by
  induction places generalizing val now with
  | nil => exact h.congr fun place _ => by simp
  | cons place places ih =>
    obtain ⟨hslot, hval, hmarker⟩ := hplaces place List.mem_cons_self
    obtain ⟨hnew, hnodup⟩ := List.nodup_cons.mp hnodup
    have hat := h.value place hslot
    have hstep : shrinkAt valueMax now ⟨OutputCap.size (original before place), place⟩ =
        putAt (capped valueMax before place) place now := by
      unfold shrinkAt capped
      rw [hval] at hat
      simp only [hat, hmarker, Bool.false_eq_true, if_false]
      split
      · rfl
      · exact (JsonValue.putAt_self hat).symm
    rw [List.map_cons, List.foldl_cons, hstep]
    have hrest := ih (h.put hkeys hslot (capped valueMax before place)) hnodup (by
      intro other hother
      obtain ⟨hslot', hval', hmarker'⟩ := hplaces other (List.mem_cons_of_mem _ hother)
      have hne : other ≠ place := by
        rintro rfl
        exact hnew hother
      exact ⟨hslot', by rw [Function.update_of_ne hne, hval'], hmarker'⟩)
    apply hrest.congr
    intro other _
    by_cases heq : other = place
    · subst heq
      simp [hnew]
    · simp [heq]

theorem filled_capped (hkeys : DistinctKeys before) :
    Filled before (capped valueMax before)
      ((sizedPlaces (slots before) before).foldl (shrinkAt valueMax) before) := by
  have hstart := Filled.start hkeys
  rw [sizedPlaces_eq hstart.value]
  have hnodup := (nodup_slots hkeys).filter fun place => !isMarker (original before place)
  apply (hstart.foldl_shrinkAt hkeys hnodup _).congr
  · intro place hplace
    split
    · rfl
    · rename_i hmem
      have hmarker : isMarker (original before place) = true := by
        by_contra hfalse
        exact hmem (List.mem_filter.mpr ⟨hplace, by simpa using hfalse⟩)
      exact (capped_of_marker hmarker).symm
  · intro place hplace
    obtain ⟨hslot, hmarker⟩ := List.mem_filter.mp hplace
    exact ⟨hslot, rfl, by simpa using hmarker⟩

end Capping

section Loop

variable {before now : Json} {val : List String → Json} {totalMax : ℕ} {rest : List Sized}

def gain (sized : Sized) : ℤ := (sized.size : ℤ) - size (marker sized.size)

def totalGain (rest : List Sized) : ℤ := (rest.map gain).sum

def largeGain (rest : List Sized) : ℤ := totalGain (rest.filter fun sized => 33 ≤ sized.size)

theorem gain_nonneg {sized : Sized} (h : 33 ≤ sized.size) : 0 ≤ gain sized := by
  have hle := size_marker_le h
  unfold gain
  omega

theorem gain_neg {sized : Sized} (h : sized.size < 33) : gain sized < 0 := by
  have hlt := lt_size_marker h
  unfold gain
  omega

theorem totalGain_cons (sized : Sized) (rest : List Sized) :
    totalGain (sized :: rest) = gain sized + totalGain rest := List.sum_cons

theorem largeGain_cons (sized : Sized) (rest : List Sized) :
    largeGain (sized :: rest) =
      (if 33 ≤ sized.size then gain sized else 0) + largeGain rest := by
  unfold largeGain
  by_cases h : 33 ≤ sized.size
  · rw [List.filter_cons_of_pos (by simpa using h), totalGain_cons, if_pos h]
  · rw [List.filter_cons_of_neg (by simpa using h), if_neg h, zero_add]

theorem largeGain_nonneg (rest : List Sized) : 0 ≤ largeGain rest := by
  induction rest with
  | nil => exact le_rfl
  | cons sized rest ih =>
    rw [largeGain_cons]
    split
    · rename_i h
      have hgain := gain_nonneg h
      omega
    · omega

theorem totalGain_le_largeGain (rest : List Sized) : totalGain rest ≤ largeGain rest := by
  induction rest with
  | nil => exact le_rfl
  | cons sized rest ih =>
    rw [largeGain_cons, totalGain_cons]
    split
    · omega
    · rename_i h
      have hgain := gain_neg (Nat.lt_of_not_le h)
      omega

theorem largeGain_of_small (h : ∀ sized ∈ rest, sized.size < 33) : largeGain rest = 0 := by
  have hnone : rest.filter (fun sized => 33 ≤ sized.size) = [] := by
    rw [List.filter_eq_nil_iff]
    intro sized hmem
    have hsmall := h sized hmem
    simpa using hsmall
  rw [largeGain, hnone]
  rfl

/-- The values that are left: each in a slot of its own, of the size given, the largest first. -/
structure Left (before : Json) (val : List String → Json) (rest : List Sized) : Prop where
  slot : ∀ sized ∈ rest, sized.place ∈ slots before
  size : ∀ sized ∈ rest, OutputCap.size (val sized.place) = sized.size
  nodup : (rest.map Sized.place).Nodup
  sorted : rest.Pairwise fun a b => b.size ≤ a.size

theorem Left.tail {sized : Sized} (h : Left before val (sized :: rest)) (new : Json) :
    Left before (Function.update val sized.place new) rest where
  slot other hother := h.slot other (List.mem_cons_of_mem _ hother)
  size other hother := by
    have hne : other.place ≠ sized.place := fun heq =>
      (List.nodup_cons.mp h.nodup).1 (heq ▸ List.mem_map_of_mem hother)
    rw [Function.update_of_ne hne, h.size other (List.mem_cons_of_mem _ hother)]
  nodup := (List.nodup_cons.mp h.nodup).2
  sorted := (List.pairwise_cons.mp h.sorted).2

theorem size_put_marker {sized : Sized} (hfilled : Filled before val now)
    (h : Left before val (sized :: rest)) :
    (size (putAt (marker sized.size) sized.place now) : ℤ) = size now - gain sized := by
  have hat := hfilled.value sized.place (h.slot sized List.mem_cons_self)
  have hput := @size_putAt (marker sized.size) now _ sized.place hat
  have hsize := h.size sized List.mem_cons_self
  unfold gain
  omega

/-- The loop reaches its limit where the values that are not too small suffice. -/
theorem replaceLargest_fits (hkeys : DistinctKeys before) (hfilled : Filled before val now)
    (hleft : Left before val rest) (hfits : (size now : ℤ) - largeGain rest ≤ totalMax) :
    size (replaceLargest totalMax rest now) ≤ size now ∧
      size (replaceLargest totalMax rest now) ≤ totalMax ∧
      ∃ val', Filled before val' (replaceLargest totalMax rest now) ∧
        ∀ place, val' place = val place ∨
          place ∈ rest.map Sized.place ∧ ∃ n, val' place = marker n := by
  induction rest generalizing val now with
  | nil =>
    have hnone : largeGain [] = 0 := rfl
    rw [hnone] at hfits
    exact ⟨le_rfl, by rw [replaceLargest]; omega, val, hfilled, fun place => Or.inl rfl⟩
  | cons sized rest ih =>
    rw [replaceLargest]
    split
    · rename_i hover
      have hgain := size_put_marker hfilled hleft
      rw [largeGain_cons] at hfits
      split at hfits
      · rename_i hlarge
        have hnonneg := gain_nonneg hlarge
        obtain ⟨hsmaller, hmax, val', hfilled', hval'⟩ :=
          ih (hfilled.put hkeys (hleft.slot sized List.mem_cons_self) (marker sized.size))
            (hleft.tail _) (by omega)
        refine ⟨by omega, hmax, val', hfilled', ?_⟩
        intro place
        rcases hval' place with heq | ⟨hmem, hmarker⟩
        · by_cases hplace : place = sized.place
          · subst hplace
            rw [Function.update_self] at heq
            exact Or.inr ⟨List.mem_cons_self, _, heq⟩
          · rw [Function.update_of_ne hplace] at heq
            exact Or.inl heq
        · exact Or.inr ⟨List.mem_cons_of_mem _ hmem, hmarker⟩
      · rename_i hsmall
        have hall : ∀ other ∈ rest, other.size < 33 := fun other hother =>
          ((List.pairwise_cons.mp hleft.sorted).1 other hother).trans_lt (Nat.lt_of_not_le hsmall)
        rw [largeGain_of_small hall] at hfits
        omega
    · rename_i hunder
      exact ⟨le_rfl, Nat.le_of_not_lt hunder, val, hfilled, fun place => Or.inl rfl⟩

/-- Elsewhere the loop runs out of slots. -/
theorem replaceLargest_runs_out (hkeys : DistinctKeys before) (hfilled : Filled before val now)
    (hleft : Left before val rest) (hover : (totalMax : ℤ) < size now - largeGain rest) :
    (size (replaceLargest totalMax rest now) : ℤ) = size now - totalGain rest ∧
      ∃ val', Filled before val' (replaceLargest totalMax rest now) ∧
        ∀ place, place ∉ rest.map Sized.place ∧ val' place = val place ∨
          place ∈ rest.map Sized.place ∧ ∃ n, val' place = marker n := by
  induction rest generalizing val now with
  | nil =>
    refine ⟨by simp [replaceLargest, totalGain], val, hfilled, ?_⟩
    exact fun place => Or.inl ⟨List.not_mem_nil, rfl⟩
  | cons sized rest ih =>
    have hnonneg := largeGain_nonneg (sized :: rest)
    rw [replaceLargest, if_pos (by omega), totalGain_cons]
    have hgain := size_put_marker hfilled hleft
    have hnext : (totalMax : ℤ) <
        size (putAt (marker sized.size) sized.place now) - largeGain rest := by
      rw [largeGain_cons] at hover
      split at hover
      · omega
      · rename_i hsmall
        have hneg := gain_neg (Nat.lt_of_not_le hsmall)
        omega
    obtain ⟨hsize, val', hfilled', hval'⟩ :=
      ih (hfilled.put hkeys (hleft.slot sized List.mem_cons_self) (marker sized.size))
        (hleft.tail _) hnext
    refine ⟨by omega, val', hfilled', ?_⟩
    intro place
    rw [List.map_cons, List.mem_cons, not_or]
    rcases hval' place with ⟨hmem, heq⟩ | ⟨hmem, hmarker⟩
    · by_cases hplace : place = sized.place
      · subst hplace
        rw [Function.update_self] at heq
        exact Or.inr ⟨Or.inl rfl, _, heq⟩
      · rw [Function.update_of_ne hplace] at heq
        exact Or.inl ⟨⟨hplace, hmem⟩, heq⟩
    · exact Or.inr ⟨Or.inr hmem, hmarker⟩

end Loop

end Manus.OutputCap
