import Manus.Nautobot.ContextPath

/-! # Where a rendered path splits

The words of a rendered path are stripped, have no brackets, and have dots only inside of the
brackets of the path. So the rendered path splits where the path itself does, with its
placeholders as single letters.
-/

namespace Manus.ConfigContext

open Holes ObjectPath
open Expression (PyException)

section Words

structure GoodWord (word : List Char) : Prop where
  nonempty : word ≠ []
  stripped : pyStrip word = word
  unbracketed : ∀ c ∈ word, isBracket c = false

def DotsInside (word : List Char → List Char) : ℕ → ℕ → List Piece → Prop
  | _, _, [] => True
  | opened, closed, .inl c :: pieces =>
    DotsInside word (if c = '[' then opened + 1 else opened)
      (if c = ']' then closed + 1 else closed) pieces
  | opened, closed, .inr key :: pieces =>
    ('.' ∈ word key → closed < opened) ∧ DotsInside word opened closed pieces

variable {device : DeviceContext} {path text : List Char}

def wordOf (device : DeviceContext) (key : List Char) : List Char :=
  match resolvedText device key with
  | .ok text => text
  | .error _ => []

theorem substitutePlaceholder_eq_ok {insideFilter : Bool} {key : List Char}
    (h : substitutePlaceholder device insideFilter key = .ok text) :
    text = wordOf device key ∧ GoodWord text ∧ ('.' ∈ text → insideFilter = true) := by
  obtain ⟨resolved, hresolved, h⟩ := bind_eq_ok.mp h
  rw [ite_error_eq_ok, ite_error_eq_ok, ite_error_eq_ok, ite_error_eq_ok] at h
  obtain ⟨hne, -, hdots, hbrackets, h⟩ := h
  cases h
  refine ⟨by rw [wordOf, hresolved], ⟨hne, ?_, ?_⟩, ?_⟩
  · obtain ⟨value, -, rfl⟩ := map_eq_ok.mp hresolved
    exact pyStrip_pyStrip _
  · intro c hc
    rw [not_or] at hbrackets
    simp only [isBracket, Bool.or_eq_false_iff, beq_eq_false_iff_ne, ne_eq]
    constructor
    · rintro rfl
      exact hbrackets.1 hc
    · rintro rfl
      exact hbrackets.2 hc
  · intro hdot
    by_contra hinside
    exact hdots ⟨hdot, by simpa using hinside⟩

/-- A path that is rendered is the path with a good word in each of its holes. -/
theorem renderPieces_eq_ok {opened closed : ℕ} {pieces : List Piece}
    (h : renderPieces device opened closed pieces = .ok text) :
    text = fill (wordOf device) pieces ∧ (∀ key, .inr key ∈ pieces → GoodWord (wordOf device key)) ∧
      DotsInside (wordOf device) opened closed pieces := by
  induction pieces generalizing opened closed text with
  | nil =>
    cases h
    exact ⟨rfl, nofun, trivial⟩
  | cons piece pieces ih =>
    cases piece with
    | inl c =>
      rw [renderPieces] at h
      obtain ⟨rest, hrest, rfl⟩ := map_eq_ok.mp h
      obtain ⟨rfl, hgood, hdots⟩ := ih hrest
      refine ⟨rfl, fun key hkey => hgood key ?_, hdots⟩
      simpa using hkey
    | inr key =>
      obtain ⟨word, hword, h⟩ := bind_eq_ok.mp h
      obtain ⟨rest, hrest, rfl⟩ := map_eq_ok.mp h
      obtain ⟨rfl, hgood, hdots⟩ := ih hrest
      obtain ⟨rfl, hkey, hdot⟩ := substitutePlaceholder_eq_ok hword
      refine ⟨rfl, ?_, fun hmem => of_decide_eq_true (hdot hmem), hdots⟩
      intro key' hkey'
      rcases List.mem_cons.mp hkey' with heq | hmem
      · cases heq
        exact hkey
      · exact hgood key' hmem

end Words

section Splitting

variable {word : List Char → List Char}

def splitPieces (depth : ℕ) (current : List Piece) : List Piece → List (List Piece)
  | [] => [current]
  | .inr key :: pieces => splitPieces depth (current ++ [.inr key]) pieces
  | .inl c :: pieces =>
    if c = '[' then splitPieces (depth + 1) (current ++ [.inl c]) pieces
    else if c = ']' then splitPieces (depth - 1) (current ++ [.inl c]) pieces
    else if c = '.' ∧ depth = 0 then current :: splitPieces depth [] pieces
    else splitPieces depth (current ++ [.inl c]) pieces

/-- The counts of brackets never exceed the depth that the split has. -/
theorem splitPathSegments_fill {opened closed depth : ℕ} {current pieces : List Piece}
    (hgood : ∀ key, .inr key ∈ pieces → GoodWord (word key))
    (hdots : DotsInside word opened closed pieces) (hdepth : opened ≤ closed + depth) :
    splitPathSegments depth (fill word current) (fill word pieces) =
      (splitPieces depth current pieces).map (fill word) := by
  induction pieces generalizing opened closed depth current with
  | nil => rfl
  | cons piece pieces ih =>
    have hrest : ∀ key, .inr key ∈ pieces → GoodWord (word key) :=
      fun key hkey => hgood key (List.mem_cons_of_mem _ hkey)
    cases piece with
    | inr key =>
      rw [fill_hole, Expression.splitPathSegments_word (hgood key List.mem_cons_self).unbracketed
        (fun hdot => by have := hdots.1 hdot; omega), splitPieces, ← ih hrest hdots.2 hdepth]
      simp
    | inl c =>
      have hcurrent : fill word current ++ [c] = fill word (current ++ [.inl c]) := by simp
      rw [fill_letter, splitPathSegments, splitPieces, hcurrent]
      rw [DotsInside] at hdots
      split
      · next hopen =>
        subst hopen
        exact ih hrest hdots (by simp; omega)
      · next hopen =>
        rw [if_neg hopen] at hdots
        split
        · next hclose =>
          subst hclose
          exact ih hrest hdots (by simp; omega)
        · next hclose =>
          rw [if_neg hclose] at hdots
          split
          · next hdot =>
            rw [List.map_cons, ← ih hrest hdots hdepth]
            rfl
          · exact ih hrest hdots hdepth

theorem exists_cons_of_dropWhile {p : Char → Bool} {w : List Char} (hne : w ≠ [])
    (h : w.dropWhile p = w) : ∃ x rest, w = x :: rest ∧ p x = false := by
  cases w with
  | nil => exact absurd rfl hne
  | cons x rest =>
    refine ⟨x, rest, rfl, ?_⟩
    rw [← Bool.not_eq_true]
    have hhead := List.dropWhile_eq_self_iff.mp h (by simp)
    exact hhead

theorem GoodWord.front {w : List Char} (h : GoodWord w) :
    ∃ x rest, w = x :: rest ∧ isPySpace x = false := by
  apply exists_cons_of_dropWhile h.nonempty
  have hstrip := h.stripped
  rw [pyStrip_eq] at hstrip
  apply (List.dropWhile_suffix isPySpace).eq_of_length_le
  have hle := (List.rdropWhile_prefix isPySpace (w.dropWhile isPySpace)).length_le
  rwa [hstrip] at hle

theorem GoodWord.back {w : List Char} (h : GoodWord w) :
    ∃ x rest, w.reverse = x :: rest ∧ isPySpace x = false := by
  apply exists_cons_of_dropWhile
  · simpa using h.nonempty
  · have hstrip := h.stripped
    rw [pyStrip_eq] at hstrip
    have hagain := List.rdropWhile_idempotent isPySpace (w.dropWhile isPySpace)
    rw [hstrip, List.rdropWhile] at hagain
    rw [← List.reverse_inj, List.reverse_reverse]
    exact hagain

def stripPieces (pieces : List Piece) : List Piece :=
  ((pieces.dropWhile (onLetter isPySpace)).reverse.dropWhile (onLetter isPySpace)).reverse

theorem pyStrip_fill {pieces : List Piece}
    (hgood : ∀ key, .inr key ∈ pieces → GoodWord (word key)) :
    pyStrip (fill word pieces) = fill word (stripPieces pieces) := by
  have hfront : ∀ key, .inr key ∈ pieces.dropWhile (onLetter isPySpace) → GoodWord (word key) :=
    fun key hkey => hgood key ((List.dropWhile_suffix _).subset hkey)
  rw [pyStrip, dropWhile_fill fun key hkey => (hgood key hkey).front, fill_reverse,
    dropWhile_fill, fill_reverse, stripPieces]
  · simp
  · intro key hkey
    exact (hfront key (List.mem_reverse.mp hkey)).back

theorem dotsInside_append {opened closed : ℕ} {pieces rest : List Piece}
    (h : DotsInside word opened closed (pieces ++ rest)) :
    DotsInside word opened closed pieces := by
  induction pieces generalizing opened closed with
  | nil => trivial
  | cons piece pieces ih =>
    cases piece with
    | inl c => exact ih h
    | inr key => exact ⟨h.1, ih h.2⟩

theorem dotsInside_dropWhile {opened closed : ℕ} {pieces : List Piece}
    (h : DotsInside word opened closed pieces) :
    DotsInside word opened closed (pieces.dropWhile (onLetter isPySpace)) := by
  induction pieces with
  | nil => trivial
  | cons piece pieces ih =>
    cases piece with
    | inl c =>
      cases hc : isPySpace c with
      | true =>
        rw [List.dropWhile_cons_of_pos (show onLetter isPySpace (.inl c) = true from hc)]
        apply ih
        have hbrackets : c ≠ '[' ∧ c ≠ ']' := by
          constructor <;> rintro rfl <;> exact absurd hc (by decide)
        rwa [DotsInside, if_neg hbrackets.1, if_neg hbrackets.2] at h
      | false =>
        rwa [List.dropWhile_cons_of_neg (by simp [onLetter, hc])]
    | inr key => rwa [List.dropWhile_cons_of_neg (by simp [onLetter])]

theorem stripPieces_leads (pieces : List Piece) :
    stripPieces pieces <+: pieces.dropWhile (onLetter isPySpace) := by
  have hsuffix := List.dropWhile_suffix (onLetter isPySpace)
    (l := (pieces.dropWhile (onLetter isPySpace)).reverse)
  rw [← List.reverse_prefix, List.reverse_reverse] at hsuffix
  exact hsuffix

theorem mem_or_mem_cons {current rest : List Piece} {first piece : Piece}
    (h : piece ∈ current ++ [first] ∨ piece ∈ rest) : piece ∈ current ∨ piece ∈ first :: rest := by
  rwa [List.mem_append, List.mem_singleton, or_assoc, ← List.mem_cons] at h

theorem mem_splitPieces {depth : ℕ} {current pieces segment : List Piece} {piece : Piece}
    (h : segment ∈ splitPieces depth current pieces) (hpiece : piece ∈ segment) :
    piece ∈ current ∨ piece ∈ pieces := by
  induction pieces generalizing depth current with
  | nil =>
    rw [splitPieces, List.mem_singleton] at h
    exact .inl (h ▸ hpiece)
  | cons first pieces ih =>
    cases first with
    | inr key => exact mem_or_mem_cons (ih h)
    | inl c =>
      rw [splitPieces] at h
      split at h
      · exact mem_or_mem_cons (ih h)
      split at h
      · exact mem_or_mem_cons (ih h)
      split at h
      · rcases List.mem_cons.mp h with rfl | h
        · exact .inl hpiece
        · rcases ih h with hnone | hmem
          · cases hnone
          · exact .inr (List.mem_cons_of_mem _ hmem)
      · exact mem_or_mem_cons (ih h)

def pathSegments (path : List Char) : List (List Piece) :=
  (splitPieces 0 [] (stripPieces (piecesOf path))).filter (· ≠ [])

theorem cleanedSegments_fill {path : List Char}
    (hgood : ∀ key, .inr key ∈ piecesOf path → GoodWord (word key))
    (hdots : DotsInside word 0 0 (piecesOf path)) :
    cleanedSegments (fill word (piecesOf path)) = (pathSegments path).map (fill word) := by
  have hstripped : ∀ key, .inr key ∈ stripPieces (piecesOf path) → GoodWord (word key) := by
    intro key hkey
    apply hgood
    exact (List.dropWhile_suffix _).subset ((stripPieces_leads _).subset hkey)
  obtain ⟨rest, hrest⟩ := stripPieces_leads (piecesOf path)
  have hinside := dotsInside_dropWhile hdots
  rw [← hrest] at hinside
  have hsplit : splitPathSegments 0 [] (fill word (stripPieces (piecesOf path))) =
      (splitPieces 0 [] (stripPieces (piecesOf path))).map (fill word) :=
    @splitPathSegments_fill word 0 0 0 [] _ hstripped (dotsInside_append hinside) (Nat.zero_le _)
  rw [cleanedSegments, pyStrip_fill hgood, hsplit, List.filter_map, pathSegments]
  apply congrArg
  apply List.filter_congr
  intro segment hsegment
  have hwords : ∀ key, .inr key ∈ segment → word key ≠ [] := by
    intro key hkey
    rcases mem_splitPieces hsegment hkey with hnone | hmem
    · cases hnone
    · exact (hstripped key hmem).nonempty
  simp only [Function.comp_apply, ne_eq, fill_eq_nil_iff hwords]

end Splitting

end Manus.ConfigContext
