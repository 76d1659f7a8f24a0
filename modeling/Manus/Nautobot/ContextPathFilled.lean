import Manus.Nautobot.ContextPathSplit

/-! # What the values of a path fill

A segment without brackets, or whose brackets do not close it, is a plain key for every device.
In the brackets of the others the words decide: they make an index of a key, and a word with an
equals sign can make a filter that is cut within the word.
-/

namespace Manus.ConfigContext

open Holes ObjectPath

section Reading

variable {word other : List Char → List Char}

/-- Key and selector of a segment that is written as `key[selector]`. -/
def selectorPieces (segment : List Piece) : Option (List Piece × List Piece) :=
  let outside := orHole (β := List Char) fun c => !isBracket c
  match segment.dropWhile outside with
  | .inl '[' :: rest =>
    if segment.takeWhile outside ≠ [] ∧
        (rest.dropWhile outside = [.inl ']'] ∨ rest.dropWhile outside = [.inl ']', .inl '\n']) then
      some (segment.takeWhile outside, rest.takeWhile outside)
    else none
  | _ => none

theorem head_dropWhile {p : Piece → Bool} {pieces : List Piece} {piece : Piece}
    {rest : List Piece} (h : pieces.dropWhile p = piece :: rest) : p piece = false := by
  have hhead := List.head?_dropWhile_not p pieces
  rw [h] at hhead
  simpa using hhead

/-- The end of a segment, where a bracket closes it. -/
theorem fill_closing {pieces : List Piece}
    (hgood : ∀ key, .inr key ∈ pieces → GoodWord (word key)) :
    (fill word (pieces.dropWhile (orHole fun c => !isBracket c)) = [']'] ∨
        fill word (pieces.dropWhile (orHole fun c => !isBracket c)) = [']', '\n']) ↔
      (pieces.dropWhile (orHole fun c => !isBracket c) = [.inl ']'] ∨
        pieces.dropWhile (orHole fun c => !isBracket c) = [.inl ']', .inl '\n']) := by
  have hsub := (List.dropWhile_suffix (orHole fun c => !isBracket c) (l := pieces)).subset
  cases hdrop : pieces.dropWhile (orHole fun c => !isBracket c) with
  | nil => simp
  | cons piece rest =>
    rw [hdrop] at hsub
    have hword : ∀ key, .inr key ∈ rest → GoodWord (word key) :=
      fun key hkey => hgood key (hsub (List.mem_cons_of_mem _ hkey))
    cases piece with
    | inr key => cases head_dropWhile hdrop
    | inl c =>
      simp only [fill_letter, List.cons.injEq, Sum.inl.injEq]
      apply or_congr
      · apply and_congr_right
        intro _
        exact fill_eq_nil_iff fun key hkey => (hword key hkey).nonempty
      · apply and_congr_right
        intro _
        constructor
        · intro hfill
          cases rest with
          | nil => cases hfill
          | cons piece rest =>
            cases piece with
            | inl c =>
              rw [fill_letter, List.cons.injEq] at hfill
              obtain ⟨rfl, hnil⟩ := hfill
              rw [fill_eq_nil_iff fun key hkey =>
                (hword key (List.mem_cons_of_mem _ hkey)).nonempty] at hnil
              rw [hnil]
            | inr key =>
              -- a word does not begin with a line feed
              obtain ⟨x, tail, hx, hspace⟩ := (hword key List.mem_cons_self).front
              rw [fill_hole, hx, List.cons_append, List.cons.injEq] at hfill
              rw [hfill.1] at hspace
              exact absurd hspace (by decide)
        · rintro rfl
          rfl

theorem selectorOf_fill {segment : List Piece}
    (hgood : ∀ key, .inr key ∈ segment → GoodWord (word key)) :
    selectorOf (fill word segment) =
      (selectorPieces segment).map fun parts => (fill word parts.1, fill word parts.2) := by
  have hwords : ∀ pieces : List Piece, (∀ key, .inr key ∈ pieces → GoodWord (word key)) →
      ∀ key, .inr key ∈ pieces → ∀ c ∈ word key, (!isBracket c) = true := by
    intro pieces h key hkey c hc
    rw [(h key hkey).unbracketed c hc]
    rfl
  obtain ⟨htake, hdrop⟩ := takeWhile_fill (hwords segment hgood)
  have hsub := (List.dropWhile_suffix (orHole fun c => !isBracket c) (l := segment)).subset
  rw [selectorOf, selectorPieces]
  simp only [htake, hdrop]
  cases hrest : segment.dropWhile (orHole fun c => !isBracket c) with
  | nil => rfl
  | cons piece rest =>
    rw [hrest] at hsub
    have hgoodRest : ∀ key, .inr key ∈ rest → GoodWord (word key) :=
      fun key hkey => hgood key (hsub (List.mem_cons_of_mem _ hkey))
    cases piece with
    | inr key => cases head_dropWhile hrest
    | inl c =>
      rw [fill_letter]
      by_cases hc : c = '['
      · subst hc
        obtain ⟨htake', hdrop'⟩ := takeWhile_fill (hwords rest hgoodRest)
        have hkey : fill word (segment.takeWhile (orHole fun c => !isBracket c)) ≠ [] ↔
            segment.takeWhile (orHole fun c => !isBracket c) ≠ [] := by
          apply not_congr
          apply fill_eq_nil_iff
          exact fun key hkey => (hgood key ((List.takeWhile_prefix _).subset hkey)).nonempty
        simp only [htake', hdrop', hkey, fill_closing hgoodRest]
        split <;> rfl
      · have hbracket : c = ']' := by
          have hc' := head_dropWhile hrest
          simpa [orHole, isBracket, hc] using hc'
        subst hbracket
        rfl

inductive Shape where
  | plain (segment : List Piece)
  | index (key position : List Piece)
  | filter (key field value : List Piece)

/-- The segment with the words of a device is read as a shape: every word lies within one part. -/
inductive ReadsAs (word : List Char → List Char) (segment : List Piece) : Shape → Prop
  | plain (h : listSegment (fill word segment) = .ok none) : ReadsAs word segment (.plain segment)
  | index {key position : List Piece} {n : ℕ}
      (parts : selectorPieces segment = some (key, position))
      (h : listSegment (fill word segment) = .ok (some (.index (String.ofList (fill word key)) n)))
      (number : intOfDigits (fill word position) = .ok n) :
      ReadsAs word segment (.index key position)
  | filter {key field value : List Piece}
      (parts : selectorPieces segment = some (key, field ++ .inl '=' :: value))
      (h : listSegment (fill word segment) = .ok (some (.filter (String.ofList (fill word key))
        (fill word field) (String.ofList (fill word value))))) :
      ReadsAs word segment (.filter key field value)

inductive Kind where
  | plain
  | index
  | filter
  deriving DecidableEq

def beforeEquals (inside : List Piece) : List Piece := inside.takeWhile (orHole (· ≠ '='))

def afterEquals (inside : List Piece) : List Piece :=
  (inside.dropWhile (orHole (· ≠ '='))).tail

/-- The kind of a segment with brackets, by the text in them: nothing where a word has the first
equals sign in it, or where the number has too many digits. -/
def kindOf (word : List Char → List Char) (inside : List Piece) : Option Kind :=
  let text := fill word inside
  if text.head? = some '=' then some .plain
  else if '=' ∈ text then
    if '=' ∈ fill word (beforeEquals inside) then none else some .filter
  else if text ≠ [] ∧ text.all isDecimal then
    if text.length ≤ maxStrDigits then some .index else none
  else some .plain

def Kind.shape (segment key inside : List Piece) : Kind → Shape
  | plain => .plain segment
  | index => .index key inside
  | filter => .filter key (beforeEquals inside) (afterEquals inside)

theorem listSegment_of_head {segment key text : List Char}
    (h : selectorOf segment = some (key, text)) (hhead : text.head? = some '=') :
    listSegment segment = .ok none := by
  cases text with
  | nil => cases hhead
  | cons c text =>
    obtain rfl : c = '=' := Option.some.inj hhead
    simp [listSegment, matchSegment, h]

theorem listSegment_of_equals {segment key field value : List Char}
    (h : selectorOf segment = some (key, field ++ '=' :: value)) (hne : field ≠ [])
    (hfield : '=' ∉ field) :
    listSegment segment = .ok (some (.filter (String.ofList key) field (String.ofList value))) := by
  have hall : ∀ c ∈ field, decide (c ≠ '=') = true := by
    intro c hc
    simpa using fun heq : c = '=' => hfield (heq ▸ hc)
  have htake : (field ++ '=' :: value).takeWhile (· ≠ '=') = field := by
    rw [List.takeWhile_append_of_pos hall]
    simp
  have hdrop : (field ++ '=' :: value).dropWhile (· ≠ '=') = '=' :: value := by
    rw [List.dropWhile_append_of_pos hall]
    simp
  simp only [listSegment, matchSegment, h, Option.bind_some, htake, hdrop, if_neg hne]

theorem listSegment_of_no_equals {segment key text : List Char}
    (h : selectorOf segment = some (key, text)) (htext : '=' ∉ text) :
    listSegment segment = if text ≠ [] ∧ text.all isDecimal then
      (intOfDigits text).map fun index => some (.index (String.ofList key) index)
      else .ok none := by
  have hall : ∀ c ∈ text, decide (c ≠ '=') = true := by
    intro c hc
    simpa using fun heq : c = '=' => htext (heq ▸ hc)
  have hdrop : text.dropWhile (· ≠ '=') = [] := List.dropWhile_eq_nil_iff.mpr hall
  simp only [listSegment, matchSegment, h, Option.bind_some, hdrop]
  by_cases hindex : text ≠ [] ∧ text.all isDecimal = true
  · rw [if_pos hindex, if_pos hindex]
  · rw [if_neg hindex, if_neg hindex]

theorem intOfDigits_of_decimal {text : List Char} (h : text.all isDecimal = true) :
    (∃ n, intOfDigits text = .ok n) ↔ text.length ≤ maxStrDigits := by
  have htake : text.takeWhile isDecimal = text := by
    rw [List.takeWhile_eq_self_iff]
    exact List.all_eq_true.mp h
  rw [intOfDigits, htake]
  split
  · next hlong => simp [hlong]
  · next hshort => simpa [h] using hshort

theorem fill_split_equals {inside : List Piece} (hmem : '=' ∈ fill word inside)
    (hbefore : '=' ∉ fill word (beforeEquals inside)) :
    inside = beforeEquals inside ++ .inl '=' :: afterEquals inside := by
  have hsplit : beforeEquals inside ++ inside.dropWhile (orHole (· ≠ '=')) = inside :=
    List.takeWhile_append_dropWhile
  cases hdrop : inside.dropWhile (orHole (β := List Char) (· ≠ '=')) with
  | nil =>
    rw [hdrop, List.append_nil] at hsplit
    rw [hsplit] at hbefore
    exact absurd hmem hbefore
  | cons piece rest =>
    have hpiece : piece = .inl '=' := by
      have hhead := head_dropWhile hdrop
      cases piece with
      | inl c => simpa [orHole] using hhead
      | inr key => cases hhead
    rw [hdrop, hpiece] at hsplit
    rw [afterEquals, hdrop, List.tail_cons, hsplit]

theorem beforeEquals_append {field value : List Piece} (hfield : '=' ∉ fill word field) :
    beforeEquals (field ++ .inl '=' :: value) = field ∧
      afterEquals (field ++ .inl '=' :: value) = value := by
  have hall : ∀ piece ∈ field, orHole (β := List Char) (· ≠ '=') piece = true := by
    intro piece hpiece
    cases piece with
    | inr key => rfl
    | inl c =>
      have hc : c ≠ '=' := by
        rintro rfl
        exact hfield (mem_fill.mpr (.inl hpiece))
      simpa [orHole] using hc
  rw [beforeEquals, afterEquals, List.takeWhile_append_of_pos hall,
    List.dropWhile_append_of_pos hall]
  simp [orHole]

variable {segment key inside : List Piece}

/-- Where the first equals sign is in a word, the segment has no shape. -/
theorem not_readsAs_of_torn (shape : Shape)
    (hselector : selectorOf (fill word segment) = some (fill word key, fill word inside))
    (hparts : selectorPieces segment = some (key, inside))
    (hhead : (fill word inside).head? ≠ some '=')
    (htorn : '=' ∈ fill word (beforeEquals inside)) : ¬ ReadsAs word segment shape := by
  have hmem : '=' ∈ fill word inside := by
    have hsplit : beforeEquals inside ++ inside.dropWhile (orHole (· ≠ '=')) = inside :=
      List.takeWhile_append_dropWhile
    rw [← hsplit, fill_append]
    exact List.mem_append_left _ htorn
  obtain ⟨field, value, hsplit, hfield⟩ := List.eq_append_cons_of_mem hmem
  have hne : field ≠ [] := by
    rintro rfl
    rw [hsplit] at hhead
    exact hhead rfl
  rw [hsplit] at hselector
  have hread := listSegment_of_equals hselector hne hfield
  intro h
  cases h with
  | plain h =>
    rw [hread] at h
    cases h
  | index _ h =>
    rw [hread] at h
    cases h
  | filter hparts' h =>
    rw [hread] at h
    simp only [Except.ok.injEq, Option.some.injEq, ListSegment.filter.injEq] at h
    rw [hparts] at hparts'
    cases hparts'
    rw [h.2.1] at hfield
    rw [(beforeEquals_append hfield).1] at htorn
    exact hfield htorn

/-- Where it is one of the path, the segment is a filter. -/
theorem readsAs_filter_iff {shape : Shape}
    (hselector : selectorOf (fill word segment) = some (fill word key, fill word inside))
    (hparts : selectorPieces segment = some (key, inside))
    (hhead : (fill word inside).head? ≠ some '=') (hmem : '=' ∈ fill word inside)
    (hbefore : '=' ∉ fill word (beforeEquals inside)) :
    ReadsAs word segment shape ↔
      shape = .filter key (beforeEquals inside) (afterEquals inside) := by
  have hinside := fill_split_equals hmem hbefore
  have hfill : fill word inside =
      fill word (beforeEquals inside) ++ '=' :: fill word (afterEquals inside) := by
    conv_lhs => rw [hinside]
    rw [fill_append, fill_letter]
  have hne : fill word (beforeEquals inside) ≠ [] := by
    intro hnil
    rw [hfill, hnil] at hhead
    exact hhead rfl
  rw [hfill] at hselector
  have hread := listSegment_of_equals hselector hne hbefore
  constructor
  · intro h
    cases h with
    | plain h =>
      rw [hread] at h
      cases h
    | index _ h =>
      rw [hread] at h
      cases h
    | filter hparts' h =>
      rw [hread] at h
      simp only [Except.ok.injEq, Option.some.injEq, ListSegment.filter.injEq] at h
      rw [hparts] at hparts'
      cases hparts'
      rw [h.2.1] at hbefore
      obtain ⟨hfield, hvalue⟩ := beforeEquals_append hbefore
      rw [hfield, hvalue]
  · rintro rfl
    rw [hinside] at hparts
    exact .filter hparts hread

theorem readsAs_plain_iff {shape : Shape} (hread : listSegment (fill word segment) = .ok none) :
    ReadsAs word segment shape ↔ shape = .plain segment := by
  constructor
  · intro h
    cases h with
    | plain => rfl
    | index _ h =>
      rw [hread] at h
      cases h
    | filter _ h =>
      rw [hread] at h
      cases h
  · rintro rfl
    exact .plain hread

theorem readsAs_index_iff {shape : Shape} (hparts : selectorPieces segment = some (key, inside))
    (hread : listSegment (fill word segment) = (intOfDigits (fill word inside)).map fun index =>
      some (.index (String.ofList (fill word key)) index)) :
    ReadsAs word segment shape ↔
      (∃ n, intOfDigits (fill word inside) = .ok n) ∧ shape = .index key inside := by
  constructor
  · intro h
    cases h with
    | plain h =>
      rw [hread, map_eq_ok] at h
      obtain ⟨_, _, h⟩ := h
      cases h
    | index hparts' _ number =>
      rw [hparts] at hparts'
      cases hparts'
      exact ⟨⟨_, number⟩, rfl⟩
    | filter _ h =>
      rw [hread, map_eq_ok] at h
      obtain ⟨_, _, h⟩ := h
      cases h
  · rintro ⟨⟨n, hn⟩, rfl⟩
    rw [hn] at hread
    exact .index hparts hread hn

/-- A segment with brackets is read as the shape of its kind, and as no other. -/
theorem readsAs_iff {shape : Shape} (hgood : ∀ key, .inr key ∈ segment → GoodWord (word key))
    (hparts : selectorPieces segment = some (key, inside)) :
    ReadsAs word segment shape ↔
      ∃ kind, kindOf word inside = some kind ∧ shape = kind.shape segment key inside := by
  have hselector : selectorOf (fill word segment) = some (fill word key, fill word inside) := by
    rw [selectorOf_fill hgood, hparts]
    rfl
  by_cases hhead : (fill word inside).head? = some '='
  · rw [readsAs_plain_iff (listSegment_of_head hselector hhead), kindOf, if_pos hhead]
    simp [Kind.shape]
  by_cases hmem : '=' ∈ fill word inside
  · by_cases hbefore : '=' ∈ fill word (beforeEquals inside)
    · have hnot := not_readsAs_of_torn shape hselector hparts hhead hbefore
      simp [kindOf, hhead, hmem, hbefore, hnot]
    · rw [readsAs_filter_iff hselector hparts hhead hmem hbefore, kindOf, if_neg hhead,
        if_pos hmem, if_neg hbefore]
      simp [Kind.shape]
  · have hread := listSegment_of_no_equals hselector hmem
    rw [kindOf, if_neg hhead, if_neg hmem]
    split at hread
    · next hdigits =>
      rw [readsAs_index_iff hparts hread, intOfDigits_of_decimal hdigits.2, if_pos hdigits]
      split
      · next hshort => simp [hshort, Kind.shape]
      · next hlong => simp [hlong]
    · next hdigits =>
      rw [readsAs_plain_iff hread, if_neg hdigits]
      simp [Kind.shape]

end Reading

section Rendered

variable {device other : DeviceContext} {path text text' : List Char}

theorem fill_of_letters {word : List Char → List Char} (h : (piecesOf path).all Sum.isLeft = true) :
    fill word (piecesOf path) = path := by
  unfold piecesOf at h ⊢
  induction path with
  | nil => rfl
  | cons c path ih =>
    rw [piecesFrom] at h ⊢
    split at h
    · exact congrArg _ (ih h)
    · cases h

theorem dotsInside_of_letters {word : List Char → List Char} {opened closed : ℕ}
    {pieces : List Piece} (h : pieces.all Sum.isLeft = true) :
    DotsInside word opened closed pieces := by
  induction pieces generalizing opened closed with
  | nil => trivial
  | cons piece pieces ih =>
    cases piece with
    | inl c => exact ih h
    | inr key => cases h

theorem renderPath_eq_ok (h : renderPath (some device) path = .ok text) :
    text = fill (wordOf device) (piecesOf path) ∧
      (∀ key, .inr key ∈ piecesOf path → GoodWord (wordOf device key)) ∧
      DotsInside (wordOf device) 0 0 (piecesOf path) := by
  unfold renderPath at h
  split at h
  · next hletters =>
    cases h
    refine ⟨(fill_of_letters hletters).symm, fun key hkey => ?_, dotsInside_of_letters hletters⟩
    have hleft := List.all_eq_true.mp hletters _ hkey
    cases hleft
  · exact renderPieces_eq_ok h

/-- Two rendered paths have the segments of the path, each with one shape for both devices. -/
structure FilledAlike (device other : DeviceContext) (path text text' : List Char) : Prop where
  first : cleanedSegments text = (pathSegments path).map (fill (wordOf device))
  second : cleanedSegments text' = (pathSegments path).map (fill (wordOf other))
  shapes : ∀ segment ∈ pathSegments path,
    ∃ shape, ReadsAs (wordOf device) segment shape ∧ ReadsAs (wordOf other) segment shape

theorem goodWord_of_mem_segment {word : List Char → List Char} {segment : List Piece}
    (hgood : ∀ key, .inr key ∈ piecesOf path → GoodWord (word key))
    (hsegment : segment ∈ pathSegments path) :
    ∀ key, .inr key ∈ segment → GoodWord (word key) := by
  intro key hkey
  apply hgood
  rcases mem_splitPieces (List.mem_filter.mp hsegment).1 hkey with hnone | hmem
  · cases hnone
  · exact (List.dropWhile_suffix _).subset ((stripPieces_leads _).subset hmem)

theorem readsAs_plain_of_no_selector {word : List Char → List Char} {segment : List Piece}
    (hgood : ∀ key, .inr key ∈ segment → GoodWord (word key))
    (hparts : selectorPieces segment = none) : ReadsAs word segment (.plain segment) := by
  have hselector : selectorOf (fill word segment) = none := by
    rw [selectorOf_fill hgood, hparts]
    rfl
  apply ReadsAs.plain
  simp [listSegment, matchSegment, hselector]

/-- The values of two devices fill the same parts of a path if and only if, in each segment with
brackets, the texts in the brackets are of one kind. -/
theorem renderPath_alike_iff (h : renderPath (some device) path = .ok text)
    (h' : renderPath (some other) path = .ok text') :
    FilledAlike device other path text text' ↔
      ∀ segment ∈ pathSegments path, ∀ key inside, selectorPieces segment = some (key, inside) →
        ∃ kind, kindOf (wordOf device) inside = some kind ∧
          kindOf (wordOf other) inside = some kind := by
  obtain ⟨rfl, hgood, hdots⟩ := renderPath_eq_ok h
  obtain ⟨rfl, hgood', hdots'⟩ := renderPath_eq_ok h'
  constructor
  · intro hfilled segment hsegment key inside hparts
    obtain ⟨shape, hreads, hreads'⟩ := hfilled.shapes segment hsegment
    obtain ⟨kind, hkind, rfl⟩ :=
      (readsAs_iff (goodWord_of_mem_segment hgood hsegment) hparts).mp hreads
    obtain ⟨kind', hkind', hshape⟩ :=
      (readsAs_iff (goodWord_of_mem_segment hgood' hsegment) hparts).mp hreads'
    have hsame : kind' = kind := by
      cases kind <;> cases kind' <;> first | rfl | cases hshape
    rw [hsame] at hkind'
    exact ⟨kind, hkind, hkind'⟩
  · intro hkinds
    refine ⟨cleanedSegments_fill hgood hdots, cleanedSegments_fill hgood' hdots', ?_⟩
    intro segment hsegment
    have hwords := goodWord_of_mem_segment hgood hsegment
    have hwords' := goodWord_of_mem_segment hgood' hsegment
    cases hparts : selectorPieces segment with
    | none =>
      exact ⟨.plain segment, readsAs_plain_of_no_selector hwords hparts,
        readsAs_plain_of_no_selector hwords' hparts⟩
    | some parts =>
      obtain ⟨key, inside⟩ := parts
      obtain ⟨kind, hkind, hkind'⟩ := hkinds segment hsegment key inside hparts
      exact ⟨kind.shape segment key inside, (readsAs_iff hwords hparts).mpr ⟨kind, hkind, rfl⟩,
        (readsAs_iff hwords' hparts).mpr ⟨kind, hkind', rfl⟩⟩

def deviceWith (name value : String) : DeviceContext where
  id := "d1"
  name := "r1"
  hostname := "r1"
  attributeBags := Dict.ofPairs [("custom", Dict.ofPairs [(name, .str value)])]

/-- Servers are told apart by their addresses. -/
theorem server_alike : FilledAlike (deviceWith "server" "10.0.0.1") (deviceWith "server" "10.0.0.2")
    "tacacs[server=\x7bcustom.server\x7d].key".toList "tacacs[server=10.0.0.1].key".toList
    "tacacs[server=10.0.0.2].key".toList := by
  have h : renderPath (some (deviceWith "server" "10.0.0.1"))
      "tacacs[server=\x7bcustom.server\x7d].key".toList =
        .ok "tacacs[server=10.0.0.1].key".toList := by
    decide +kernel
  have h' : renderPath (some (deviceWith "server" "10.0.0.2"))
      "tacacs[server=\x7bcustom.server\x7d].key".toList =
        .ok "tacacs[server=10.0.0.2].key".toList := by
    decide +kernel
  have hkinds : ∀ segment ∈ pathSegments "tacacs[server=\x7bcustom.server\x7d].key".toList,
      ∀ parts ∈ selectorPieces segment,
        kindOf (wordOf (deviceWith "server" "10.0.0.1")) parts.2 = some .filter ∧
          kindOf (wordOf (deviceWith "server" "10.0.0.2")) parts.2 = some .filter := by
    decide +kernel
  apply (renderPath_alike_iff h h').mpr
  intro segment hsegment key inside hparts
  exact ⟨.filter, hkinds segment hsegment (key, inside) hparts⟩

def slotSegment : List Piece :=
  "interfaces[".toList.map Sum.inl ++ [.inr "custom.slot".toList, .inl ']']

/-- The attribute of one device makes an index, and that of the other does not. -/
theorem slot_not_alike : ¬ ∀ (device other : DeviceContext) (path text text' : List Char),
    renderPath (some device) path = .ok text → renderPath (some other) path = .ok text' →
    FilledAlike device other path text text' := by
  intro h
  have hone : renderPath (some (deviceWith "slot" "1")) "interfaces[\x7bcustom.slot\x7d]".toList =
      .ok "interfaces[1]".toList := by
    decide +kernel
  have hname : renderPath (some (deviceWith "slot" "eth0"))
      "interfaces[\x7bcustom.slot\x7d]".toList = .ok "interfaces[eth0]".toList := by
    decide +kernel
  have hsegments : pathSegments "interfaces[\x7bcustom.slot\x7d]".toList = [slotSegment] := by
    decide +kernel
  have hsegment : slotSegment ∈ pathSegments "interfaces[\x7bcustom.slot\x7d]".toList := by
    rw [hsegments]
    exact List.mem_singleton_self _
  have hparts : selectorPieces slotSegment =
      some ("interfaces".toList.map Sum.inl, [.inr "custom.slot".toList]) := by
    decide +kernel
  obtain ⟨shape, hreads, hreads'⟩ := (h _ _ _ _ _ hone hname).shapes _ hsegment
  rw [readsAs_iff (goodWord_of_mem_segment (renderPath_eq_ok hone).2.1 hsegment) hparts] at hreads
  rw [readsAs_iff (goodWord_of_mem_segment (renderPath_eq_ok hname).2.1 hsegment) hparts] at hreads'
  have hkind : kindOf (wordOf (deviceWith "slot" "1")) [.inr "custom.slot".toList] =
      some .index := by
    decide +kernel
  have hkind' : kindOf (wordOf (deviceWith "slot" "eth0")) [.inr "custom.slot".toList] =
      some .plain := by
    decide +kernel
  obtain ⟨kind, h₁, rfl⟩ := hreads
  obtain ⟨kind', h₂, hshape⟩ := hreads'
  rw [hkind] at h₁
  rw [hkind'] at h₂
  cases h₁
  cases h₂
  cases hshape

end Rendered

end Manus.ConfigContext
