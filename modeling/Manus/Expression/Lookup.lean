import Manus.Expression.Functions
import Manus.Lib.Except

/-! # Attributes of a device

A path is resolved to the raw value it points at, and the value is classified. The
digits of a list index become a number only when the path gets there, and a scalar
becomes a text only when it is compared or returned; both conversions have a limit.
-/

namespace Manus.Expression

inductive AttributeState where
  | absent
  | null
  | empty
  | present
  deriving DecidableEq

/-- An error a caller reports on, with the time the device's own record of it leaves out. -/
structure ReportedError where
  error : DeviceError
  occurredAt : String

section Segments

inductive PathSegment where
  | key (key : String)
  | filter (key : String) (field : List String) (value : String)
  | index (key : String) (digits : List Char)

def pathSegment (text : List Char) : PathSegment :=
  match selectorOf text with
  | none => .key (String.ofList text)
  | some (key, selector) =>
    let field := selector.takeWhile (· ≠ '=')
    match selector.dropWhile (· ≠ '=') with
    | _ :: value =>
      if field = [] then .key (String.ofList text)
      else .filter (String.ofList key) ((field.splitOn '.').map String.ofList) (String.ofList value)
    | [] =>
      if selector ≠ [] ∧ selector.all fun c => (decimalDigit? c).isSome then
        .index (String.ofList key) selector
      else .key (String.ofList text)

def pathSegments (path : List Char) : List PathSegment :=
  (splitPathSegments 0 [] path).map pathSegment

/-- `int(digits)`. -/
def indexOf (digits : List Char) : Except PyException ℕ :=
  if maxStrDigits < digits.length then .error (.valueError digitLimitMessage)
  else .ok ((unsignedValue digits).getD 0)

end Segments

section Traversal

/-- Whether an item of a list is the one that a filter looks for. -/
def matchesFilter (field : List String) (value : String) : Json → Except PyException Bool
  | .obj fields =>
    let candidate := traverseKeys field (.obj fields)
    if candidate = .null ∨ isContainer candidate then .ok false
    else (strJson candidate).map (· == value)
  | _ => .ok false

def findItem (field : List String) (value : String) : List Json → Except PyException (Option Json)
  | [] => .ok none
  | item :: items => do
    if ← matchesFilter field value item then return some item
    else findItem field value items

def findFilteredItem (field : List String) (value : String) :
    Json → Except PyException (Option Json)
  | .arr items => findItem field value items
  | _ => .ok none

def indexIntoList (index : ℕ) : Json → Option Json
  | .arr items => items[index]?
  | _ => none

/-- One segment of `_traverse_path`; what is not there is null. -/
def stepInto (value : Json) : PathSegment → Except PyException Json
  | .key key => .ok (value.getD key)
  | .filter key field wanted =>
    (findFilteredItem field wanted (value.getD key)).map fun found => found.getD .null
  | .index key digits =>
    match value with
    | .obj fields =>
      (indexOf digits).map fun index =>
        (indexIntoList index (Json.getD key (.obj fields))).getD .null
    | _ => .ok .null

def traversePath (value : Json) (path : List PathSegment) : Except PyException Json :=
  path.foldlM stepInto value

/-- One segment of `_traverse_path_raw`, which tells what is missing from what is null. -/
def stepIntoRaw (value : Json) : PathSegment → Except PyException (Option Json)
  | .key key => .ok (value.get? key)
  | .filter key field wanted =>
    match value.get? key with
    | none => .ok none
    | some items => findFilteredItem field wanted items
  | .index key digits =>
    match value.get? key with
    | none => .ok none
    | some items => (indexOf digits).map fun index => indexIntoList index items

def traversePathRaw : List PathSegment → Json → Except PyException (Option Json)
  | [], value => .ok (some value)
  | segment :: path, value => do
    match ← stepIntoRaw value segment with
    | none => return none
    | some value => traversePathRaw path value

/-- The text of a scalar, unless it is empty. -/
def stringify (value : Json) : Except PyException (Option String) :=
  let value := unwrapSingletonList value
  if isContainer value ∨ value = .null then .ok none
  else (strJson value).map fun text =>
    match pyStrip text.toList with
    | [] => none
    | stripped => some (String.ofList stripped)

/-- `_resolve_leaf` with `reveal_secrets=False`. -/
def resolveLeaf (value : Json) : Except PyException (Option String) :=
  if isSealedSecret value then .ok (some redactedPlaceholder) else stringify value

end Traversal

section Placeholders

/-- `expand_path_placeholders`, given how the paths in braces are resolved; every step takes a
character off the path. -/
def expandFrom (resolve : List Char → Except PyException (Option String)) :
    ℕ → ℕ → List Char → Except PyException (Option (List Char))
  | _, _, [] => .ok (some [])
  | 0, _, _ :: _ => .ok none
  | fuel + 1, depth, c :: text =>
    if c ≠ '{' then
      let depth := if c = '[' then depth + 1 else if c = ']' then depth - 1 else depth
      (expandFrom resolve fuel depth text).map fun rest => rest.map (c :: ·)
    else
      match matchingBrace 0 text with
      | none => .ok none
      | some (inner, rest) =>
        if depth = 0 ∨ pyStrip inner = [] then .ok none
        else do
          match ← resolve (pyStrip inner) with
          | none => return none
          | some value =>
            if value = redactedPlaceholder ∨ value.toList.any (fun c => c ∈ ['[', ']', '=']) then
              return none
            else
              let rest ← expandFrom resolve fuel depth rest
              return rest.map (value.toList ++ ·)

def expandPathPlaceholders (resolve : List Char → Except PyException (Option String))
    (path : List Char) : Except PyException (Option (List Char)) :=
  expandFrom resolve path.length 0 path

end Placeholders

section Resolution

variable (device : DeviceContext) (error : Option ReportedError)

def errorToBag (reported : ReportedError) : Json :=
  .obj [("node_id", .str reported.error.nodeId), ("step_id", .str reported.error.stepId),
    ("code", .str reported.error.code), ("message", .str reported.error.message),
    ("occurred_at", .str reported.occurredAt)]

def namespaceBag (bagName : String) : Option Json :=
  if bagName = "parsed" then
    if device.parsed.isEmpty then none else some (.obj device.parsed.entries)
  else if bagName = "error" then error.map errorToBag
  else (device.attributeBags.get? bagName).map fun bag => .obj bag.entries

/-- The text of a path without placeholders, given how the text of a value is taken. -/
def resolveExpandedWith (leaf : Json → Except PyException (Option String)) (path : List Char) :
    Except PyException (Option String) :=
  match cutAtDot path with
  | none =>
    if String.ofList path ∈ deviceReadableScalarFields then
      stringify (deviceScalar device (String.ofList path))
    else
      match namespaceBag device error (String.ofList path) with
      | some (.obj [field]) => leaf field.2
      | _ => .ok none
  | some (bagName, rest) =>
    if bagName = "device" then
      if '.' ∉ rest ∧ String.ofList rest ∈ deviceReadableScalarFields then
        stringify (deviceScalar device (String.ofList rest))
      else .ok none
    else
      match namespaceBag device error bagName with
      | none => .ok none
      | some bag => do leaf (← traversePath bag (pathSegments rest))

def resolveExpandedAttribute : List Char → Except PyException (Option String) :=
  resolveExpandedWith device error resolveLeaf

/-- `resolve_device_attribute` with `reveal_secrets=False`; paths in braces nest. -/
def resolveDeviceAttributeTo : ℕ → List Char → Except PyException (Option String)
  | 0, _ => .ok none
  | fuel + 1, path => do
    match ← expandPathPlaceholders (resolveDeviceAttributeTo fuel) (pyStrip path) with
    | none | some [] => return none
    | some path => resolveExpandedAttribute device error path

def resolveDeviceAttribute (path : List Char) : Except PyException (Option String) :=
  resolveDeviceAttributeTo device error (path.length + 1) path

/-- The raw value of a path without placeholders, unless there is none. -/
def resolveExpandedRaw (path : List Char) : Except PyException (Option Json) :=
  match cutAtDot path with
  | none =>
    if String.ofList path ∈ deviceReadableScalarFields then
      .ok (some (deviceScalar device (String.ofList path)))
    else
      match namespaceBag device error (String.ofList path) with
      | some (.obj [field]) => .ok (some field.2)
      | bag => .ok bag
  | some (bagName, rest) =>
    if bagName = "device" then
      if '.' ∉ rest ∧ String.ofList rest ∈ deviceReadableScalarFields then
        .ok (some (deviceScalar device (String.ofList rest)))
      else .ok none
    else
      match namespaceBag device error bagName with
      | none => .ok none
      | some bag => traversePathRaw (pathSegments rest) bag

/-- `_resolve_raw`. -/
def resolveRaw (path : String) : Except PyException (Option Json) := do
  match ← expandPathPlaceholders (resolveDeviceAttribute device error) (pyStrip path.toList) with
  | none | some [] => return none
  | some path => resolveExpandedRaw device error path

def classifyValue (value : Json) : Except PyException (AttributeState × Option String) :=
  match unwrapSingletonList value with
  | .null => .ok (.null, none)
  | .arr items => .ok (if items.isEmpty then .empty else .present, none)
  | .obj fields => .ok (if fields.isEmpty then .empty else .present, none)
  | scalar => (strJson scalar).map fun text =>
    match pyStrip text.toList with
    | [] => (.empty, none)
    | stripped => (.present, some (String.ofList stripped))

def resolveDeviceAttributeRaw (path : String) : Except PyException Json :=
  (resolveRaw device error path).map fun raw => (raw.map unwrapSingletonList).getD .null

def resolveDeviceAttributeState (path : String) :
    Except PyException (AttributeState × Option String) := do
  match ← resolveRaw device error path with
  | none => return (.absent, none)
  | some raw => classifyValue raw

end Resolution

section Rounds

theorem matchingBrace_length {depth : ℕ} {text inner rest : List Char}
    (h : matchingBrace depth text = some (inner, rest)) :
    inner.length + rest.length < text.length := by
  induction text generalizing depth inner with
  | nil => cases h
  | cons c text ih =>
    simp only [matchingBrace] at h
    split at h
    · cases h
      simp
    · obtain ⟨⟨inner', rest'⟩, hmatch, h⟩ := Option.map_eq_some_iff.mp h
      cases h
      have hless : inner'.length + rest'.length < text.length := ih hmatch
      simp only [List.length_cons]
      omega

theorem pyStrip_length (text : List Char) : (pyStrip text).length ≤ text.length := by
  unfold pyStrip
  rw [List.length_reverse]
  calc ((text.dropWhile isPySpace).reverse.dropWhile isPySpace).length
      ≤ (text.dropWhile isPySpace).reverse.length := (List.dropWhile_suffix _).length_le
    _ = (text.dropWhile isPySpace).length := List.length_reverse
    _ ≤ text.length := (List.dropWhile_suffix _).length_le

/-- More rounds than characters change nothing, nor do the answers for longer paths. -/
theorem expandFrom_congr {resolve resolve' : List Char → Except PyException (Option String)}
    {fuel fuel' depth : ℕ} {text : List Char} (hfuel : text.length ≤ fuel)
    (hfuel' : text.length ≤ fuel')
    (h : ∀ inner, inner.length < text.length → resolve inner = resolve' inner) :
    expandFrom resolve fuel depth text = expandFrom resolve' fuel' depth text := by
  induction fuel generalizing fuel' depth text with
  | zero =>
    obtain rfl := List.length_eq_zero_iff.mp (Nat.le_zero.mp hfuel)
    cases fuel' <;> rfl
  | succ fuel ih =>
    cases text with
    | nil => cases fuel' <;> rfl
    | cons c text =>
      obtain ⟨fuel', rfl⟩ := Nat.exists_eq_succ_of_ne_zero (Nat.ne_of_gt (Nat.zero_lt_of_lt hfuel'))
      rw [List.length_cons] at hfuel hfuel'
      have hshorter : ∀ rest : List Char, ∀ d, rest.length ≤ text.length →
          expandFrom resolve fuel d rest = expandFrom resolve' fuel' d rest := by
        intro rest d hrest
        apply ih (by omega) (by omega)
        intro inner hinner
        apply h
        simp only [List.length_cons]
        omega
      simp only [expandFrom]
      split
      · rw [hshorter text _ le_rfl]
      · split
        · rfl
        · rename_i inner rest hmatch
          have hless := matchingBrace_length hmatch
          split
          · rfl
          · have hinner := pyStrip_length inner
            rw [h (pyStrip inner) (by simp only [List.length_cons]; omega)]
            simp only [hshorter rest depth (by omega)]

variable {device : DeviceContext} {error : Option ReportedError}

theorem resolveDeviceAttributeTo_congr {fuel fuel' : ℕ} {path : List Char}
    (hfuel : path.length < fuel) (hfuel' : path.length < fuel') :
    resolveDeviceAttributeTo device error fuel path =
      resolveDeviceAttributeTo device error fuel' path := by
  induction fuel generalizing fuel' path with
  | zero => omega
  | succ fuel ih =>
    obtain ⟨fuel', rfl⟩ := Nat.exists_eq_succ_of_ne_zero (Nat.ne_of_gt (Nat.zero_lt_of_lt hfuel'))
    have hstrip := pyStrip_length path
    have hexpand : expandPathPlaceholders (resolveDeviceAttributeTo device error fuel)
        (pyStrip path) = expandPathPlaceholders (resolveDeviceAttributeTo device error fuel')
        (pyStrip path) :=
      expandFrom_congr le_rfl le_rfl fun inner hinner => ih (by omega) (by omega)
    simp only [resolveDeviceAttributeTo, hexpand]

theorem resolveDeviceAttribute_eq (path : List Char) :
    resolveDeviceAttribute device error path = (do
      match ← expandPathPlaceholders (resolveDeviceAttribute device error) (pyStrip path) with
      | none | some [] => return none
      | some path => resolveExpandedAttribute device error path) := by
  have hstrip := pyStrip_length path
  have hexpand : expandPathPlaceholders (resolveDeviceAttributeTo device error path.length)
      (pyStrip path) = expandPathPlaceholders (resolveDeviceAttribute device error)
      (pyStrip path) :=
    expandFrom_congr le_rfl le_rfl fun inner hinner =>
      resolveDeviceAttributeTo_congr (by omega) (by omega)
  rw [← hexpand]
  rfl

end Rounds

section Plain

variable {device : DeviceContext} {path : List Char}

theorem matchingBrace_of_not_mem {depth : ℕ} {text : List Char} (h : '}' ∉ text) :
    matchingBrace depth text = none := by
  induction text generalizing depth with
  | nil => rfl
  | cons c text ih =>
    rw [List.mem_cons, not_or] at h
    have hc : c ≠ '}' := fun he => h.1 he.symm
    simp only [matchingBrace, hc, false_and, if_false, ih h.2, Option.map_none]

theorem expandFrom_unclosed {resolve : List Char → Except PyException (Option String)}
    {fuel depth : ℕ} {text : List Char} (hfuel : text.length ≤ fuel) (h : '}' ∉ text) :
    expandFrom resolve fuel depth text = .ok (if '{' ∈ text then none else some text) := by
  induction text generalizing fuel depth with
  | nil => cases fuel <;> rfl
  | cons c text ih =>
    rw [List.mem_cons, not_or] at h
    cases fuel with
    | zero => cases hfuel
    | succ fuel =>
      have hrest := Nat.le_of_succ_le_succ hfuel
      by_cases hc : c = '{'
      · simp [expandFrom, hc, matchingBrace_of_not_mem h.2]
      · have hne : '{' ≠ c := fun he => hc he.symm
        simp only [expandFrom, ne_eq, hc, not_false_eq_true, if_true, ih hrest h.2, List.mem_cons,
          hne, false_or, Except.map]
        split <;> rfl

def plainPath (path : List Char) : Option (List Char) :=
  if '{' ∈ pyStrip path ∨ pyStrip path = [] then none else some (pyStrip path)

/-- Without a closing brace, a path is taken as it is or has an open one. -/
theorem expanded_plain {β : Type} {resolve : List Char → Except PyException (Option String)}
    (h : '}' ∉ path) (blank : β) (f : List Char → Except PyException β) :
    (do match ← expandPathPlaceholders resolve (pyStrip path) with
      | none | some [] => return blank
      | some path => f path) = (plainPath path).elim (.ok blank) f := by
  have hstrip : '}' ∉ pyStrip path := fun hmem => h (mem_of_mem_pyStrip hmem)
  rw [expandPathPlaceholders, expandFrom_unclosed le_rfl hstrip, plainPath]
  by_cases hopen : '{' ∈ pyStrip path
  · simp only [hopen, if_true, true_or]
    rfl
  · cases hpath : pyStrip path with
    | nil => rfl
    | cons c text =>
      rw [hpath] at hopen
      simp only [hopen, if_false, false_or, reduceCtorEq]
      rfl

theorem resolveDeviceAttribute_plain (h : '}' ∉ path) :
    resolveDeviceAttribute device none path =
      (plainPath path).elim (.ok none) (resolveExpandedAttribute device none) := by
  rw [resolveDeviceAttribute_eq]
  exact expanded_plain h _ _

/-- A dot inside brackets does not end a segment. -/
theorem splitPathSegments_word {depth : ℕ} {current w text : List Char}
    (hbrackets : ∀ c ∈ w, isBracket c = false) (hdots : '.' ∈ w → 0 < depth) :
    splitPathSegments depth current (w ++ text) = splitPathSegments depth (current ++ w) text := by
  induction w generalizing current with
  | nil => rw [List.append_nil, List.nil_append]
  | cons c w ih =>
    have hc := hbrackets c List.mem_cons_self
    simp only [isBracket, Bool.or_eq_false_iff, beq_eq_false_iff_ne, ne_eq] at hc
    have hsplit : ¬ (c = '.' ∧ depth = 0) := by
      rintro ⟨rfl, hdepth⟩
      have := hdots List.mem_cons_self
      omega
    rw [List.cons_append, splitPathSegments, if_neg hc.1, if_neg hc.2, if_neg hsplit,
      ih (fun c hc => hbrackets c (List.mem_cons_of_mem _ hc))
        fun h => hdots (List.mem_cons_of_mem _ h), List.append_assoc, List.singleton_append]

end Plain

section Raises

/-- The limit on the digits of an integer. -/
def IsDigitLimit (e : PyException) : Prop := e = .valueError digitLimitMessage

theorem strJson_raises (value : Json) : OnlyRaises IsDigitLimit (strJson value) := by
  cases value with
  | int n =>
    simp only [strJson, strInt]
    split
    · exact .error rfl
    · exact .ok _
  | _ => exact .ok _

theorem indexOf_raises (digits : List Char) : OnlyRaises IsDigitLimit (indexOf digits) := by
  unfold indexOf
  split
  · exact .error rfl
  · exact .ok _

theorem findFilteredItem_raises (field : List String) (wanted : String) (items : Json) :
    OnlyRaises IsDigitLimit (findFilteredItem field wanted items) := by
  have hmatches : ∀ item, OnlyRaises IsDigitLimit (matchesFilter field wanted item) := by
    intro item
    unfold matchesFilter
    split
    · dsimp only
      split
      · exact .ok _
      · exact (strJson_raises _).map
    · exact .ok _
  cases items with
  | arr items =>
    rw [findFilteredItem]
    induction items with
    | nil => exact .ok _
    | cons item items ih =>
      rw [findItem]
      apply (hmatches item).bind
      intro found
      split
      · exact .ok _
      · exact ih
  | _ => exact .ok _

theorem stepInto_raises (value : Json) (segment : PathSegment) :
    OnlyRaises IsDigitLimit (stepInto value segment) := by
  cases segment with
  | key key => exact .ok _
  | filter key field wanted => exact (findFilteredItem_raises _ _ _).map
  | index key digits =>
    cases value with
    | obj fields => exact (indexOf_raises digits).map
    | _ => exact .ok _

theorem traversePathRaw_raises (path : List PathSegment) (value : Json) :
    OnlyRaises IsDigitLimit (traversePathRaw path value) := by
  induction path generalizing value with
  | nil => exact .ok _
  | cons segment path ih =>
    rw [traversePathRaw]
    apply OnlyRaises.bind
    · cases segment with
      | key key => exact .ok _
      | filter key field wanted =>
        simp only [stepIntoRaw]
        split
        · exact .ok _
        · exact findFilteredItem_raises _ _ _
      | index key digits =>
        simp only [stepIntoRaw]
        split
        · exact .ok _
        · exact (indexOf_raises digits).map
    · intro found
      split
      · exact .ok _
      · exact ih _

theorem stringify_raises (value : Json) : OnlyRaises IsDigitLimit (stringify value) := by
  unfold stringify
  dsimp only
  split
  · exact .ok _
  · exact (strJson_raises _).map

theorem resolveLeaf_raises (value : Json) : OnlyRaises IsDigitLimit (resolveLeaf value) := by
  unfold resolveLeaf
  split
  · exact .ok _
  · exact stringify_raises value

theorem expandFrom_raises {resolve : List Char → Except PyException (Option String)}
    (h : ∀ path, OnlyRaises IsDigitLimit (resolve path)) (fuel depth : ℕ) (text : List Char) :
    OnlyRaises IsDigitLimit (expandFrom resolve fuel depth text) := by
  induction fuel generalizing depth text with
  | zero => cases text <;> exact .ok _
  | succ fuel ih =>
    cases text with
    | nil => exact .ok _
    | cons c text =>
      simp only [expandFrom]
      split
      · exact (ih _ text).map
      · split
        · exact .ok _
        · rename_i inner rest hmatch
          split
          · exact .ok _
          · apply (h (pyStrip inner)).bind
            intro found
            split
            · exact .ok _
            · split
              · exact .ok _
              · exact (ih _ rest).bind fun _ => .ok _

variable (device : DeviceContext) (error : Option ReportedError)

theorem resolveDeviceAttributeTo_raises (fuel : ℕ) (path : List Char) :
    OnlyRaises IsDigitLimit (resolveDeviceAttributeTo device error fuel path) := by
  have hexpanded : ∀ path,
      OnlyRaises IsDigitLimit (resolveExpandedAttribute device error path) := by
    intro path
    unfold resolveExpandedAttribute resolveExpandedWith
    split
    · split
      · exact stringify_raises _
      · split
        · exact resolveLeaf_raises _
        · exact .ok _
    · split
      · split
        · exact stringify_raises _
        · exact .ok _
      · split
        · exact .ok _
        · exact (OnlyRaises.foldlM stepInto_raises).bind fun _ => resolveLeaf_raises _
  induction fuel generalizing path with
  | zero => exact .ok _
  | succ fuel ih =>
    rw [resolveDeviceAttributeTo]
    apply OnlyRaises.bind
    · exact expandFrom_raises (fun path => ih path) _ _ _
    · intro expanded
      split
      · exact .ok _
      · exact .ok _
      · exact hexpanded _

theorem resolveRaw_raises (path : String) :
    OnlyRaises IsDigitLimit (resolveRaw device error path) := by
  have hexpanded : ∀ path, OnlyRaises IsDigitLimit (resolveExpandedRaw device error path) := by
    intro path
    unfold resolveExpandedRaw
    split
    · split
      · exact .ok _
      · split
        · exact .ok _
        · exact .ok _
    · split
      · split
        · exact .ok _
        · exact .ok _
      · split
        · exact .ok _
        · exact traversePathRaw_raises _ _
  unfold resolveRaw
  apply OnlyRaises.bind
  · exact expandFrom_raises (fun path => resolveDeviceAttributeTo_raises device error _ path) _ _ _
  · intro expanded
    split
    · exact .ok _
    · exact .ok _
    · exact hexpanded _

theorem resolveDeviceAttributeState_raises (path : String) :
    OnlyRaises IsDigitLimit (resolveDeviceAttributeState device error path) := by
  apply (resolveRaw_raises device error path).bind
  intro raw
  split
  · exact .ok _
  · unfold classifyValue
    split
    · exact .ok _
    · exact .ok _
    · exact .ok _
    · exact (strJson_raises _).map

end Raises

end Manus.Expression
