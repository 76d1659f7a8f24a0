import Manus.Expression.ReadBack
import Manus.Expression.Resolvers

/-! # A device after a write

A write changes one field of the device, or one key of one bag. What is read from
elsewhere stays; what was written is read back where the path is readable.
-/

namespace Manus.Expression

section Plain

theorem expandFrom_of_not_mem {resolve : List Char → Except PyException (Option String)}
    {fuel depth : ℕ} {text : List Char} (hplain : '{' ∉ text) (hfuel : text.length ≤ fuel) :
    expandFrom resolve fuel depth text = .ok (some text) := by
  induction text generalizing fuel depth with
  | nil => cases fuel <;> rfl
  | cons c text ih =>
    cases fuel with
    | zero => cases hfuel
    | succ fuel =>
      rw [List.mem_cons, not_or] at hplain
      rw [expandFrom, if_pos (Ne.symm hplain.1)]
      dsimp only
      rw [ih hplain.2 (Nat.le_of_succ_le_succ hfuel)]
      rfl

variable {unwrapSecret : Json → Except PyException (Option String)} {device : DeviceContext}
  {error : Option ReportedError}

theorem revealDeviceAttribute_of_not_mem {path : String} (hplain : '{' ∉ path.toList)
    (hne : pyStrip path.toList ≠ []) :
    revealDeviceAttribute unwrapSecret device error path =
      revealExpandedAttribute unwrapSecret device error (pyStrip path.toList) := by
  rw [revealDeviceAttribute, expandPathPlaceholders,
    expandFrom_of_not_mem (fun h => hplain (mem_of_mem_pyStrip h)) le_rfl]
  cases hpath : pyStrip path.toList with
  | nil => exact absurd hpath hne
  | cons c rest => rfl

theorem revealDeviceAttribute_blank {path : String} (hblank : pyStrip path.toList = []) :
    revealDeviceAttribute unwrapSecret device error path = .ok none := by
  rw [revealDeviceAttribute, hblank]
  rfl

theorem stringify_text {text : String} (hne : pyStrip text.toList ≠ []) :
    stringify (.str text) = .ok (some (String.ofList (pyStrip text.toList))) := by
  cases hstrip : pyStrip text.toList with
  | nil => exact absurd hstrip hne
  | cons c rest =>
    simp [stringify, unwrapSingletonList, isContainer, strJson, pyStr, Except.map, hstrip]

theorem revealLeaf_text {text : String} (hne : pyStrip text.toList ≠ []) :
    revealLeaf unwrapSecret (.str text) = .ok (some (String.ofList (pyStrip text.toList))) := by
  have hplain : isSealedSecret (.str text) = false := rfl
  rw [revealLeaf, hplain]
  exact stringify_text hne

end Plain

section Places

def place (path : List Char) : String × Option String :=
  match cutAtDot path with
  | none =>
    if String.ofList path ∈ deviceReadableScalarFields then ("device", some (String.ofList path))
    else (String.ofList path, none)
  | some (bagName, rest) =>
    if bagName = "device" then ("device", some (String.ofList rest))
    else (bagName, headKey (splitPathSegments 0 [] rest))

/-- Two paths that go apart in their first segment, or are in different namespaces. -/
def Apart (path other : List Char) : Prop :=
  (place path).1 ≠ (place other).1 ∨
    ∃ key key', (place path).2 = some key ∧ (place other).2 = some key' ∧ key ≠ key'

def pathParts (path : List Char) : List (List Char) :=
  match cutAtDot path with
  | none => [path]
  | some (_, remainder) => splitPathSegments 0 [] remainder

def ReadableAt (device : DeviceContext) (path : List Char) : Prop :=
  match cutAtDot path with
  | none => path ≠ "primary_ip4".toList
  | some (bagName, remainder) => bagName ≠ "device" →
    bagName ≠ "error" ∧ Readable (splitPathSegments 0 [] remainder)
      ((device.attributeBags.get? bagName).getD ∅).entries

def writableScalarFields : List String :=
  ["name", "hostname", "platform", "network_driver", "primary_ip4"]

theorem readable_of_writable : ∀ field ∈ writableScalarFields,
    field ∈ deviceReadableScalarFields := by
  decide

variable {device written : DeviceContext}

theorem setDeviceScalar_eq_ok {field text : String} (hfield : field ∈ deviceScalarFields)
    (h : setDeviceScalar device field text = .ok written) :
    field ∈ writableScalarFields ∧ written = withAttributes (setScalar device field text) := by
  unfold setDeviceScalar at h
  rw [ite_error_eq_ok] at h
  obtain ⟨hwritable, h⟩ := h
  refine ⟨?_, (Except.ok.inj h).symm⟩
  simp only [deviceScalarFields, readOnlyDeviceFields, writableScalarFields, List.mem_cons,
    List.not_mem_nil, or_false] at hfield hwritable ⊢
  tauto

/-- Everything that a write can do. -/
theorem setDeviceAttribute_cases {path text : String}
    (h : setDeviceAttribute device path text = .ok written) :
    (∃ field ∈ writableScalarFields, place (pyStrip path.toList) = ("device", some field) ∧
      written = withAttributes (setScalar device field text)) ∨
    (∃ bagName remainder entry, cutAtDot (pyStrip path.toList) = some (bagName, remainder) ∧
      bagName ≠ "device" ∧ bagName ≠ "parsed" ∧
      writtenEntry (.str text) (splitPathSegments 0 [] remainder)
        ((device.attributeBags.get? bagName).getD ∅).entries = .ok entry ∧
      written = withBag device bagName
        (((device.attributeBags.get? bagName).getD ∅).insert entry.1 entry.2)) := by
  have hreadable : ∀ field ∈ deviceScalarFields, field ∈ deviceReadableScalarFields := by decide
  unfold setDeviceAttribute at h
  dsimp only at h
  rw [ite_error_eq_ok] at h
  obtain ⟨-, h⟩ := h
  cases hcut : cutAtDot (pyStrip path.toList) with
  | none =>
    left
    simp only [hcut] at h
    split at h
    · next hfield =>
      obtain ⟨hwritable, rfl⟩ := setDeviceScalar_eq_ok hfield h
      refine ⟨_, hwritable, ?_, rfl⟩
      simp only [place, hcut]
      rw [if_pos (hreadable _ hfield)]
    · cases h
  | some cut =>
    obtain ⟨bagName, remainder⟩ := cut
    simp only [hcut] at h
    by_cases hdevice : bagName = "device"
    · left
      rw [if_pos hdevice, ite_error_eq_ok, ite_error_eq_ok] at h
      obtain ⟨-, hfield, h⟩ := h
      obtain ⟨hwritable, rfl⟩ := setDeviceScalar_eq_ok (not_not.mp hfield) h
      refine ⟨_, hwritable, ?_, rfl⟩
      simp [place, hcut, hdevice]
    · right
      rw [if_neg hdevice, ite_error_eq_ok, ite_error_eq_ok] at h
      obtain ⟨-, hreserved, h⟩ := h
      obtain ⟨entry, hentry, h⟩ := bind_eq_ok.mp h
      refine ⟨bagName, remainder, entry, rfl, hdevice, ?_, hentry, (Except.ok.inj h).symm⟩
      rintro rfl
      exact hreserved (by decide)

/-- Whether a write succeeds does not depend on the text. -/
theorem setDeviceAttribute_ok {path text other : String}
    (h : setDeviceAttribute device path text = .ok written) :
    ∃ written, setDeviceAttribute device path other = .ok written := by
  unfold setDeviceAttribute at h ⊢
  dsimp only at h ⊢
  split at h
  · cases h
  · next hne =>
    rw [if_neg hne]
    cases hcut : cutAtDot (pyStrip path.toList) with
    | none =>
      simp only [hcut] at h ⊢
      split at h
      · next hfield =>
        rw [if_pos hfield]
        unfold setDeviceScalar at h ⊢
        rw [ite_error_eq_ok] at h
        rw [if_neg h.1]
        exact ⟨_, rfl⟩
      · cases h
    | some cut =>
      obtain ⟨bagName, remainder⟩ := cut
      simp only [hcut] at h ⊢
      by_cases hdevice : bagName = "device"
      · rw [if_pos hdevice, ite_error_eq_ok, ite_error_eq_ok] at h
        rw [if_pos hdevice, if_neg h.1, if_neg h.2.1]
        have hscalar := h.2.2
        unfold setDeviceScalar at hscalar ⊢
        rw [ite_error_eq_ok] at hscalar
        rw [if_neg hscalar.1]
        exact ⟨_, rfl⟩
      · rw [if_neg hdevice, ite_error_eq_ok, ite_error_eq_ok] at h
        rw [if_neg hdevice, if_neg h.1, if_neg h.2.1]
        obtain ⟨entry, hentry, -⟩ := bind_eq_ok.mp h.2.2
        obtain ⟨entry', hentry'⟩ := writtenEntry_ok hentry
        exact ⟨_, bind_eq_ok.mpr ⟨entry', hentry', rfl⟩⟩

end Places

section Reads

variable {unwrapSecret : Json → Except PyException (Option String)} {device : DeviceContext}
  {path : List Char}

/-- A path into the device itself reads one of its fields, by either spelling. -/
theorem reveal_scalar {field : String} (hplace : place path = ("device", some field)) :
    revealExpandedAttribute unwrapSecret device none path =
      if field ∈ deviceReadableScalarFields then stringify (deviceScalar device field)
      else .ok none := by
  have hdotless : ∀ field ∈ deviceReadableScalarFields, '.' ∉ field.toList := by decide
  unfold place at hplace
  unfold revealExpandedAttribute resolveExpandedWith
  cases hcut : cutAtDot path with
  | none =>
    simp only [hcut] at hplace ⊢
    split at hplace
    · next hfield =>
      obtain rfl : String.ofList path = field := by simpa using hplace
      rw [if_pos hfield, if_pos hfield]
    · simp at hplace
  | some cut =>
    obtain ⟨bagName, rest⟩ := cut
    simp only [hcut] at hplace ⊢
    split at hplace
    · next hdevice =>
      obtain rfl : String.ofList rest = field := by simpa using hplace
      rw [if_pos hdevice]
      by_cases hfield : String.ofList rest ∈ deviceReadableScalarFields
      · have hrest : '.' ∉ rest := by simpa using hdotless _ hfield
        rw [if_pos ⟨hrest, hfield⟩, if_pos hfield]
      · rw [if_neg fun h => hfield h.2, if_neg hfield]
    · next hdevice => exact absurd (congrArg Prod.fst hplace) hdevice

theorem reveal_bag {bagName : String} {rest : List Char}
    (hcut : cutAtDot path = some (bagName, rest)) (hdevice : bagName ≠ "device") :
    revealExpandedAttribute unwrapSecret device none path =
      match namespaceBag device none bagName with
      | none => .ok none
      | some bag => traversePath bag (pathSegments rest) >>= revealLeaf unwrapSecret := by
  rw [revealExpandedAttribute, resolveExpandedWith, hcut]
  apply (if_neg hdevice).trans
  cases namespaceBag device none bagName <;> rfl

theorem namespaceBag_withBag {bagName : String} (bag : Dict Json) (hparsed : bagName ≠ "parsed")
    (herror : bagName ≠ "error") :
    namespaceBag (withBag device bagName bag) none bagName = some (.obj bag.entries) := by
  simp [namespaceBag, withBag, withAttributes, hparsed, herror]

theorem namespaceBag_withBag_of_ne {bagName other : String} (bag : Dict Json)
    (hne : other ≠ bagName) :
    namespaceBag (withBag device bagName bag) none other = namespaceBag device none other := by
  have hget : (device.attributeBags.insert bagName bag).get? other =
      device.attributeBags.get? other := by
    rw [Dict.get?_insert, if_neg hne]
  unfold namespaceBag
  rw [← hget]
  rfl

theorem namespaceBag_setScalar (field text other : String) :
    namespaceBag (withAttributes (setScalar device field text)) none other =
      namespaceBag device none other := by
  unfold setScalar
  split <;> rfl

theorem deviceScalar_withBag (bagName field : String) (bag : Dict Json) :
    deviceScalar (withBag device bagName bag) field = deviceScalar device field := rfl

theorem deviceScalar_setScalar_self {field text : String} (hfield : field ∈ writableScalarFields)
    (hip : field ≠ "primary_ip4") :
    deviceScalar (withAttributes (setScalar device field text)) field = .str text := by
  simp only [writableScalarFields, List.mem_cons, List.not_mem_nil, or_false] at hfield
  rcases hfield with rfl | rfl | rfl | rfl | rfl
  · rfl
  · rfl
  · rfl
  · rfl
  · exact absurd rfl hip

theorem deviceScalar_setScalar_of_ne {field text other : String}
    (hfield : field ∈ writableScalarFields) (hip : field ≠ "primary_ip4") (hne : other ≠ field) :
    deviceScalar (withAttributes (setScalar device field text)) other =
      deviceScalar device other := by
  simp only [writableScalarFields, List.mem_cons, List.not_mem_nil, or_false] at hfield
  rcases hfield with rfl | rfl | rfl | rfl | rfl
  · unfold deviceScalar
    split <;> first | rfl | exact absurd rfl hne
  · unfold deviceScalar
    split <;> first | rfl | exact absurd rfl hne
  · unfold deviceScalar
    split <;> first | rfl | exact absurd rfl hne
  · unfold deviceScalar
    split <;> first | rfl | exact absurd rfl hne
  · exact absurd rfl hip

def resolvedText (found : Except PyException (Option String)) : Option String :=
  found.toOption.join

/-- Behind a key that an object does not have, nothing is read. -/
theorem traversePath_missing {fields : List (String × Json)} {segments : List PathSegment}
    (hmissing : ∀ key ∈ segments.head?.map segmentKey, fields.lookup key = none)
    (hne : segments ≠ []) :
    resolvedText (traversePath (.obj fields) segments >>= revealLeaf unwrapSecret) = none := by
  cases segments with
  | nil => exact absurd rfl hne
  | cons segment segments =>
    have hlookup : fields.lookup (segmentKey segment) = none := hmissing _ rfl
    have hget : Json.getD (segmentKey segment) (.obj fields) = .null := by
      simp [Json.getD, Json.get?, hlookup]
    have hstep : stepInto (.obj fields) segment = .ok .null ∨
        ∃ e, stepInto (.obj fields) segment = .error e := by
      cases segment with
      | key key => exact Or.inl (congrArg Except.ok hget)
      | filter key field wanted =>
        left
        simp only [segmentKey] at hget
        simp [stepInto, hget, findFilteredItem, Except.map]
      | index key digits =>
        simp only [segmentKey] at hget
        simp only [stepInto, hget, indexIntoList, Option.getD_none]
        cases indexOf digits with
        | error e => exact Or.inr ⟨e, rfl⟩
        | ok index => exact Or.inl rfl
    rw [traversePath, List.foldlM_cons]
    rcases hstep with hnull | ⟨e, herror⟩
    · have hrest : segments.foldlM stepInto .null = .ok .null := traversePath_null segments
      simp only [hnull, bind, Except.bind, hrest]
      rfl
    · rw [herror]
      rfl

theorem traversePath_other {fields : List (String × Json)} {entry : String × Json}
    {segments : List PathSegment} (hne : segments ≠ [])
    (hother : ∀ key ∈ segments.head?.map segmentKey, key ≠ entry.1) :
    traversePath (.obj (Dict.insertEntry entry.1 entry.2 fields)) segments =
      traversePath (.obj fields) segments := by
  cases segments with
  | nil => exact absurd rfl hne
  | cons segment segments =>
    have hkey : segmentKey segment ≠ entry.1 := hother _ rfl
    have hget : Json.getD (segmentKey segment) (.obj (Dict.insertEntry entry.1 entry.2 fields)) =
        Json.getD (segmentKey segment) (.obj fields) := by
      simp [Json.getD, Json.get?, Dict.lookup_insertEntry, hkey]
    have hstep : stepInto (.obj (Dict.insertEntry entry.1 entry.2 fields)) segment =
        stepInto (.obj fields) segment := by
      cases segment with
      | key key => exact congrArg Except.ok hget
      | filter key field wanted =>
        simp only [segmentKey] at hget
        rw [stepInto, stepInto, hget]
      | index key digits =>
        simp only [segmentKey] at hget
        simp only [stepInto, hget]
    rw [traversePath, traversePath, List.foldlM_cons, List.foldlM_cons, hstep]

theorem splitPathSegments_ne_nil (depth : ℕ) (current text : List Char) :
    splitPathSegments depth current text ≠ [] := by
  induction text generalizing depth current with
  | nil => simp [splitPathSegments]
  | cons c text ih =>
    rw [splitPathSegments]
    split
    · exact ih _ _
    · split
      · exact ih _ _
      · split
        · exact List.cons_ne_nil _ _
        · exact ih _ _

theorem head?_pathSegments (rest : List Char) :
    (pathSegments rest).head?.map segmentKey = headKey (splitPathSegments 0 [] rest) := by
  unfold pathSegments
  cases splitPathSegments 0 [] rest <;> rfl

theorem pathSegments_ne_nil (rest : List Char) : pathSegments rest ≠ [] := by
  rw [pathSegments, Ne, List.map_eq_nil_iff]
  exact splitPathSegments_ne_nil 0 [] rest

end Reads

section Frame

variable {unwrapSecret : Json → Except PyException (Option String)} {device written : DeviceContext}
  {path other : String} {text : String}

/-- Paths of another namespace, or of another field, read as before. -/
theorem reveal_setScalar {field : String} {other : List Char}
    (hfield : field ∈ writableScalarFields)
    (hip : field ≠ "primary_ip4")
    (hapart : (place other).1 ≠ "device" ∨ ∃ key', (place other).2 = some key' ∧ field ≠ key') :
    revealExpandedAttribute unwrapSecret (withAttributes (setScalar device field text)) none other =
      revealExpandedAttribute unwrapSecret device none other := by
  by_cases hdevice : ∃ key', place other = ("device", some key')
  · obtain ⟨key', hplace⟩ := hdevice
    rw [reveal_scalar hplace, reveal_scalar hplace]
    have hne : key' ≠ field := by
      rw [hplace] at hapart
      rcases hapart with h | ⟨_, h, hne⟩
      · exact absurd rfl h
      · obtain rfl := Option.some.inj h
        exact Ne.symm hne
    rw [deviceScalar_setScalar_of_ne hfield hip hne]
  · unfold place at hdevice
    unfold revealExpandedAttribute resolveExpandedWith
    simp only [namespaceBag_setScalar]
    cases hcut : cutAtDot other with
    | none =>
      simp only [hcut] at hdevice ⊢
      by_cases hscalar : String.ofList other ∈ deviceReadableScalarFields
      · rw [if_pos hscalar] at hdevice
        exact absurd ⟨_, rfl⟩ hdevice
      · rw [if_neg hscalar, if_neg hscalar]
    | some cut =>
      obtain ⟨bagName, rest⟩ := cut
      simp only [hcut] at hdevice ⊢
      by_cases hbag : bagName = "device"
      · rw [if_pos hbag] at hdevice
        exact absurd ⟨_, rfl⟩ hdevice
      · rw [if_neg hbag, if_neg hbag]

theorem reveal_withBag {bagName : String} {entry : String × Json} {other : List Char}
    (hdevice : bagName ≠ "device") (hparsed : bagName ≠ "parsed")
    (hapart : (place other).1 ≠ bagName ∨ ∃ key', (place other).2 = some key' ∧ entry.1 ≠ key') :
    resolvedText (revealExpandedAttribute unwrapSecret (withBag device bagName
      (((device.attributeBags.get? bagName).getD ∅).insert entry.1 entry.2)) none other) =
      resolvedText (revealExpandedAttribute unwrapSecret device none other) := by
  by_cases hscalar : ∃ key', place other = ("device", some key')
  · obtain ⟨key', hplace⟩ := hscalar
    rw [reveal_scalar hplace, reveal_scalar hplace, deviceScalar_withBag]
  unfold place at hscalar hapart
  cases hcut : cutAtDot other with
  | none =>
    simp only [hcut] at hscalar hapart
    by_cases hname : String.ofList other ∈ deviceReadableScalarFields
    · rw [if_pos hname] at hscalar
      exact absurd ⟨_, rfl⟩ hscalar
    · rw [if_neg hname] at hapart
      have hne : String.ofList other ≠ bagName := by
        rcases hapart with h | ⟨_, h, -⟩
        · exact h
        · cases h
      simp only [revealExpandedAttribute, resolveExpandedWith, hcut, if_neg hname,
        namespaceBag_withBag_of_ne _ hne]
  | some cut =>
    obtain ⟨otherBag, rest⟩ := cut
    simp only [hcut] at hscalar hapart
    by_cases hother : otherBag = "device"
    · rw [if_pos hother] at hscalar
      exact absurd ⟨_, rfl⟩ hscalar
    · rw [if_neg hother] at hapart
      rw [reveal_bag hcut hother, reveal_bag hcut hother]
      by_cases hne : otherBag = bagName
      · subst hne
        obtain ⟨key', hhead, hkey⟩ := hapart.resolve_left (not_not.mpr rfl)
        have hsegments : ∀ key ∈ (pathSegments rest).head?.map segmentKey, key ≠ entry.1 := by
          intro key hmem
          have hfirst : headKey (splitPathSegments 0 [] rest) = some key' := hhead
          rw [head?_pathSegments, hfirst] at hmem
          obtain rfl := Option.some.inj hmem
          exact Ne.symm hkey
        by_cases herror : otherBag = "error"
        · subst herror
          rfl
        rw [namespaceBag_withBag _ hparsed herror]
        cases hbag : device.attributeBags.get? otherBag with
        | some bag =>
          have hold : namespaceBag device none otherBag = some (.obj bag.entries) := by
            simp [namespaceBag, hparsed, herror, hbag]
          rw [hold]
          simp only [Option.getD_some, Dict.insert]
          rw [traversePath_other (pathSegments_ne_nil rest) hsegments]
        | none =>
          have hold : namespaceBag device none otherBag = none := by
            simp [namespaceBag, hparsed, herror, hbag]
          rw [hold]
          refine (traversePath_missing ?_ (pathSegments_ne_nil rest)).trans rfl
          intro key hmem
          simp [Dict.insert, EmptyCollection.emptyCollection, Dict.empty, Dict.insertEntry,
            hsegments key hmem]
      · rw [namespaceBag_withBag_of_ne _ hne]

end Frame

section ReadBack

variable {unwrapSecret : Json → Except PyException (Option String)}
  {device written first : DeviceContext} {path text start : String}

theorem cutAtDot_eq_some {path rest : List Char} {bagName : String}
    (h : cutAtDot path = some (bagName, rest)) : path = bagName.toList ++ '.' :: rest := by
  unfold cutAtDot at h
  have hsplit := List.takeWhile_append_dropWhile (p := (· ≠ '.')) (l := path)
  split at h
  · cases h
  · next c rest' hdrop =>
    obtain ⟨rfl, rfl⟩ : String.ofList (path.takeWhile (· ≠ '.')) = bagName ∧ rest' = rest := by
      simpa using h
    have hdot : c = '.' := by
      have hhead := List.head?_dropWhile_not (· ≠ '.') path
      rw [hdrop] at hhead
      simpa using hhead
    rw [hdrop, hdot] at hsplit
    simpa using hsplit.symm

/-- Only the bare spelling of the primary address is left, where a write goes to that field. -/
theorem field_ne_primaryIp4 {path : List Char} {field : String}
    (hplace : place path = ("device", some field)) (hip : path ≠ "device.primary_ip4".toList)
    (hreadable : ReadableAt device path) : field ≠ "primary_ip4" := by
  rintro rfl
  unfold place at hplace
  unfold ReadableAt at hreadable
  cases hcut : cutAtDot path with
  | none =>
    simp only [hcut] at hplace hreadable
    split at hplace
    · have htext : String.ofList path = "primary_ip4" := by simpa using hplace
      apply hreadable
      rw [← htext, String.toList_ofList]
    · simp at hplace
  | some cut =>
    obtain ⟨bagName, rest⟩ := cut
    simp only [hcut] at hplace
    split at hplace
    · next hdevice =>
      have htext : String.ofList rest = "primary_ip4" := by simpa using hplace
      apply hip
      have hrest : rest = "primary_ip4".toList := by rw [← htext, String.toList_ofList]
      rw [cutAtDot_eq_some hcut, hdevice, hrest]
      rfl
    · next hdevice => exact hdevice (congrArg Prod.fst hplace)

/-- What is written where it is readable is read back, and nothing else is changed. -/
theorem reads_back (hplain : '{' ∉ path.toList)
    (hip : pyStrip path.toList ≠ "device.primary_ip4".toList)
    (hreadable : ReadableAt device (pyStrip path.toList)) (htext : pyStrip text.toList ≠ [])
    (h : setDeviceAttribute device path text = .ok written) :
    revealDeviceAttribute unwrapSecret written none path =
        .ok (some (String.ofList (pyStrip text.toList))) ∧
      ∀ other : String, '{' ∉ other.toList → Apart (pyStrip path.toList) (pyStrip other.toList) →
        resolvedText (revealDeviceAttribute unwrapSecret written none other) =
          resolvedText (revealDeviceAttribute unwrapSecret device none other) := by
  have hne : pyStrip path.toList ≠ [] := by
    intro hblank
    simp [setDeviceAttribute, hblank] at h
  -- Blank paths read nothing, on either device.
  have hframe : (∀ other, Apart (pyStrip path.toList) other →
      resolvedText (revealExpandedAttribute unwrapSecret written none other) =
        resolvedText (revealExpandedAttribute unwrapSecret device none other)) →
      ∀ other : String, '{' ∉ other.toList → Apart (pyStrip path.toList) (pyStrip other.toList) →
        resolvedText (revealDeviceAttribute unwrapSecret written none other) =
          resolvedText (revealDeviceAttribute unwrapSecret device none other) := by
    intro hexpanded other hother hapart
    by_cases hblank : pyStrip other.toList = []
    · rw [revealDeviceAttribute_blank hblank, revealDeviceAttribute_blank hblank]
    · rw [revealDeviceAttribute_of_not_mem hother hblank,
        revealDeviceAttribute_of_not_mem hother hblank]
      exact hexpanded _ hapart
  rw [revealDeviceAttribute_of_not_mem hplain hne]
  rcases setDeviceAttribute_cases h with ⟨field, hfield, hplace, rfl⟩ |
    ⟨bagName, remainder, entry, hcut, hdevice, hparsed, hentry, rfl⟩
  · have hfieldIp := field_ne_primaryIp4 hplace hip hreadable
    have hscalar : field ∈ deviceReadableScalarFields := readable_of_writable field hfield
    constructor
    · rw [reveal_scalar hplace, if_pos hscalar, deviceScalar_setScalar_self hfield hfieldIp]
      exact stringify_text htext
    · apply hframe
      intro other hapart
      rw [reveal_setScalar hfield hfieldIp]
      rw [Apart, hplace] at hapart
      rcases hapart with hname | ⟨key, key', hkey, hkey', hkeys⟩
      · exact Or.inl (Ne.symm hname)
      · obtain rfl := Option.some.inj hkey
        exact Or.inr ⟨key', hkey', hkeys⟩
  · unfold ReadableAt at hreadable
    simp only [hcut] at hreadable
    obtain ⟨herror, hparts⟩ := hreadable hdevice
    constructor
    · rw [reveal_bag hcut hdevice, namespaceBag_withBag _ hparsed herror]
      simp only [Dict.insert]
      rw [pathSegments, traversePath_written hparts hentry]
      simp only [bind, Except.bind]
      exact revealLeaf_text htext
    · apply hframe
      intro other hapart
      apply reveal_withBag hdevice hparsed
      have hplace : place (pyStrip path.toList) = (bagName, some entry.1) := by
        rw [place, hcut]
        simp only [if_neg hdevice, headKey_of_entry hentry]
      rw [Apart, hplace] at hapart
      rcases hapart with hname | ⟨key, key', hkey, hkey', hkeys⟩
      · exact Or.inl (Ne.symm hname)
      · obtain rfl := Option.some.inj hkey
        exact Or.inr ⟨key', hkey', hkeys⟩

/-- Two texts that are both read where they were written are the same text, if what is read does
not depend on the text. -/
theorem readable_of_reads_back (hplain : '{' ∉ path.toList)
    (huntested : LastUntested (pathParts (pyStrip path.toList)))
    (hset : setDeviceAttribute device path start = .ok first)
    (h : ∀ text : String, ∀ written, pyStrip text.toList ≠ [] →
      setDeviceAttribute device path text = .ok written →
      revealDeviceAttribute unwrapSecret written none path =
        .ok (some (String.ofList (pyStrip text.toList)))) :
    ReadableAt device (pyStrip path.toList) := by
  have hne : pyStrip path.toList ≠ [] := by
    intro hblank
    simp [setDeviceAttribute, hblank] at hset
  unfold ReadableAt
  cases hcut : cutAtDot (pyStrip path.toList) with
  | none =>
    intro hip
    obtain ⟨written, hwritten⟩ := @setDeviceAttribute_ok _ _ _ _ "a/b" hset
    have hread := h "a/b" written (by decide) hwritten
    rw [revealDeviceAttribute_of_not_mem hplain hne, hip,
      @reveal_scalar _ _ _ "primary_ip4" rfl] at hread
    rcases setDeviceAttribute_cases hwritten with ⟨field, hfield, hplace, rfl⟩ |
      ⟨bagName, remainder, entry, hcut', -⟩
    · rw [hip] at hplace
      obtain rfl : field = "primary_ip4" := by
        have hfields := congrArg Prod.snd hplace
        exact (Option.some.inj hfields).symm
      have hbare : deviceScalar (withAttributes (setScalar device "primary_ip4" "a/b"))
          "primary_ip4" = .str "a" := rfl
      rw [if_pos (by decide), hbare, stringify_text (by decide)] at hread
      exact absurd (Option.some.inj (Except.ok.inj hread)) (by decide)
    · rw [hcut] at hcut'
      cases hcut'
  | some cut =>
    obtain ⟨bagName, remainder⟩ := cut
    intro hdevice
    have hcases : ∀ text : String, ∃ entry,
        writtenEntry (.str text) (splitPathSegments 0 [] remainder)
          ((device.attributeBags.get? bagName).getD ∅).entries = .ok entry ∧
        (pyStrip text.toList ≠ [] → revealExpandedAttribute unwrapSecret (withBag device bagName
          (((device.attributeBags.get? bagName).getD ∅).insert entry.1 entry.2)) none
            (pyStrip path.toList) = .ok (some (String.ofList (pyStrip text.toList)))) ∧
        bagName ≠ "parsed" := by
      intro text
      obtain ⟨written, hwritten⟩ := @setDeviceAttribute_ok _ _ _ _ text hset
      rcases setDeviceAttribute_cases hwritten with ⟨field, -, hplace, -⟩ |
        ⟨bagName', remainder', entry, hcut', -, hparsed, hentry, rfl⟩
      · rw [place, hcut] at hplace
        simp [hdevice] at hplace
      · obtain ⟨rfl, rfl⟩ : bagName = bagName' ∧ remainder = remainder' := by
          simpa using hcut.symm.trans hcut'
        refine ⟨entry, hentry, fun htext => ?_, hparsed⟩
        rw [← revealDeviceAttribute_of_not_mem hplain hne]
        exact h text _ htext hwritten
    have herror : bagName ≠ "error" := by
      rintro rfl
      obtain ⟨entry, -, hread, -⟩ := hcases "a"
      have hnone := hread (by decide)
      rw [reveal_bag hcut hdevice] at hnone
      cases hnone
    refine ⟨herror, ?_⟩
    by_contra hunreadable
    rw [pathParts, hcut] at huntested
    obtain ⟨read, hread⟩ := traversePath_unreadable huntested hunreadable
    have hsame : ∀ text : String, pyStrip text.toList ≠ [] → (read >>= revealLeaf unwrapSecret) =
        .ok (some (String.ofList (pyStrip text.toList))) := by
      intro text htext
      obtain ⟨entry, hentry, hreads, hparsed⟩ := hcases text
      rw [← hreads htext, reveal_bag hcut hdevice, namespaceBag_withBag _ hparsed herror,
        ← hread _ entry hentry]
      rfl
    have ha := hsame "a" (by decide)
    rw [hsame "b" (by decide)] at ha
    exact absurd (Option.some.inj (Except.ok.inj ha)) (by decide)

/-- For every text that can be written at a path, the trimmed text is read back there and nothing
apart from the path changes, exactly where the path is readable on the device as it was. -/
theorem set_resolve_iff (hplain : '{' ∉ path.toList)
    (hip : pyStrip path.toList ≠ "device.primary_ip4".toList)
    (huntested : LastUntested (pathParts (pyStrip path.toList)))
    (hset : setDeviceAttribute device path start = .ok first) :
    (∀ text : String, ∀ written, pyStrip text.toList ≠ [] →
      setDeviceAttribute device path text = .ok written →
      revealDeviceAttribute unwrapSecret written none path =
          .ok (some (String.ofList (pyStrip text.toList))) ∧
        ∀ other : String, '{' ∉ other.toList →
          Apart (pyStrip path.toList) (pyStrip other.toList) →
          resolvedText (revealDeviceAttribute unwrapSecret written none other) =
            resolvedText (revealDeviceAttribute unwrapSecret device none other)) ↔
      ReadableAt device (pyStrip path.toList) := by
  constructor
  · intro h
    exact readable_of_reads_back hplain huntested hset fun text written htext hwritten =>
      (h text written htext hwritten).1
  · intro hreadable text written htext hwritten
    exact reads_back hplain hip hreadable htext hwritten

def accessSwitch : DeviceContext where
  id := "d1"
  name := "access-1"
  hostname := "access-1"
  attributeBags := Dict.ofPairs
    [("nautobot", Dict.ofPairs [("interfaces", .arr
      [.obj [("mtu", .int 1500)], .obj [("name", .str "Gi0/1"), ("mtu", .int 1500)]])])]

theorem set_resolve_iff_accessSwitch :
    ∃ written, setDeviceAttribute accessSwitch "nautobot.interfaces[name=Gi0/1].mtu" " 9000 " =
        .ok written ∧
      revealDeviceAttribute (fun _ => .ok none) written none
        "nautobot.interfaces[name=Gi0/1].mtu" = .ok (some "9000") := by
  cases hwritten : setDeviceAttribute accessSwitch "nautobot.interfaces[name=Gi0/1].mtu" " 9000 "
    with
  | error e =>
    have hok : (setDeviceAttribute accessSwitch "nautobot.interfaces[name=Gi0/1].mtu"
        " 9000 ").isOk = true := by decide +kernel
    rw [hwritten] at hok
    cases hok
  | ok written =>
    have huntested :
        LastUntested (pathParts (pyStrip "nautobot.interfaces[name=Gi0/1].mtu".toList)) := by
      intro last hlast part hpart key field wanted hsegment
      obtain rfl : "mtu".toList = last := Option.some.inj hlast
      have hparts : part = "interfaces[name=Gi0/1]".toList ∨ part = "mtu".toList := by
        have hmem : part ∈ ["interfaces[name=Gi0/1]".toList, "mtu".toList] := hpart
        simpa using hmem
      rcases hparts with rfl | rfl
      · obtain ⟨-, rfl, -⟩ := PathSegment.filter.inj hsegment
        decide
      · cases hsegment
    have hreadable : ReadableAt accessSwitch
        (pyStrip "nautobot.interfaces[name=Gi0/1].mtu".toList) := by
      intro _
      refine ⟨by decide, ?_⟩
      apply @Readable.picked "interfaces[name=Gi0/1]".toList ["mtu".toList] _ "interfaces" "name"
        "Gi0/1" [.obj [("mtu", .int 1500)], .obj [("name", .str "Gi0/1"), ("mtu", .int 1500)]]
        ⟨[.obj [("mtu", .int 1500)]], [("name", .str "Gi0/1"), ("mtu", .int 1500)], []⟩ rfl rfl
      · rfl
      · exact ⟨rfl, rfl⟩
      · decide
      · exact .last rfl
    exact ⟨written, rfl, ((set_resolve_iff (by decide) (by decide) huntested hwritten).mpr
      hreadable " 9000 " written (by decide) hwritten).1⟩

/-- What is written, and cannot be read: at the item without a name, through a field with a blank,
and in the bag that reads as the error of the caller. -/
theorem written_not_read :
    (setDeviceAttribute accessSwitch "nautobot.interfaces[name=None].mtu" "9000").toOption.map
        (fun written => (revealDeviceAttribute (fun _ => .ok none) written none
          "nautobot.interfaces[name=None].mtu").toOption) = some (some none) ∧
      (setDeviceAttribute accessSwitch "nautobot.interfaces[ name=Gi0/1].mtu"
        "9000").toOption.map (fun written => (revealDeviceAttribute (fun _ => .ok none) written none
          "nautobot.interfaces[ name=Gi0/1].mtu").toOption) = some (some none) ∧
      (setDeviceAttribute accessSwitch "error.ticket" "CHG-1").toOption.map
        (fun written => (revealDeviceAttribute (fun _ => .ok none) written none
          "error.ticket").toOption) = some (some none) := by
  refine ⟨?_, ?_, ?_⟩ <;> decide +kernel

end ReadBack

end Manus.Expression
