import Manus.Expression.Lookup

/-! # Three resolvers of a path

The text of a path, its state and its raw value are resolved by separate functions.
The first two read the same namespaces and agree on every text. The third reads a
tree of namespaces of its own, in which some names are taken.
-/

namespace Manus.Expression

section Values

variable (device : DeviceContext) (env : LookupEnv)

def resolveExpandedValue (path : List Char) : Except PyException Json :=
  let context : Json := .obj (buildDeviceValueContext device env).entries
  match cutAtDot path with
  | none =>
    if String.ofList path ∈ deviceReadableScalarFields then
      .ok (deviceScalar device (String.ofList path))
    else .ok (context.getD (String.ofList path))
  | some (bagName, rest) =>
    if bagName = "device" ∧ '.' ∉ rest ∧ String.ofList rest ∈ deviceReadableScalarFields then
      .ok (deviceScalar device (String.ofList rest))
    else traversePath context (pathSegments path)

/-- `resolve_device_value`. -/
def resolveDeviceValue (path : String) : Except PyException Json := do
  match ← expandPathPlaceholders (resolveDeviceAttribute device none) (pyStrip path.toList) with
  | none | some [] => return .null
  | some path => resolveExpandedValue device env path

end Values

section Leaves

variable {value : Json} {text : String}

theorem stringify_eq_iff :
    stringify value = .ok (some text) ↔ classifyValue value = .ok (.present, some text) := by
  unfold stringify classifyValue
  dsimp only
  cases unwrapSingletonList value with
  | null => simp
  | arr items => simp [isContainer]
  | obj fields => simp [isContainer]
  | _ =>
    simp only [isContainer, reduceCtorEq, or_self, if_false, map_eq_ok, Bool.false_eq_true]
    apply exists_congr
    intro shown
    cases pyStrip shown.toList <;> simp

theorem classifyValue_sealed (h : isSealedSecret value = true) :
    classifyValue value = .ok (.present, none) := by
  cases value with
  | obj fields =>
    cases fields with
    | nil => cases h
    | cons field fields => rfl
  | _ => cases h

theorem resolveLeaf_eq_iff (hplain : isSealedSecret value = false) :
    resolveLeaf value = .ok (some text) ↔ classifyValue value = .ok (.present, some text) := by
  simp only [resolveLeaf, hplain, Bool.false_eq_true, if_false, stringify_eq_iff]

theorem resolveLeaf_eq_iff_of_ne (hne : text ≠ redactedPlaceholder) :
    resolveLeaf value = .ok (some text) ↔ classifyValue value = .ok (.present, some text) := by
  cases hsealed : isSealedSecret value with
  | false => exact resolveLeaf_eq_iff hsealed
  | true =>
    rw [classifyValue_sealed hsealed]
    simp [resolveLeaf, hsealed, Ne.symm hne]

theorem resolveLeaf_null : resolveLeaf .null = .ok none := rfl

end Leaves

section Traversals

theorem stepInto_null (segment : PathSegment) : stepInto .null segment = .ok .null := by
  cases segment <;> rfl

theorem traversePath_null (path : List PathSegment) : traversePath .null path = .ok .null := by
  induction path with
  | nil => rfl
  | cons segment path ih =>
    rw [traversePath, List.foldlM_cons, stepInto_null]
    exact ih

/-- What one traversal finds, the other finds as well. -/
theorem stepInto_of_raw {value found : Json} {segment : PathSegment}
    (h : stepIntoRaw value segment = .ok (some found)) : stepInto value segment = .ok found := by
  cases segment with
  | key key =>
    have hget : value.get? key = some found := Except.ok.inj h
    simp [stepInto, Json.getD, hget]
  | filter key field wanted =>
    simp only [stepIntoRaw] at h
    cases hget : value.get? key with
    | none => simp [hget] at h
    | some items =>
      rw [hget] at h
      have hfound : findFilteredItem field wanted items = .ok (some found) := h
      simp [stepInto, Json.getD, hget, hfound, Except.map]
  | index key digits =>
    simp only [stepIntoRaw] at h
    cases hget : value.get? key with
    | none => simp [hget] at h
    | some items =>
      rw [hget] at h
      obtain ⟨index, hindex, hitem⟩ := map_eq_ok.mp h
      cases value with
      | obj fields => simp [stepInto, Json.getD, hget, hindex, hitem, Except.map]
      | _ => cases hget

/-- What is not null was not missing. -/
theorem stepIntoRaw_of_ne_null {value found : Json} {segment : PathSegment}
    (h : stepInto value segment = .ok found) (hne : found ≠ .null) :
    stepIntoRaw value segment = .ok (some found) := by
  cases segment with
  | key key =>
    have hget : value.getD key = found := Except.ok.inj h
    cases hvalue : value.get? key with
    | none => exact absurd (by simpa [Json.getD, hvalue] using hget.symm) hne
    | some inner => simpa [stepIntoRaw, Json.getD, hvalue] using hget
  | filter key field wanted =>
    obtain ⟨item, hitem, hfound⟩ := map_eq_ok.mp h
    cases hvalue : value.get? key with
    | none =>
      simp only [Json.getD, hvalue, Option.getD_none, findFilteredItem, Except.ok.injEq] at hitem
      exact absurd (by simpa [← hitem] using hfound.symm) hne
    | some items =>
      simp only [Json.getD, hvalue, Option.getD_some] at hitem
      cases item with
      | none => exact absurd hfound.symm hne
      | some item =>
        obtain rfl : item = found := hfound
        simp [stepIntoRaw, hvalue, hitem]
  | index key digits =>
    cases value with
    | obj fields =>
      obtain ⟨index, hindex, hfound⟩ := map_eq_ok.mp h
      cases hvalue : Json.get? key (.obj fields) with
      | none =>
        simp only [Json.getD, hvalue, Option.getD_none, indexIntoList] at hfound
        exact absurd hfound.symm hne
      | some items =>
        simp only [Json.getD, hvalue, Option.getD_some] at hfound
        cases hitem : indexIntoList index items with
        | none => exact absurd (by simpa [hitem] using hfound.symm) hne
        | some item =>
          obtain rfl : item = found := by simpa [hitem] using hfound
          simp [stepIntoRaw, hvalue, hindex, hitem, Except.map]
    | _ => exact absurd (Except.ok.inj h).symm hne

theorem traversePath_of_raw {path : List PathSegment} {value found : Json}
    (h : traversePathRaw path value = .ok (some found)) : traversePath value path = .ok found := by
  induction path generalizing value with
  | nil =>
    obtain rfl : value = found := by simpa [traversePathRaw] using h
    rfl
  | cons segment path ih =>
    obtain ⟨next, hnext, h⟩ := bind_eq_ok.mp h
    cases next with
    | none => cases h
    | some next =>
      rw [traversePath, List.foldlM_cons, stepInto_of_raw hnext]
      exact ih h

theorem traversePathRaw_of_ne_null {path : List PathSegment} {value found : Json}
    (h : traversePath value path = .ok found) (hne : found ≠ .null) :
    traversePathRaw path value = .ok (some found) := by
  induction path generalizing value with
  | nil =>
    obtain rfl : value = found := Except.ok.inj h
    rfl
  | cons segment path ih =>
    rw [traversePath, List.foldlM_cons] at h
    obtain ⟨next, hnext, h⟩ := bind_eq_ok.mp h
    have hnull : next ≠ .null := by
      rintro rfl
      have hstays : traversePath .null path = .ok found := h
      rw [traversePath_null] at hstays
      exact hne (Except.ok.inj hstays).symm
    rw [traversePathRaw, stepIntoRaw_of_ne_null hnext hnull]
    exact ih h

theorem traversed_leaf_iff {path : List PathSegment} {bag : Json} {text : String}
    {leaf : Json → Except PyException (Option String)} (hnull : leaf .null = .ok none) :
    (traversePath bag path >>= leaf) = .ok (some text) ↔
      ∃ raw, traversePathRaw path bag = .ok (some raw) ∧ leaf raw = .ok (some text) := by
  rw [bind_eq_ok]
  constructor
  · rintro ⟨found, hfound, hleaf⟩
    have hne : found ≠ .null := by
      rintro rfl
      rw [hnull] at hleaf
      cases hleaf
    exact ⟨found, traversePathRaw_of_ne_null hfound hne, hleaf⟩
  · rintro ⟨raw, hraw, hleaf⟩
    exact ⟨raw, traversePath_of_raw hraw, hleaf⟩

end Traversals

section Namespaces

def takenNames : List String := ["run", "command", "capabilities", "status"]

theorem get?_foldl_bags (bags : List (String × Dict Json)) (context : Dict Json) (name : String) :
    (bags.foldl (fun context bag =>
        if (context.get? bag.1).isSome then context else context.insert bag.1 (.obj bag.2.entries))
      context).get? name =
      (context.get? name).or ((bags.lookup name).map fun bag => .obj bag.entries) := by
  induction bags generalizing context with
  | nil => simp
  | cons bag bags ih =>
    obtain ⟨bagName, bag⟩ := bag
    rw [List.foldl_cons, ih, Dict.lookup_pair_cons]
    by_cases hname : name = bagName
    · subst hname
      cases hcontext : context.get? name <;> simp [hcontext]
    · cases hcontext : context.get? bagName <;> simp [hname]

variable (device : DeviceContext) (env : LookupEnv)

theorem get?_buildTemplateContext {name : String} {bag : Dict Json}
    (hbag : device.attributeBags.get? name = some bag) (htaken : name ∉ takenNames)
    (hdevice : name ≠ "device") (hparsed : name ≠ "parsed") :
    ((buildTemplateContext device env).get? name).or (some (.obj bag.entries)) =
      some (.obj bag.entries) := by
  simp only [takenNames, List.mem_cons, List.not_mem_nil, or_false, not_or] at htaken
  obtain ⟨hrun, hcommand, -, -⟩ := htaken
  rw [buildTemplateContext, Dict.get?_ofPairs]
  simp only [List.reverse_cons, List.reverse_nil, List.nil_append, List.cons_append,
    Dict.lookup_pair_cons, List.lookup_nil, hparsed, hcommand, hrun, hdevice, if_false, bagOrEmpty]
  by_cases hcustom : name = "custom"
  · subst hcustom
    simp [hbag]
  by_cases hgit : name = "git"
  · subst hgit
    simp [hbag]
  by_cases hnautobot : name = "nautobot"
  · subst hnautobot
    simp [hbag]
  simp [hcustom, hgit, hnautobot]

/-- The tree has the bag that the other resolvers read, unless its name is taken. -/
theorem get?_buildDeviceValueContext {name : String} {bag : Json}
    (hbag : namespaceBag device none name = some bag) (htaken : name ∉ takenNames)
    (hdevice : name ≠ "device") : (buildDeviceValueContext device env).get? name = some bag := by
  have hlast := htaken
  simp only [takenNames, List.mem_cons, List.not_mem_nil, or_false, not_or] at hlast
  obtain ⟨-, -, hcapabilities, hstatus⟩ := hlast
  simp only [buildDeviceValueContext, Dict.get?_insert, hcapabilities, hstatus, if_false]
  unfold namespaceBag at hbag
  by_cases hparsed : name = "parsed"
  · subst hparsed
    rw [if_pos rfl] at hbag
    split at hbag
    · cases hbag
    · next hsome =>
      rw [if_neg hsome, Dict.get?_insert, if_pos rfl]
      exact hbag
  · rw [if_neg hparsed] at hbag
    split at hbag
    · cases hbag
    · obtain ⟨entries, hentries, rfl⟩ := Option.map_eq_some_iff.mp hbag
      have hfolded := get?_buildTemplateContext device env hentries htaken hdevice hparsed
      have hlookup : device.attributeBags.entries.lookup name = some entries := hentries
      split
      · rw [get?_foldl_bags, hlookup]
        exact hfolded
      · rw [Dict.get?_insert, if_neg hparsed, get?_foldl_bags, hlookup]
        exact hfolded

end Namespaces

section Agreement

variable (device : DeviceContext) (error : Option ReportedError) (env : LookupEnv)

/-- Whether a path without placeholders is read from one bag by all resolvers: they divide it at
the same dot, and the bag has its own name in the tree. -/
def SameBag (path : List Char) : Prop :=
  ∃ bagName rest, cutAtDot path = some (bagName, rest) ∧
    pathSegments path = .key bagName :: pathSegments rest ∧ bagName ∉ takenNames ∧
    (bagName = "error" → error = none)

def NotSecret (path : String) : Prop :=
  ∀ raw, resolveRaw device error path = .ok (some raw) → isSealedSecret raw = false

theorem namespaceBag_obj {bagName : String} {bag : Json}
    (h : namespaceBag device error bagName = some bag) : ∃ fields, bag = .obj fields := by
  unfold namespaceBag at h
  split at h
  · split at h
    · cases h
    · exact ⟨_, (Option.some.inj h).symm⟩
  · split at h
    · obtain ⟨reported, -, rfl⟩ := Option.map_eq_some_iff.mp h
      exact ⟨_, rfl⟩
    · obtain ⟨entries, -, rfl⟩ := Option.map_eq_some_iff.mp h
      exact ⟨_, rfl⟩

theorem classifyValue_obj (fields : List (String × Json)) (text : String) :
    classifyValue (.obj fields) ≠ .ok (.present, some text) := by
  simp [classifyValue, unwrapSingletonList]

/-- The text of a path without placeholders is the text of its raw value. -/
theorem resolveExpanded_iff {path : List Char} {text : String}
    (hleaf : ∀ raw, resolveExpandedRaw device error path = .ok (some raw) →
      (resolveLeaf raw = .ok (some text) ↔ classifyValue raw = .ok (.present, some text))) :
    resolveExpandedAttribute device error path = .ok (some text) ↔
      ∃ raw, resolveExpandedRaw device error path = .ok (some raw) ∧
        classifyValue raw = .ok (.present, some text) := by
  unfold resolveExpandedAttribute resolveExpandedWith
  unfold resolveExpandedRaw at hleaf ⊢
  cases hcut : cutAtDot path with
  | none =>
    simp only [hcut] at hleaf ⊢
    split
    · simp [stringify_eq_iff]
    · next hscalar =>
      rw [if_neg hscalar] at hleaf
      cases hbag : namespaceBag device error (String.ofList path) with
      | none => simp
      | some bag =>
        obtain ⟨fields, rfl⟩ := namespaceBag_obj device error hbag
        rw [hbag] at hleaf
        match fields with
        | [] => simp [classifyValue_obj]
        | [field] => simpa using hleaf field.2 rfl
        | first :: second :: fields => simp [classifyValue_obj]
  | some cut =>
    obtain ⟨bagName, rest⟩ := cut
    simp only [hcut] at hleaf ⊢
    by_cases hdevice : bagName = "device"
    · simp only [hdevice, if_true]
      split
      · simp [stringify_eq_iff]
      · simp
    · simp only [hdevice, if_false] at hleaf ⊢
      cases hbag : namespaceBag device error bagName with
      | none => simp
      | some bag =>
        simp only [hbag] at hleaf ⊢
        rw [traversed_leaf_iff resolveLeaf_null]
        apply exists_congr
        intro raw
        apply and_congr_right
        exact hleaf raw

theorem resolveRaw_of_expanded {path : String} {expanded : List Char}
    (h : expandPathPlaceholders (resolveDeviceAttribute device error) (pyStrip path.toList) =
      .ok (some expanded)) (hne : expanded ≠ []) :
    resolveRaw device error path = resolveExpandedRaw device error expanded := by
  rw [resolveRaw, h]
  cases expanded with
  | nil => exact absurd rfl hne
  | cons c expanded => rfl

theorem resolveDeviceAttribute_of_expanded {path : String} {expanded : List Char}
    (h : expandPathPlaceholders (resolveDeviceAttribute device error) (pyStrip path.toList) =
      .ok (some expanded)) (hne : expanded ≠ []) :
    resolveDeviceAttribute device error path.toList =
      resolveExpandedAttribute device error expanded := by
  rw [resolveDeviceAttribute_eq, h]
  cases expanded with
  | nil => exact absurd rfl hne
  | cons c expanded => rfl

/-- The text of a path is the text of its raw value, and its state says the same. -/
theorem resolveDeviceAttribute_iff {path text : String}
    (hleaf : ∀ raw, resolveRaw device error path = .ok (some raw) →
      (resolveLeaf raw = .ok (some text) ↔ classifyValue raw = .ok (.present, some text))) :
    resolveDeviceAttribute device error path.toList = .ok (some text) ↔
      resolveDeviceAttributeState device error path = .ok (.present, some text) := by
  cases hexpand : expandPathPlaceholders (resolveDeviceAttribute device error)
      (pyStrip path.toList) with
  | error e =>
    rw [resolveDeviceAttribute_eq, resolveDeviceAttributeState, resolveRaw, hexpand]
    simp [bind, Except.bind]
  | ok expanded =>
    match expanded with
    | none =>
      rw [resolveDeviceAttribute_eq, resolveDeviceAttributeState, resolveRaw, hexpand]
      simp [bind, Except.bind, pure, Except.pure]
    | some [] =>
      rw [resolveDeviceAttribute_eq, resolveDeviceAttributeState, resolveRaw, hexpand]
      simp [bind, Except.bind, pure, Except.pure]
    | some (c :: expanded) =>
      have hraw := resolveRaw_of_expanded device error hexpand (List.cons_ne_nil _ _)
      rw [hraw] at hleaf
      rw [resolveDeviceAttribute_of_expanded device error hexpand (List.cons_ne_nil _ _),
        resolveDeviceAttributeState, hraw, resolveExpanded_iff device error hleaf]
      generalize resolveExpandedRaw device error (c :: expanded) = found
      cases found with
      | error e => simp [bind, Except.bind]
      | ok found => cases found <;> simp [bind, Except.bind, pure, Except.pure]

/-- A text that is read from a bag is the text of the value in the tree. -/
theorem resolveExpandedValue_of_text {path : List Char} {text : String}
    (hsame : SameBag error path)
    (hplain : ∀ raw, resolveExpandedRaw device error path = .ok (some raw) →
      isSealedSecret raw = false)
    (h : resolveExpandedAttribute device error path = .ok (some text)) :
    ∃ value, resolveExpandedValue device env path = .ok value ∧
      stringify value = .ok (some text) := by
  obtain ⟨bagName, rest, hcut, hsegments, htaken, herror⟩ := hsame
  unfold resolveExpandedAttribute resolveExpandedWith at h
  unfold resolveExpandedRaw at hplain
  simp only [resolveExpandedValue, hcut] at h hplain ⊢
  by_cases hdevice : bagName = "device"
  · simp only [hdevice, if_true, true_and] at h ⊢
    split at h
    · next hfield =>
      rw [if_pos hfield]
      exact ⟨_, rfl, h⟩
    · cases h
  · simp only [hdevice, if_false, false_and] at h hplain ⊢
    cases hbag : namespaceBag device error bagName with
    | none => simp [hbag] at h
    | some bag =>
      simp only [hbag] at h hplain
      have hown : namespaceBag device none bagName = some bag := by
        by_cases hreported : bagName = "error"
        · rw [← herror hreported]
          exact hbag
        · simpa [namespaceBag, hreported] using hbag
      have hcontext := get?_buildDeviceValueContext device env hown htaken hdevice
      obtain ⟨raw, hraw, hleaf⟩ := (traversed_leaf_iff resolveLeaf_null).mp h
      have hvalue : traversePath (.obj (buildDeviceValueContext device env).entries)
          (pathSegments path) = .ok raw := by
        have hget :
            Json.getD bagName (.obj (buildDeviceValueContext device env).entries) = bag := by
          rw [Json.getD, Json.get?]
          exact congrArg (Option.getD · .null) hcontext
        rw [hsegments, traversePath, List.foldlM_cons, stepInto, hget]
        exact traversePath_of_raw hraw
      refine ⟨raw, hvalue, ?_⟩
      rw [stringify_eq_iff, ← resolveLeaf_eq_iff (hplain raw hraw)]
      exact hleaf

/-- The text and the state of a path agree on every text but the placeholder. A text that is no
secret is also the text of the raw value, where the path is read from one bag and its placeholders
do not need the error. -/
theorem resolvers_agree (path text : String) :
    (text ≠ redactedPlaceholder →
      (resolveDeviceAttribute device error path.toList = .ok (some text) ↔
        resolveDeviceAttributeState device error path = .ok (.present, some text))) ∧
    ∀ expanded,
      expandPathPlaceholders (resolveDeviceAttribute device error) (pyStrip path.toList) =
        .ok (some expanded) →
      expandPathPlaceholders (resolveDeviceAttribute device none) (pyStrip path.toList) =
        .ok (some expanded) →
      SameBag error expanded → NotSecret device error path →
      resolveDeviceAttribute device error path.toList = .ok (some text) →
      ∃ value, resolveDeviceValue device env path = .ok value ∧
        stringify value = .ok (some text) := by
  constructor
  · intro hne
    apply resolveDeviceAttribute_iff
    intro raw _
    exact resolveLeaf_eq_iff_of_ne hne
  · intro expanded hexpand hexpandNone hsame hplain h
    have hne : expanded ≠ [] := by
      rintro rfl
      obtain ⟨_, _, hcut, -⟩ := hsame
      cases hcut
    rw [resolveDeviceAttribute_of_expanded device error hexpand hne] at h
    rw [NotSecret, resolveRaw_of_expanded device error hexpand hne] at hplain
    have hvalue : resolveDeviceValue device env path =
        resolveExpandedValue device env expanded := by
      rw [resolveDeviceValue, hexpandNone]
      cases expanded with
      | nil => exact absurd rfl hne
      | cons c expanded => rfl
    rw [hvalue]
    exact resolveExpandedValue_of_text device error env hsame hplain h

def uplinkDevice : DeviceContext where
  id := "d1"
  name := "core-1"
  hostname := "core-1"
  attributeBags := Dict.ofPairs
    [("nautobot", Dict.ofPairs [("interfaces", .arr
      [.obj [("name", .str "Gi0/0"), ("mtu", .int 1500)],
        .obj [("name", .str "Gi0/1"), ("mtu", .int 9000)]])]),
      ("custom", Dict.ofPairs [("uplink", .str "Gi0/1")])]

theorem resolvers_agree_uplink :
    (resolveDeviceAttribute uplinkDevice none
        "nautobot.interfaces[name=\x7bcustom.uplink\x7d].mtu".toList = .ok (some "9000") ↔
      resolveDeviceAttributeState uplinkDevice none
        "nautobot.interfaces[name=\x7bcustom.uplink\x7d].mtu" = .ok (.present, some "9000")) ∧
    ∃ value, resolveDeviceValue uplinkDevice ⟨"20260101-000000", "20260101", none⟩
        "nautobot.interfaces[name=\x7bcustom.uplink\x7d].mtu" = .ok value ∧
      stringify value = .ok (some "9000") := by
  have hagree := resolvers_agree uplinkDevice none ⟨"20260101-000000", "20260101", none⟩
    "nautobot.interfaces[name=\x7bcustom.uplink\x7d].mtu" "9000"
  have hexpand : expandPathPlaceholders (resolveDeviceAttribute uplinkDevice none)
      (pyStrip "nautobot.interfaces[name=\x7bcustom.uplink\x7d].mtu".toList) =
      .ok (some "nautobot.interfaces[name=Gi0/1].mtu".toList) :=
    toOption_eq_some.mp (by decide +kernel)
  refine ⟨hagree.1 (by decide), hagree.2 _ hexpand hexpand ?_ ?_ ?_⟩
  · exact ⟨"nautobot", "interfaces[name=Gi0/1].mtu".toList, rfl, rfl, by decide, by decide⟩
  · intro raw hraw
    have hvalue : resolveRaw uplinkDevice none
        "nautobot.interfaces[name=\x7bcustom.uplink\x7d].mtu" = .ok (some (.int 9000)) :=
      toOption_eq_some.mp (by decide +kernel)
    obtain rfl := Option.some.inj (Except.ok.inj (hvalue.symm.trans hraw))
    rfl
  · exact toOption_eq_some.mp (by decide +kernel)

def runBagDevice : DeviceContext where
  id := "d1"
  name := "core-1"
  hostname := "core-1"
  attributeBags := Dict.ofPairs [("run", Dict.ofPairs [("ticket", .str "CHG-1")])]

/-- The text of such a bag is read, and is present, but the tree has the namespace in its place. It
has no place for the error that is reported on. -/
theorem run_bag_shadowed :
    resolveDeviceAttribute runBagDevice none "run.ticket".toList = .ok (some "CHG-1") ∧
      resolveDeviceAttributeState runBagDevice none "run.ticket" = .ok (.present, some "CHG-1") ∧
      resolveDeviceValue runBagDevice ⟨"20260101-000000", "20260101", some "r1"⟩ "run.ticket" =
        .ok .null ∧
      resolveDeviceAttribute runBagDevice
        (some ⟨⟨"n1", "run-command", "timeout", "No answer"⟩, "2026-01-01T00:00:00Z"⟩)
        "error.code".toList = .ok (some "timeout") ∧
      resolveDeviceValue runBagDevice ⟨"20260101-000000", "20260101", some "r1"⟩ "error.code" =
        .ok .null ∧
      stringify .null = .ok none :=
  ⟨toOption_eq_some.mp (by decide +kernel), toOption_eq_some.mp (by decide +kernel),
    toOption_eq_some.mp (by decide +kernel), toOption_eq_some.mp (by decide +kernel),
    toOption_eq_some.mp (by decide +kernel), rfl⟩

end Agreement

end Manus.Expression
