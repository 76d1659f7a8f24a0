import Manus.Workflows.RunInputs

/-! # Inputs that are replayed

What a run was stored with is resolved to itself, and a default does what the same value
would do if it were supplied, unless a reference has a default that would be refused or
changed.
-/

namespace Manus.RunInputs

open Defaults (stripText)

section Coercion

variable {encrypt : String → String} {attr : StaticAttributeDef} {value kept : Value}

theorem isSealedSecret_sealSecret (plaintext : String) :
    isSealedSecret (sealSecret encrypt plaintext) = true := rfl

theorem stripText_stripText (text : String) : stripText (stripText text) = stripText text := by
  simp only [stripText, String.toList_ofList, pyStrip_pyStrip]

theorem positiveId_eq_ok {n : ℤ} :
    positiveId attr n = .ok kept ↔ 0 < n ∧ kept = .num (.int n) := by
  unfold positiveId
  rw [ite_error_eq_ok, Int.not_le]
  constructor
  · rintro ⟨hpos, h⟩
    exact ⟨hpos, (Except.ok.inj h).symm⟩
  · rintro ⟨hpos, rfl⟩
    exact ⟨hpos, rfl⟩

theorem coerceReference_cases (h : coerceReference attr value = .ok kept) :
    (attr.refKind = some .inventory ∧ ∃ n : ℤ, 0 < n ∧ kept = .num (.int n)) ∨
      (attr.refKind = some .credential ∧
        ∃ text, stripText text ≠ "" ∧ kept = .str (stripText text)) := by
  unfold coerceReference at h
  split at h
  · rename_i hkind
    left
    refine ⟨hkind, ?_⟩
    split at h
    · exact ⟨_, positiveId_eq_ok.mp h⟩
    · split at h
      · exact ⟨_, positiveId_eq_ok.mp h⟩
      · cases h
    · cases h
  · rename_i hkind
    right
    refine ⟨hkind, ?_⟩
    split at h
    · rw [ite_error_eq_ok] at h
      exact ⟨_, h.1, (Except.ok.inj h.2).symm⟩
    · cases h
  · cases h

theorem coerceReference_kept (h : coerceReference attr value = .ok kept) :
    coerceReference attr kept = .ok kept := by
  rcases coerceReference_cases h with ⟨hkind, n, hpos, rfl⟩ | ⟨hkind, text, hne, rfl⟩
  · rw [coerceReference, hkind]
    exact positiveId_eq_ok.mpr ⟨hpos, rfl⟩
  · rw [coerceReference, hkind]
    dsimp only
    rw [stripText_stripText, if_neg hne]

/-- A value that was kept is kept again. -/
theorem coerce_kept (h : coerce (sealSecret encrypt) attr value = .ok kept) :
    coerce (sealSecret encrypt) attr kept = .ok kept := by
  unfold coerce at h ⊢
  cases htype : attr.type with
  | string =>
    simp only [htype] at h ⊢
    split at h
    · obtain rfl := Except.ok.inj h
      rfl
    · cases h
  | number =>
    simp only [htype] at h ⊢
    split at h
    · obtain rfl := Except.ok.inj h
      rfl
    · split at h
      · obtain rfl := Except.ok.inj h
        rfl
      · cases h
    · cases h
  | boolean =>
    simp only [htype] at h ⊢
    split at h
    · obtain rfl := Except.ok.inj h
      rfl
    · cases h
  | reference =>
    simp only [htype] at h ⊢
    exact coerceReference_kept h
  | secret =>
    simp only [htype] at h ⊢
    split at h
    · rename_i hsealed
      obtain rfl := Except.ok.inj h
      rw [if_pos hsealed]
    · split at h
      · rw [ite_error_eq_ok] at h
        obtain rfl := Except.ok.inj h.2
        rw [if_pos (isSealedSecret_sealSecret _)]
      · cases h

/-- A default of a reference that would be kept as it is: a positive id, or a name without white
space at its ends. -/
def DefaultSettled (attr : StaticAttributeDef) : Prop :=
  (∀ n : ℤ, attr.refKind = some .inventory → attr.default = .num (.int n) → 0 < n) ∧
    ∀ text, attr.refKind = some .credential → attr.default = .str text →
      text ≠ "" ∧ stripText text = text

theorem typeOk_reference (htype : attr.type = .reference) (h : typeOk attr = true) :
    (attr.refKind = some .inventory ∧ ∃ n : ℤ, attr.default = .num (.int n)) ∨
      (attr.refKind = some .credential ∧ ∃ text, attr.default = .str text) := by
  unfold typeOk at h
  rw [htype] at h
  cases hdefault : attr.default with
  | num n =>
    rw [hdefault] at h
    cases n with
    | int n => exact Or.inl ⟨of_decide_eq_true h, n, rfl⟩
    | float x => cases h
  | str text =>
    rw [hdefault] at h
    exact Or.inr ⟨of_decide_eq_true h, text, rfl⟩
  | _ =>
    rw [hdefault] at h
    cases h

theorem settled_of_not_reference (h : attr.type ≠ .reference) : DefaultSettled attr := by
  have hkind : attr.refKind = none := by
    rw [← Option.not_isSome_iff_eq_none, attr.ref_kind]
    exact h
  constructor
  · intro n hinventory
    rw [hkind] at hinventory
    cases hinventory
  · intro text hcredential
    rw [hkind] at hcredential
    cases hcredential

/-- A default is kept like a supplied value if it is settled. -/
theorem coerce_default (h : typeOk attr = true) :
    coerce (sealSecret encrypt) attr attr.default = .ok attr.default ↔ DefaultSettled attr := by
  cases htype : attr.type with
  | reference =>
    have hcoerce : coerce (sealSecret encrypt) attr attr.default =
        coerceReference attr attr.default := by
      unfold coerce
      simp only [htype]
    rw [hcoerce]
    rcases typeOk_reference htype h with ⟨hkind, n, hdefault⟩ | ⟨hkind, text, hdefault⟩
    · have hread : coerceReference attr (.num (.int n)) = positiveId attr n := by
        rw [coerceReference, hkind]
      rw [hdefault, hread, positiveId_eq_ok]
      constructor
      · rintro ⟨hpos, -⟩
        constructor
        · intro m _ hm
          rw [hdefault] at hm
          cases hm
          exact hpos
        · intro text hcredential
          rw [hkind] at hcredential
          cases hcredential
      · exact fun hsettled => ⟨hsettled.1 n hkind hdefault, rfl⟩
    · have hread : coerceReference attr (.str text) =
          if stripText text = "" then .error (attr.name ++ ": expected a credential name")
          else .ok (.str (stripText text)) := by
        rw [coerceReference, hkind]
      rw [hdefault, hread, ite_error_eq_ok]
      constructor
      · rintro ⟨hne, hsame⟩
        have htext : stripText text = text := JsonValue.str.inj (Except.ok.inj hsame)
        constructor
        · intro n hinventory
          rw [hkind] at hinventory
          cases hinventory
        · intro other _ hother
          rw [hdefault] at hother
          cases hother
          exact ⟨htext ▸ hne, htext⟩
      · intro hsettled
        obtain ⟨hne, htext⟩ := hsettled.2 text hkind hdefault
        rw [htext]
        exact ⟨hne, rfl⟩
  | secret =>
    simp [typeOk, htype, attr.secret_default htype] at h
  | string =>
    apply iff_of_true _ (settled_of_not_reference (by simp [htype]))
    cases hdefault : attr.default with
    | str text =>
      unfold coerce
      simp only [htype]
    | _ => simp [typeOk, htype, hdefault] at h
  | number =>
    apply iff_of_true _ (settled_of_not_reference (by simp [htype]))
    cases hdefault : attr.default with
    | num n =>
      unfold coerce
      simp only [htype]
    | _ => simp [typeOk, htype, hdefault] at h
  | boolean =>
    apply iff_of_true _ (settled_of_not_reference (by simp [htype]))
    cases hdefault : attr.default with
    | bool b =>
      unfold coerce
      simp only [htype]
    | _ => simp [typeOk, htype, hdefault] at h

end Coercion

section Resolution

variable {sealer : String → Value} {attributes : List StaticAttributeDef}
  {supplied supplied' result : Dict Value}

/-- What is resolved has the value of each attribute, and the errors of the others. -/
theorem foldl_add (hnames : (attributes.map StaticAttributeDef.name).Nodup) (resolved : Resolved) :
    let after := attributes.foldl (Resolved.add sealer supplied) resolved
    (after.errors = [] ↔ resolved.errors = [] ∧
      ∀ attr ∈ attributes, ∃ kept, resolveAttribute sealer attr (supplied.get? attr.name) =
        .ok kept) ∧
    (∀ key, key ∉ attributes.map StaticAttributeDef.name →
      after.values.get? key = resolved.values.get? key) ∧
    ∀ attr ∈ attributes, ∀ kept, resolveAttribute sealer attr (supplied.get? attr.name) = .ok kept →
      after.values.get? attr.name = kept.or (resolved.values.get? attr.name) := by
  induction attributes generalizing resolved with
  | nil => simp
  | cons attr attributes ih =>
    obtain ⟨hattr, hnames⟩ := List.nodup_cons.mp hnames
    obtain ⟨herrors, hother, hvalue⟩ := ih hnames (resolved.add sealer supplied attr)
    have hadd : (resolved.add sealer supplied attr).errors = [] ↔ resolved.errors = [] ∧
        ∃ kept, resolveAttribute sealer attr (supplied.get? attr.name) = .ok kept := by
      unfold Resolved.add
      split <;> simp_all
    have hkept : ∀ kept, resolveAttribute sealer attr (supplied.get? attr.name) = .ok kept →
        (resolved.add sealer supplied attr).values.get? attr.name =
          kept.or (resolved.values.get? attr.name) := by
      intro kept h
      unfold Resolved.add
      rw [h]
      cases kept with
      | none => rfl
      | some value => simp
    have hleft : ∀ key, key ≠ attr.name →
        (resolved.add sealer supplied attr).values.get? key = resolved.values.get? key := by
      intro key hne
      unfold Resolved.add
      split
      · simp [Dict.get?_insert, hne]
      · rfl
      · rfl
    rw [List.foldl_cons]
    refine ⟨?_, ?_, ?_⟩
    · rw [herrors, hadd, List.forall_mem_cons, and_assoc]
    · intro key hkey
      rw [List.map_cons, List.mem_cons, not_or] at hkey
      rw [hother key hkey.2, hleft key hkey.1]
    · intro other hmem kept h
      rcases List.mem_cons.mp hmem with rfl | hmem
      · rw [hother other.name hattr, hkept kept h]
      · have hne : other.name ≠ attr.name := by
          intro heq
          exact hattr (heq ▸ List.mem_map_of_mem hmem)
        rw [hvalue other hmem kept h, hleft other.name hne]

theorem resolveWith_eq_ok (hnames : (attributes.map StaticAttributeDef.name).Nodup) :
    (∃ result, resolveWith sealer attributes supplied = .ok result) ↔
      unknownInputs attributes supplied = [] ∧
        ∀ attr ∈ attributes, ∃ kept,
          resolveAttribute sealer attr (supplied.get? attr.name) = .ok kept := by
  have herrors := (@foldl_add sealer attributes supplied hnames ⟨∅, []⟩).1
  unfold resolveWith
  constructor
  · rintro ⟨result, h⟩
    rw [ite_error_eq_ok, ite_error_eq_ok, not_not, not_not] at h
    exact ⟨h.1, (herrors.mp h.2.1).2⟩
  · rintro ⟨hunknown, hall⟩
    refine ⟨(attributes.foldl (Resolved.add sealer supplied) ⟨∅, []⟩).values, ?_⟩
    rw [ite_error_eq_ok, ite_error_eq_ok, not_not, not_not]
    exact ⟨hunknown, herrors.mpr ⟨rfl, hall⟩, rfl⟩

theorem get?_resolveWith (hnames : (attributes.map StaticAttributeDef.name).Nodup)
    (h : resolveWith sealer attributes supplied = .ok result) :
    (∀ attr ∈ attributes,
      resolveAttribute sealer attr (supplied.get? attr.name) = .ok (result.get? attr.name)) ∧
      ∀ key, key ∉ attributes.map StaticAttributeDef.name → result.get? key = none := by
  obtain ⟨-, hother, hvalue⟩ := @foldl_add sealer attributes supplied hnames ⟨∅, []⟩
  obtain ⟨-, hall⟩ := (resolveWith_eq_ok hnames).mp ⟨result, h⟩
  unfold resolveWith at h
  rw [ite_error_eq_ok, ite_error_eq_ok] at h
  obtain rfl := Except.ok.inj h.2.2
  constructor
  · intro attr hmem
    obtain ⟨kept, hkept⟩ := hall attr hmem
    rw [hkept, hvalue attr hmem kept hkept, Dict.get?_empty, Option.or_none]
  · intro key hkey
    rw [hother key hkey, Dict.get?_empty]

theorem resolveWith_congr (hunknown : unknownInputs attributes supplied =
      unknownInputs attributes supplied')
    (h : ∀ attr ∈ attributes, resolveAttribute sealer attr (supplied.get? attr.name) =
      resolveAttribute sealer attr (supplied'.get? attr.name)) :
    resolveWith sealer attributes supplied = resolveWith sealer attributes supplied' := by
  have hfold : ∀ resolved : Resolved, attributes.foldl (Resolved.add sealer supplied) resolved =
      attributes.foldl (Resolved.add sealer supplied') resolved := by
    clear hunknown
    induction attributes with
    | nil => exact fun _ => rfl
    | cons attr attributes ih =>
      intro resolved
      have hadd : resolved.add sealer supplied attr = resolved.add sealer supplied' attr := by
        unfold Resolved.add
        rw [h attr List.mem_cons_self]
      rw [List.foldl_cons, List.foldl_cons, hadd]
      exact ih (fun other hmem => h other (List.mem_cons_of_mem _ hmem)) _
  simp only [resolveWith, hunknown, hfold]

theorem unknownInputs_eq_nil :
    unknownInputs attributes supplied = [] ↔
      ∀ key ∈ supplied.keys, key ∈ attributes.map StaticAttributeDef.name := by
  have hlength : unknownInputs attributes supplied = [] ↔
      supplied.keys.filter (fun key => key ∉ attributes.map StaticAttributeDef.name) = [] := by
    rw [← List.length_eq_zero_iff, ← List.length_eq_zero_iff, unknownInputs,
      List.length_mergeSort]
  rw [hlength, List.filter_eq_nil_iff]
  simp

theorem unknownInputs_empty : unknownInputs attributes ∅ = [] := by
  apply unknownInputs_eq_nil.mpr
  rintro key ⟨⟩

end Resolution

section Saved

variable {attributes : List StaticAttributeDef}

theorem validateStaticAttribute_eq_ok {attr : StaticAttributeDef} {before after : List String}
    (h : validateStaticAttribute before attr = .ok after) :
    attr.name ∉ before ∧ after = attr.name :: before ∧
      (attr.default ≠ .null → typeOk attr = true) := by
  unfold validateStaticAttribute at h
  rw [ite_error_eq_ok] at h
  obtain ⟨hseen, h⟩ := h
  refine ⟨hseen, ?_⟩
  split at h
  · rename_i hnull
    exact ⟨(Except.ok.inj h).symm, fun hne => absurd hnull hne⟩
  · split at h
    · rename_i hok
      exact ⟨(Except.ok.inj h).symm, fun _ => hok⟩
    · cases h

theorem validated_from {before seen : List String}
    (h : attributes.foldlM validateStaticAttribute before = .ok seen) :
    (attributes.map StaticAttributeDef.name).Nodup ∧
      (∀ attr ∈ attributes, attr.name ∉ before) ∧
      ∀ attr ∈ attributes, attr.default ≠ .null → typeOk attr = true := by
  induction attributes generalizing before with
  | nil => simp
  | cons attr attributes ih =>
    obtain ⟨after, hattr, h⟩ := bind_eq_ok.mp h
    obtain ⟨hseen, rfl, hok⟩ := validateStaticAttribute_eq_ok hattr
    obtain ⟨hnodup, hnew, htype⟩ := ih h
    refine ⟨?_, ?_, ?_⟩
    · rw [List.map_cons, List.nodup_cons]
      refine ⟨?_, hnodup⟩
      intro hmem
      obtain ⟨other, hother, hname⟩ := List.mem_map.mp hmem
      exact hnew other hother (by simp [hname])
    · intro other hmem
      rcases List.mem_cons.mp hmem with rfl | hmem
      · exact hseen
      · exact fun hbefore => hnew other hmem (List.mem_cons_of_mem _ hbefore)
    · intro other hmem
      rcases List.mem_cons.mp hmem with rfl | hmem
      · exact hok
      · exact htype other hmem

theorem validated (h : validateStaticAttributes attributes = .ok ()) :
    (attributes.map StaticAttributeDef.name).Nodup ∧
      ∀ attr ∈ attributes, attr.default ≠ .null → typeOk attr = true := by
  obtain ⟨seen, h, -⟩ := map_eq_ok.mp h
  obtain ⟨hnodup, -, htype⟩ := validated_from h
  exact ⟨hnodup, htype⟩

def sampleValue (attr : StaticAttributeDef) : Value :=
  match attr.type, attr.refKind with
  | .string, _ => .str ""
  | .number, _ => .num (.int 0)
  | .boolean, _ => .bool true
  | .reference, some .inventory => .num (.int 1)
  | .reference, _ => .str "x"
  | .secret, _ => .str "x"

theorem coerce_sampleValue (encrypt : String → String) (attr : StaticAttributeDef) :
    ∃ kept, coerce (sealSecret encrypt) attr (sampleValue attr) = .ok kept := by
  have hkind := attr.ref_kind
  unfold coerce sampleValue
  cases htype : attr.type with
  | reference =>
    cases href : attr.refKind with
    | none => simp [htype, href] at hkind
    | some kind =>
      cases kind with
      | inventory => exact ⟨_, by simp only [coerceReference, href]; rfl⟩
      | credential => exact ⟨.str "x", by simp only [coerceReference, href]; rfl⟩
  | secret => exact ⟨_, rfl⟩
  | _ => exact ⟨_, rfl⟩

theorem resolveAttribute_default {sealer : String → Value} {attr : StaticAttributeDef}
    (h : attr.default ≠ .null) :
    resolveAttribute sealer attr none = .ok (some attr.default) := by
  cases hdefault : attr.default with
  | null => exact absurd hdefault h
  | _ => simp only [resolveAttribute, hdefault]

theorem resolveAttribute_kept {encrypt : String → String} {attr : StaticAttributeDef}
    {value kept : Option Value} (hok : attr.default ≠ .null → typeOk attr = true)
    (hsettled : DefaultSettled attr)
    (h : resolveAttribute (sealSecret encrypt) attr value = .ok kept) :
    resolveAttribute (sealSecret encrypt) attr kept = .ok kept := by
  cases value with
  | some value =>
    obtain ⟨kept', hkept, rfl⟩ := map_eq_ok.mp h
    rw [resolveAttribute, coerce_kept hkept]
    rfl
  | none =>
    by_cases hnull : attr.default = .null
    · have hnone : kept = none := by
        simp only [resolveAttribute, hnull] at h
        rw [ite_error_eq_ok] at h
        exact (Except.ok.inj h.2).symm
      rw [hnone] at h ⊢
      exact h
    · rw [resolveAttribute_default hnull] at h
      obtain rfl := Except.ok.inj h
      rw [resolveAttribute, (coerce_default (hok hnull)).mpr hsettled]
      rfl

theorem resolveRunInputs_again {encrypt : String → String} {supplied result : Dict Value}
    (hnames : (attributes.map StaticAttributeDef.name).Nodup)
    (hok : ∀ attr ∈ attributes, attr.default ≠ .null → typeOk attr = true)
    (hsettled : ∀ attr ∈ attributes, DefaultSettled attr)
    (h : resolveRunInputs encrypt attributes supplied = .ok result) :
    resolveRunInputs encrypt attributes result = .ok result := by
  obtain ⟨hvalue, hother⟩ := get?_resolveWith hnames h
  have hunknown := ((resolveWith_eq_ok hnames).mp ⟨result, h⟩).1
  have hunknown' : unknownInputs attributes result = [] := by
    apply unknownInputs_eq_nil.mpr
    intro key hkey
    by_contra hnone
    rw [Dict.mem_keys_iff, hother key hnone] at hkey
    cases hkey
  rw [← h]
  apply resolveWith_congr (hunknown'.trans hunknown.symm)
  intro attr hmem
  have hkept := resolveAttribute_kept (hok attr hmem) (hsettled attr hmem) (hvalue attr hmem)
  rw [hvalue attr hmem, hkept]

theorem unknownInputs_insert {attr : StaticAttributeDef} (hmem : attr ∈ attributes)
    (supplied : Dict Value) (value : Value) :
    unknownInputs attributes (supplied.insert attr.name value) =
      unknownInputs attributes supplied := by
  have hdeclared : attr.name ∈ attributes.map StaticAttributeDef.name := List.mem_map_of_mem hmem
  have hkeys : ∀ entries : List (String × Value),
      ((Dict.insertEntry attr.name value entries).map Prod.fst).filter
        (fun key => key ∉ attributes.map StaticAttributeDef.name) =
      (entries.map Prod.fst).filter (fun key => key ∉ attributes.map StaticAttributeDef.name) := by
    intro entries
    induction entries with
    | nil => simp only [Dict.insertEntry, List.map_cons, List.map_nil, List.filter_cons, hdeclared,
        not_true_eq_false, decide_false, Bool.false_eq_true, if_false]
    | cons entry entries ih =>
      rw [Dict.insertEntry]
      split
      · rename_i hkey
        simp only [List.map_cons, hkey]
      · simp only [List.map_cons, List.filter_cons, ih]
  exact congrArg (List.mergeSort · _) (hkeys supplied.entries)

theorem resolveRunInputs_default {encrypt : String → String} {supplied : Dict Value}
    {attr : StaticAttributeDef} (hnames : (attributes.map StaticAttributeDef.name).Nodup)
    (hok : typeOk attr = true) (hmem : attr ∈ attributes) (hdefault : attr.default ≠ .null)
    (hsettled : DefaultSettled attr) (hnone : supplied.get? attr.name = none) :
    resolveRunInputs encrypt attributes (supplied.insert attr.name attr.default) =
      resolveRunInputs encrypt attributes supplied := by
  apply resolveWith_congr (unknownInputs_insert hmem supplied _)
  intro other hother
  rw [Dict.get?_insert]
  split
  · rename_i hname
    obtain rfl : other = attr := List.inj_on_of_nodup_map hnames hother hmem hname
    rw [hnone, resolveAttribute_default hdefault, resolveAttribute,
      (coerce_default hok).mpr hsettled]
    rfl
  · rfl

theorem exists_samples (hnames : (attributes.map StaticAttributeDef.name).Nodup) (name : String) :
    ∃ samples : Dict Value,
      (∀ key ∈ samples.keys, key ∈ attributes.map StaticAttributeDef.name ∧ key ≠ name) ∧
      ∀ attr ∈ attributes, attr.name ≠ name →
        samples.get? attr.name = some (sampleValue attr) := by
  let others := attributes.filter fun attr => attr.name ≠ name
  have hkeys : (others.map fun attr => (attr.name, sampleValue attr)).map Prod.fst =
      others.map StaticAttributeDef.name := by
    rw [List.map_map]
    rfl
  have hnodup : (others.map StaticAttributeDef.name).Nodup :=
    hnames.sublist (List.filter_sublist.map StaticAttributeDef.name)
  refine ⟨⟨others.map fun attr => (attr.name, sampleValue attr), hkeys ▸ hnodup⟩, ?_, ?_⟩
  · intro key hkey
    rw [Dict.keys, hkeys] at hkey
    obtain ⟨attr, hattr, rfl⟩ := List.mem_map.mp hkey
    obtain ⟨hmem, hne⟩ := List.mem_filter.mp hattr
    exact ⟨List.mem_map_of_mem hmem, by simpa using hne⟩
  · intro attr hmem hne
    apply Dict.get?_eq_some_iff.mpr
    have hother : attr ∈ others := List.mem_filter.mpr ⟨hmem, by simpa using hne⟩
    exact List.mem_map.mpr ⟨attr, hother, rfl⟩

/-- An attribute whose default does what the same supplied value does has a settled default. -/
theorem settled_of_default {encrypt : String → String} {attr : StaticAttributeDef}
    (hnames : (attributes.map StaticAttributeDef.name).Nodup) (hok : typeOk attr = true)
    (hmem : attr ∈ attributes) (hdefault : attr.default ≠ .null)
    (h : ∀ supplied, supplied.get? attr.name = none →
      resolveRunInputs encrypt attributes (supplied.insert attr.name attr.default) =
        resolveRunInputs encrypt attributes supplied) : DefaultSettled attr := by
  obtain ⟨samples, hkeys, hsome⟩ := exists_samples hnames attr.name
  have hnone : samples.get? attr.name = none := by
    apply Dict.not_mem_keys_iff.mp
    intro hmem
    exact (hkeys _ hmem).2 rfl
  have hunknown : unknownInputs attributes samples = [] := by
    apply unknownInputs_eq_nil.mpr
    exact fun key hkey => (hkeys key hkey).1
  obtain ⟨result, hresult⟩ :
      ∃ result, resolveRunInputs encrypt attributes samples = .ok result := by
    apply (resolveWith_eq_ok hnames).mpr
    refine ⟨hunknown, ?_⟩
    intro other hother
    by_cases hname : other.name = attr.name
    · obtain rfl : other = attr := List.inj_on_of_nodup_map hnames hother hmem hname
      exact ⟨_, by rw [hnone, resolveAttribute_default hdefault]⟩
    · obtain ⟨kept, hkept⟩ := coerce_sampleValue encrypt other
      exact ⟨some kept, by rw [hsome other hother hname, resolveAttribute, hkept]; rfl⟩
  have hleft := (get?_resolveWith hnames hresult).1 attr hmem
  have hsupplied := (get?_resolveWith hnames ((h samples hnone).trans hresult)).1 attr hmem
  rw [hnone, resolveAttribute_default hdefault] at hleft
  rw [Dict.get?_insert, if_pos rfl, ← Except.ok.inj hleft] at hsupplied
  obtain ⟨kept, hkept, heq⟩ := map_eq_ok.mp hsupplied
  obtain rfl := Option.some.inj heq
  exact (coerce_default hok).mp hkept

/-- Stored inputs resolve to themselves and defaults do what supplied values do, for the attributes
of a saved workflow whose defaults are settled and for no others. -/
theorem resolveRunInputs_iff (encrypt : String → String)
    (h : validateStaticAttributes attributes = .ok ()) :
    ((∀ supplied result, resolveRunInputs encrypt attributes supplied = .ok result →
        resolveRunInputs encrypt attributes result = .ok result) ∧
      ∀ attr ∈ attributes, attr.default ≠ .null → ∀ supplied, supplied.get? attr.name = none →
        resolveRunInputs encrypt attributes (supplied.insert attr.name attr.default) =
          resolveRunInputs encrypt attributes supplied) ↔
      ∀ attr ∈ attributes, DefaultSettled attr := by
  obtain ⟨hnames, hok⟩ := validated h
  constructor
  · rintro ⟨-, hdefaults⟩ attr hmem
    by_cases hnull : attr.default = .null
    · constructor
      · intro n _ hn
        rw [hnull] at hn
        cases hn
      · intro text _ htext
        rw [hnull] at htext
        cases htext
    · exact settled_of_default hnames (hok attr hmem hnull) hmem hnull (hdefaults attr hmem hnull)
  · intro hsettled
    constructor
    · exact fun supplied result => resolveRunInputs_again hnames hok hsettled
    · intro attr hmem hnull supplied hnone
      exact resolveRunInputs_default hnames (hok attr hmem hnull) hmem hnull (hsettled attr hmem)
        hnone

def zeroInventory : StaticAttributeDef where
  name := "devices"
  type := .reference
  refKind := some .inventory
  default := .num (.int 0)
  required := false
  name_length := by decide
  ref_kind := by decide
  secret_default := nofun

def firstInventory : StaticAttributeDef := { zeroInventory with
  default := .num (.int 1)
  secret_default := nofun }

theorem resolveRunInputs_iff_first :
    resolveRunInputs id [firstInventory] ⟨[("devices", .num (.int 1))], by decide⟩ =
      .ok ⟨[("devices", .num (.int 1))], by decide⟩ := by
  have hsettled : ∀ attr ∈ [firstInventory], DefaultSettled attr := by
    intro attr hmem
    obtain rfl := List.mem_singleton.mp hmem
    constructor
    · intro n _ hn
      obtain rfl : (1 : ℤ) = n := Number.int.inj (JsonValue.num.inj hn)
      decide
    · intro text hkind
      cases hkind
  have hfirst : resolveRunInputs id [firstInventory] ∅ =
      .ok ⟨[("devices", .num (.int 1))], by decide⟩ := by
    rw [resolveRunInputs, resolveWith, unknownInputs_empty]
    rfl
  exact ((resolveRunInputs_iff id rfl).mpr hsettled).1 _ _ hfirst

/-- The stored default of an inventory is refused when it is replayed. -/
theorem zero_default_not_replayed :
    ¬ ∀ (encrypt : String → String) (attributes : List StaticAttributeDef),
      validateStaticAttributes attributes = .ok () → ∀ supplied result,
        resolveRunInputs encrypt attributes supplied = .ok result →
        resolveRunInputs encrypt attributes result = .ok result := by
  intro h
  have hfirst : resolveRunInputs id [zeroInventory] ∅ =
      .ok ⟨[("devices", .num (.int 0))], by decide⟩ := by
    rw [resolveRunInputs, resolveWith, unknownInputs_empty]
    rfl
  have hagain := h id [zeroInventory] rfl _ _ hfirst
  have hvalue := (get?_resolveWith (by decide) hagain).1 zeroInventory List.mem_cons_self
  cases hvalue

end Saved

end Manus.RunInputs
