import Manus.Context.Merge

/-! # What a branch merge keeps

Everything the copies of a device carry is in the merged device. Values that
Python takes for equal stand for each other, and of the errors that share a node
and a step the first one stands for the others.
-/

namespace Manus

namespace Json

theorem pyEqFields_lookup {ys zs : List (String × Json)} (h : pyEqFields ys zs = true) {k : String}
    {y : Json} (hy : ys.lookup k = some y) : ∃ z, zs.lookup k = some z ∧ pyEq y z = true := by
  induction ys with
  | nil => cases hy
  | cons p ys ih =>
    obtain ⟨k₀, y₀⟩ := p
    simp only [pyEqFields, Bool.and_eq_true] at h
    rw [Dict.lookup_pair_cons] at hy
    split at hy
    · rename_i hk
      cases hy
      cases hz : zs.lookup k₀ with
      | none => simp [hz] at h
      | some z =>
        rw [hz] at h
        exact ⟨z, by rw [hk, hz], h.1⟩
    · exact ih h.2 hy

mutual

theorem pyEq_trans : ∀ {a b c : Json}, pyEq a b = true → pyEq b c = true → pyEq a c = true
  | null, b, c, h, h' => by
    cases b with
    | null => exact h'
    | _ => simp [pyEq] at h
  | bool v, b, c, h, h' => by
    have hb := (pyEq_asInt (a := bool v) rfl).mp h
    exact (pyEq_asInt rfl).mpr ((pyEq_asInt hb).mp h')
  | int n, b, c, h, h' => by
    have hb := (pyEq_asInt (a := int n) rfl).mp h
    exact (pyEq_asInt rfl).mpr ((pyEq_asInt hb).mp h')
  | str s, b, c, h, h' => by
    cases b with
    | str t =>
      obtain rfl : s = t := by simpa [pyEq] using h
      exact h'
    | _ => simp [pyEq] at h
  | arr xs, b, c, h, h' => by
    cases b with
    | arr ys =>
      cases c with
      | arr zs => exact pyEqList_trans h h'
      | _ => simp [pyEq] at h'
    | _ => simp [pyEq] at h
  | obj xs, b, c, h, h' => by
    cases b with
    | obj ys =>
      cases c with
      | obj zs =>
        simp only [pyEq, Bool.and_eq_true, beq_iff_eq] at h h' ⊢
        exact ⟨h.1.trans h'.1, pyEqFields_trans h.2 h'.2⟩
      | _ => simp [pyEq] at h'
    | _ => simp [pyEq] at h

theorem pyEqList_trans : ∀ {xs ys zs : List Json}, pyEqList xs ys = true →
    pyEqList ys zs = true → pyEqList xs zs = true
  | [], ys, zs, h, h' => by
    cases ys with
    | nil => exact h'
    | cons y ys => simp [pyEqList] at h
  | x :: xs, ys, zs, h, h' => by
    cases ys with
    | nil => simp [pyEqList] at h
    | cons y ys =>
      cases zs with
      | nil => simp [pyEqList] at h'
      | cons z zs =>
        simp only [pyEqList, Bool.and_eq_true] at h h' ⊢
        exact ⟨pyEq_trans h.1 h'.1, pyEqList_trans h.2 h'.2⟩

theorem pyEqFields_trans : ∀ {xs ys zs : List (String × Json)}, pyEqFields xs ys = true →
    pyEqFields ys zs = true → pyEqFields xs zs = true
  | [], ys, zs, h, h' => by simp [pyEqFields]
  | (k, x) :: xs, ys, zs, h, h' => by
    simp only [pyEqFields, Bool.and_eq_true] at h ⊢
    refine ⟨?_, pyEqFields_trans h.2 h'⟩
    cases hy : ys.lookup k with
    | none => simp [hy] at h
    | some y =>
      rw [hy] at h
      obtain ⟨z, hz, hyz⟩ := pyEqFields_lookup h' hy
      rw [hz]
      exact pyEq_trans h.1 hyz

end

end Json

def Alike {α : Type} (same : α → α → Bool) (v u : α) : Prop := v = u ∨ same v u = true

section Alike

variable {α : Type} {same : α → α → Bool}

theorem Alike.refl (v : α) : Alike same v v := .inl rfl

theorem Alike.trans {u v w : α} (h : Alike same u v) (h' : Alike same v w)
    (hs : ∀ {u v w}, same u v = true → same v w = true → same u w = true) : Alike same u w := by
  rcases h with rfl | h
  · exact h'
  · rcases h' with rfl | h'
    · exact .inr h
    · exact .inr (hs h h')

theorem sub_mergeAgreeing {message : String → String} {left right merged : Dict α}
    (h : mergeAgreeing same message left right = .ok merged) :
    left.Sub (Alike same) merged ∧ right.Sub (Alike same) merged := by
  refine Dict.sub_mergeWith Alike.refl (fun key l r v hv => ?_) h
  split at hv
  · rename_i hs
    cases hv
    exact ⟨.inr hs, .refl r⟩
  · cases hv

end Alike

theorem RequestRecord.pyEq_trans {a b c : RequestRecord} (h : a.pyEq b = true)
    (h' : b.pyEq c = true) : a.pyEq c = true := by
  simp only [RequestRecord.pyEq, Bool.and_eq_true, beq_iff_eq] at h h' ⊢
  obtain ⟨⟨⟨⟨⟨⟨ht, hm⟩, he⟩, hq⟩, hr⟩, ho⟩, hs⟩ := h
  obtain ⟨⟨⟨⟨⟨⟨ht', hm'⟩, he'⟩, hq'⟩, hr'⟩, ho'⟩, hs'⟩ := h'
  exact ⟨⟨⟨⟨⟨⟨ht.trans ht', hm.trans hm'⟩, he.trans he'⟩, Json.pyEq_trans hq hq'⟩,
    Json.pyEq_trans hr hr'⟩, ho.trans ho'⟩, hs.trans hs'⟩

theorem sameRecords_trans {a b c : List RequestRecord} (h : sameRecords a b = true)
    (h' : sameRecords b c = true) : sameRecords a c = true := by
  induction a generalizing b c with
  | nil =>
    cases b with
    | nil => exact h'
    | cons y b => simp [sameRecords] at h
  | cons x a ih =>
    cases b with
    | nil => simp [sameRecords] at h
    | cons y b =>
      cases c with
      | nil => simp [sameRecords] at h'
      | cons z c =>
        simp only [sameRecords, Bool.and_eq_true] at h h' ⊢
        exact ⟨RequestRecord.pyEq_trans h.1 h'.1, ih h.2 h'.2⟩

theorem alike_pyEq_trans {u v w : Json} (h : Alike Json.pyEq u v) (h' : Alike Json.pyEq v w) :
    Alike Json.pyEq u w := h.trans h' Json.pyEq_trans

theorem alike_sameRecords_trans {u v w : List RequestRecord} (h : Alike sameRecords u v)
    (h' : Alike sameRecords v w) : Alike sameRecords u w := h.trans h' sameRecords_trans

section Errors

def DeviceError.StandsFor (e' e : DeviceError) : Prop := e'.nodeId = e.nodeId ∧ e'.stepId = e.stepId

theorem mergeErrors_keeps (left right : List DeviceError) :
    (∀ e ∈ left, e ∈ mergeErrors left right) ∧
      ∀ e ∈ right, ∃ e' ∈ mergeErrors left right, e'.StandsFor e := by
  unfold mergeErrors
  induction right generalizing left with
  | nil => simp
  | cons e right ih =>
    rw [List.foldl_cons]
    split
    · rename_i hany
      obtain ⟨hl, hr⟩ := ih left
      refine ⟨hl, fun e₁ he₁ => ?_⟩
      rcases List.mem_cons.mp he₁ with rfl | he₁
      · obtain ⟨e', he', hs⟩ := List.any_eq_true.mp hany
        simp only [Bool.and_eq_true, beq_iff_eq] at hs
        exact ⟨e', hl e' he', hs⟩
      · exact hr e₁ he₁
    · obtain ⟨hl, hr⟩ := ih (left ++ [e])
      refine ⟨fun e₁ he₁ => hl e₁ (List.mem_append_left _ he₁), fun e₁ he₁ => ?_⟩
      rcases List.mem_cons.mp he₁ with rfl | he₁
      · exact ⟨e₁, hl e₁ (by simp), rfl, rfl⟩
      · exact hr e₁ he₁

def DeviceContext.Conflicted (d : DeviceContext) : Prop :=
  ∃ e ∈ d.errors, e.nodeId = "" ∧ e.stepId = "merge"

theorem mergeScalarIdentity_cases (left right : Option String) :
    (∀ v, left = some v → (mergeScalarIdentity left right).1 = some v) ∧
    ∀ v, right = some v → (mergeScalarIdentity left right).1 = some v ∨
      ∃ e ∈ (mergeScalarIdentity left right).2, e.nodeId = "" ∧ e.stepId = "merge" := by
  cases left with
  | none => cases right <;> simp [mergeScalarIdentity]
  | some l =>
    cases right with
    | none => simp [mergeScalarIdentity]
    | some r =>
      simp only [mergeScalarIdentity]
      split
      · rename_i he
        simp [he]
      · simp

end Errors

section Devices

/-- Everything one copy of a device carries is in the other: equal values under the same keys, the
same references and capabilities, an error for each of its errors, and each of its identity values
unless a conflict is recorded. -/
structure DeviceContext.KeptIn (d m : DeviceContext) : Prop where
  identity : ∀ (i : ℕ) v, d.identityFields[i]? = some (some v) →
    m.identityFields[i]? = some (some v) ∨ m.Conflicted
  attributeBags : d.attributeBags.Sub (Dict.Sub (Alike Json.pyEq)) m.attributeBags
  parsed : d.parsed.Sub (Alike Json.pyEq) m.parsed
  runningConfigRef : ∀ ref, d.runningConfigRef = some ref → m.runningConfigRef = some ref
  startupConfigRef : ∀ ref, d.startupConfigRef = some ref → m.startupConfigRef = some ref
  commandResults : d.commandResults.Sub (· = ·) m.commandResults
  requests : d.requests.Sub (Alike sameRecords) m.requests
  capabilities : d.capabilities ⊆ m.capabilities
  errors : ∀ e ∈ d.errors, ∃ e' ∈ m.errors, e'.StandsFor e

namespace DeviceContext.KeptIn

theorem refl (d : DeviceContext) : d.KeptIn d where
  identity _ _ h := .inl h
  attributeBags := .refl (Dict.Sub.refl Alike.refl) _
  parsed := .refl Alike.refl _
  runningConfigRef _ h := h
  startupConfigRef _ h := h
  commandResults := .refl (fun _ => rfl) _
  requests := .refl Alike.refl _
  capabilities := Finset.Subset.refl _
  errors e he := ⟨e, he, rfl, rfl⟩

theorem conflicted {d m : DeviceContext} (h : d.KeptIn m) (hc : d.Conflicted) : m.Conflicted := by
  obtain ⟨e, he, hn, hs⟩ := hc
  obtain ⟨e', he', hn', hs'⟩ := h.errors e he
  exact ⟨e', he', hn'.trans hn, hs'.trans hs⟩

theorem trans {d m m' : DeviceContext} (h : d.KeptIn m) (h' : m.KeptIn m') : d.KeptIn m' where
  identity i v hv := by
    rcases h.identity i v hv with hm | hm
    · exact h'.identity i v hm
    · exact .inr (h'.conflicted hm)
  attributeBags := h.attributeBags.trans h'.attributeBags fun h h' => h.trans h' alike_pyEq_trans
  parsed := h.parsed.trans h'.parsed alike_pyEq_trans
  runningConfigRef ref hr := h'.runningConfigRef ref (h.runningConfigRef ref hr)
  startupConfigRef ref hr := h'.startupConfigRef ref (h.startupConfigRef ref hr)
  commandResults := h.commandResults.trans h'.commandResults Eq.trans
  requests := h.requests.trans h'.requests alike_sameRecords_trans
  capabilities := Finset.Subset.trans h.capabilities h'.capabilities
  errors e he := by
    obtain ⟨e₁, he₁, hn, hs⟩ := h.errors e he
    obtain ⟨e₂, he₂, hn', hs'⟩ := h'.errors e₁ he₁
    exact ⟨e₂, he₂, hn'.trans hn, hs'.trans hs⟩

end DeviceContext.KeptIn

theorem mergeArtifactRef_keeps {left right merged : Option ArtifactRef}
    (h : mergeArtifactRef left right = .ok merged) (ref : ArtifactRef) :
    (left = some ref → merged = some ref) ∧ (right = some ref → merged = some ref) := by
  cases left with
  | none =>
    cases h
    exact ⟨fun h => (nomatch h), id⟩
  | some l =>
    cases right with
    | none =>
      cases h
      exact ⟨id, fun h => (nomatch h)⟩
    | some r =>
      simp only [mergeArtifactRef] at h
      split at h
      · rename_i he
        cases h
        exact ⟨id, fun hr => he ▸ hr⟩
      · cases h

theorem mergeTwoDevices_identity {left right merged : DeviceContext}
    (h : mergeTwoDevices left right = .ok merged) :
    merged.identityFields =
      List.zipWith (fun l r => (mergeScalarIdentity l r).1) left.identityFields
        right.identityFields ∧
    ∀ l r, (l, r) ∈ left.identityFields.zip right.identityFields →
      ∀ e ∈ (mergeScalarIdentity l r).2, ∃ e' ∈ merged.errors, e'.StandsFor e := by
  simp only [mergeTwoDevices, bind_eq_ok] at h
  obtain ⟨_, _, _, _, _, _, _, _, _, _, _, _, hm⟩ := h
  cases hm
  constructor
  · have hsome : ∀ l r : String, (mergeScalarIdentity (some l) (some r)).1 = some l := by
      intro l r
      simp only [mergeScalarIdentity]
      split <;> rfl
    simp [DeviceContext.identityFields, hsome]
  · intro l r hlr e he
    refine (mergeErrors_keeps left.errors _).2 e (List.mem_append_right _ ?_)
    refine List.mem_flatten.mpr ⟨_, ?_, he⟩
    rw [← List.map_uncurry_zip_eq_zipWith]
    exact List.mem_map.mpr ⟨(l, r), hlr, rfl⟩

theorem mergeCommandResults_keeps {left right merged : Dict (List CommandResult)}
    (h : mergeCommandResults left right = .ok merged) :
    left.Sub (· = ·) merged ∧ right.Sub (· = ·) merged := by
  refine Dict.sub_mergeWith (fun _ => rfl) (fun _ l r v hv => ?_) h
  split at hv
  · rename_i hs
    cases hv
    exact ⟨of_decide_eq_true hs, rfl⟩
  · cases hv

theorem mergeAttributeBags_keeps {left right merged : Dict (Dict Json)}
    (h : mergeAttributeBags left right = .ok merged) :
    left.Sub (Dict.Sub (Alike Json.pyEq)) merged ∧
      right.Sub (Dict.Sub (Alike Json.pyEq)) merged :=
  Dict.sub_mergeWith (Dict.Sub.refl Alike.refl) (fun _ _ _ _ hv => sub_mergeAgreeing hv) h

/-- A merged device keeps both copies. -/
theorem mergeTwoDevices_keeps {left right merged : DeviceContext}
    (h : mergeTwoDevices left right = .ok merged) :
    left.KeptIn merged ∧ right.KeptIn merged := by
  obtain ⟨hfields, hconflict⟩ := mergeTwoDevices_identity h
  have hlength : left.identityFields.length = right.identityFields.length := rfl
  -- what an identity field ends up with, given the values of both sides
  have hfield : ∀ (i : ℕ) l r, left.identityFields[i]? = some l →
      right.identityFields[i]? = some r →
      merged.identityFields[i]? = some (mergeScalarIdentity l r).1 ∧
        (l, r) ∈ left.identityFields.zip right.identityFields := by
    intro i l r hl hr
    rw [hfields, List.getElem?_zipWith, hl, hr]
    refine ⟨rfl, List.mem_of_getElem? (i := i) ?_⟩
    rw [List.getElem?_zip_eq_some]
    exact ⟨hl, hr⟩
  have hother : ∀ (i : ℕ), left.identityFields[i]?.isSome = right.identityFields[i]?.isSome := by
    intro i
    rw [Bool.eq_iff_iff, Option.isSome_iff_ne_none, Option.isSome_iff_ne_none, ne_eq, ne_eq,
      List.getElem?_eq_none_iff, List.getElem?_eq_none_iff, hlength]
  simp only [mergeTwoDevices, bind_eq_ok] at h
  obtain ⟨_, hbags, _, hparsed, _, hrunning, _, hstartup, _, hcommands, _, hrequests, hm⟩ := h
  cases hm
  have herrors := mergeErrors_keeps left.errors (right.errors ++ (List.zipWith (fun l r =>
    (mergeScalarIdentity l r).2) left.identityFields right.identityFields).flatten)
  constructor
  · refine ⟨fun i v hv => ?_, (mergeAttributeBags_keeps hbags).1, (sub_mergeAgreeing hparsed).1,
      fun ref => (mergeArtifactRef_keeps hrunning ref).1,
      fun ref => (mergeArtifactRef_keeps hstartup ref).1, (mergeCommandResults_keeps hcommands).1,
      (sub_mergeAgreeing hrequests).1, Finset.subset_union_left,
      fun e he => ⟨e, herrors.1 e he, rfl, rfl⟩⟩
    obtain ⟨r, hr⟩ := Option.isSome_iff_exists.mp ((hother i).symm.trans (by rw [hv]; rfl))
    obtain ⟨hmerged, -⟩ := hfield i _ r hv hr
    rw [(mergeScalarIdentity_cases (some v) r).1 v rfl] at hmerged
    exact .inl hmerged
  · refine ⟨fun i v hv => ?_, (mergeAttributeBags_keeps hbags).2, (sub_mergeAgreeing hparsed).2,
      fun ref => (mergeArtifactRef_keeps hrunning ref).2,
      fun ref => (mergeArtifactRef_keeps hstartup ref).2, (mergeCommandResults_keeps hcommands).2,
      (sub_mergeAgreeing hrequests).2, Finset.subset_union_right,
      fun e he => herrors.2 e (List.mem_append_left _ he)⟩
    obtain ⟨l, hl⟩ := Option.isSome_iff_exists.mp ((hother i).trans (by rw [hv]; rfl))
    obtain ⟨hmerged, hmem⟩ := hfield i l _ hl hv
    rcases (mergeScalarIdentity_cases l (some v)).2 v rfl with hs | ⟨e, he, hn, hst⟩
    · rw [hs] at hmerged
      exact .inl hmerged
    · obtain ⟨e', he', hn', hst'⟩ := hconflict l (some v) hmem e he
      exact .inr ⟨e', he', hn'.trans hn, hst'.trans hst⟩

end Devices

section FirstErrors

/-- The errors of one node and step. -/
def DeviceError.sameOrigin (e m : DeviceError) : Bool :=
  m.nodeId == e.nodeId && m.stepId == e.stepId

/-- An error of the merge itself, about two values of one identity field. -/
def DeviceError.IsConflict (e : DeviceError) : Prop :=
  ∃ l r, l ≠ r ∧ [e] = (mergeScalarIdentity (some l) (some r)).2

/-- Of the errors that were found the first of each node and step is kept; those of the merge itself
share one node and step. Nothing is kept that is neither found nor a conflict. -/
structure KeepsErrors (found kept : List DeviceError) : Prop where
  first : ∀ e : DeviceError, (e.nodeId, e.stepId) ≠ ("", "merge") →
    kept.find? e.sameOrigin = found.find? e.sameOrigin
  nothingElse : ∀ e ∈ kept, e ∈ found ∨ e.IsConflict

theorem find?_mergeErrors (left right : List DeviceError) (e : DeviceError) :
    (mergeErrors left right).find? e.sameOrigin = (left ++ right).find? e.sameOrigin := by
  unfold mergeErrors
  induction right generalizing left with
  | nil => simp
  | cons m right ih =>
    rw [List.foldl_cons]
    split
    · rename_i hany
      rw [ih, List.find?_append, List.find?_append, List.find?_cons]
      split
      · -- an earlier error is of the same node and step
        rename_i hm
        obtain ⟨m', hm', hs⟩ := List.any_eq_true.mp hany
        have hfound : (left.find? e.sameOrigin).isSome = true := by
          rw [List.find?_isSome]
          refine ⟨m', hm', ?_⟩
          simp only [DeviceError.sameOrigin, Bool.and_eq_true, beq_iff_eq] at hm hs ⊢
          exact ⟨hs.1.trans hm.1, hs.2.trans hm.2⟩
        obtain ⟨first, hfirst⟩ := Option.isSome_iff_exists.mp hfound
        rw [hfirst, Option.some_or, Option.some_or]
      · rfl
    · rw [ih, List.append_assoc, List.singleton_append]

theorem mem_or_of_mem_mergeErrors {left right : List DeviceError} {e : DeviceError}
    (h : e ∈ mergeErrors left right) : e ∈ left ∨ e ∈ right := by
  unfold mergeErrors at h
  induction right generalizing left with
  | nil => exact .inl h
  | cons m right ih =>
    rw [List.foldl_cons] at h
    split at h
    · exact (ih h).imp_right (List.mem_cons_of_mem _)
    · rcases ih h with hleft | hright
      · rcases List.mem_append.mp hleft with hleft | hm
        · exact .inl hleft
        · exact .inr (List.mem_singleton.mp hm ▸ List.mem_cons_self)
      · exact .inr (List.mem_cons_of_mem _ hright)

theorem isConflict_of_mem {l r : Option String} {e : DeviceError}
    (h : e ∈ (mergeScalarIdentity l r).2) :
    e.IsConflict ∧ (e.nodeId, e.stepId) = ("", "merge") := by
  cases l with
  | none => cases r <;> simp [mergeScalarIdentity] at h
  | some l =>
    cases r with
    | none => simp [mergeScalarIdentity] at h
    | some r =>
      by_cases hne : l = r
      · simp [mergeScalarIdentity, hne] at h
      · simp only [mergeScalarIdentity, if_neg hne, List.mem_singleton] at h
        subst h
        exact ⟨⟨l, r, hne, by rw [mergeScalarIdentity, if_neg hne]⟩, rfl⟩

theorem KeepsErrors.mergeTwoDevices {left right merged : DeviceContext} {found : List DeviceError}
    (h : mergeTwoDevices left right = .ok merged) (hleft : KeepsErrors found left.errors) :
    KeepsErrors (found ++ right.errors) merged.errors := by
  simp only [Manus.mergeTwoDevices, bind_eq_ok] at h
  obtain ⟨_, _, _, _, _, _, _, _, _, _, _, _, hm⟩ := h
  cases hm
  have hextra : ∀ e ∈ (List.zipWith (fun l r => (mergeScalarIdentity l r).2)
      left.identityFields right.identityFields).flatten,
      e.IsConflict ∧ (e.nodeId, e.stepId) = ("", "merge") := by
    intro e he
    obtain ⟨errors, herrors, he⟩ := List.mem_flatten.mp he
    rw [← List.map_uncurry_zip_eq_zipWith] at herrors
    obtain ⟨⟨l, r⟩, -, rfl⟩ := List.mem_map.mp herrors
    exact isConflict_of_mem he
  constructor
  · intro e hne
    have hnone : (List.zipWith (fun l r => (mergeScalarIdentity l r).2)
        left.identityFields right.identityFields).flatten.find? e.sameOrigin = none := by
      rw [List.find?_eq_none]
      intro m hm hsame
      simp only [DeviceError.sameOrigin, Bool.and_eq_true, beq_iff_eq] at hsame
      rw [← hsame.1, ← hsame.2] at hne
      exact hne (hextra m hm).2
    rw [find?_mergeErrors, ← List.append_assoc, List.find?_append, hnone, Option.or_none,
      List.find?_append, hleft.first e hne, List.find?_append]
  · intro e he
    rcases mem_or_of_mem_mergeErrors he with he | he
    · exact (hleft.nothingElse e he).imp_left (List.mem_append_left _)
    · rcases List.mem_append.mp he with he | he
      · exact .inl (List.mem_append_right _ he)
      · exact .inr (hextra e he).1

def errorsOf (found : Option DeviceContext) : List DeviceError := found.elim [] DeviceContext.errors

theorem KeepsErrors.combine {left right merged : Option DeviceContext} {found : List DeviceError}
    (h : Dict.combine Manus.mergeTwoDevices left right = .ok merged)
    (hleft : KeepsErrors found (errorsOf left)) :
    KeepsErrors (found ++ errorsOf right) (errorsOf merged) := by
  cases right with
  | none =>
    rw [combine_none_right] at h
    cases h
    rwa [errorsOf, Option.elim_none, List.append_nil]
  | some right =>
    cases left with
    | none =>
      cases h
      constructor
      · intro e hne
        rw [List.find?_append, ← hleft.first e hne]
        rfl
      · exact fun e he => .inl (List.mem_append_right _ he)
    | some left =>
      obtain ⟨merged, hmerged, rfl⟩ := map_eq_ok.mp h
      exact hleft.mergeTwoDevices hmerged

theorem KeepsErrors.mergeLookups {copies : List (Option DeviceContext)}
    {merged : Option DeviceContext} (h : mergeLookups copies = .ok merged) :
    KeepsErrors (copies.flatMap errorsOf) (errorsOf merged) := by
  have hfold : ∀ (copies : List (Option DeviceContext)) (start : Option DeviceContext)
      (found : List DeviceError), copies.foldlM (Dict.combine Manus.mergeTwoDevices) start =
        .ok merged → KeepsErrors found (errorsOf start) →
      KeepsErrors (found ++ copies.flatMap errorsOf) (errorsOf merged) := by
    intro copies
    induction copies with
    | nil =>
      intro start found h hstart
      cases h
      simpa using hstart
    | cons copy copies ih =>
      intro start found h hstart
      rw [List.foldlM_cons, bind_eq_ok] at h
      obtain ⟨next, hnext, h⟩ := h
      rw [List.flatMap_cons, ← List.append_assoc]
      exact ih next _ h (hstart.combine hnext)
  exact hfold copies none [] h ⟨fun _ _ => rfl, fun e he => by cases he⟩

end FirstErrors

section Contexts

structure WorkflowContext.KeptIn (c m : WorkflowContext) : Prop where
  devices : c.devices.Sub DeviceContext.KeptIn m.devices
  pendingCommands : c.pendingCommands.Sub (Dict.Sub (· = ·)) m.pendingCommands
  metadata : c.metadata.Sub (Alike Json.pyEq) m.metadata

theorem WorkflowContext.KeptIn.refl (c : WorkflowContext) : c.KeptIn c :=
  ⟨.refl DeviceContext.KeptIn.refl _, .refl (Dict.Sub.refl fun _ => rfl) _, .refl Alike.refl _⟩

theorem WorkflowContext.KeptIn.trans {c m m' : WorkflowContext} (h : c.KeptIn m)
    (h' : m.KeptIn m') : c.KeptIn m' :=
  ⟨h.devices.trans h'.devices DeviceContext.KeptIn.trans,
    h.pendingCommands.trans h'.pendingCommands fun h h' => h.trans h' Eq.trans,
    h.metadata.trans h'.metadata alike_pyEq_trans⟩

theorem mergePendingCommands_keeps {left right merged : Dict (Dict (List String))}
    (h : mergePendingCommands left right = .ok merged) :
    left.Sub (Dict.Sub (· = ·)) merged ∧ right.Sub (Dict.Sub (· = ·)) merged := by
  refine Dict.sub_mergeWith (Dict.Sub.refl fun _ => rfl) (fun _ _ _ _ hv => ?_) h
  refine Dict.sub_mergeWith (fun _ => rfl) (fun _ l r v hv => ?_) hv
  split at hv
  · rename_i hs
    cases hv
    exact ⟨of_decide_eq_true hs, rfl⟩
  · cases hv

theorem mergeTwoContexts_keeps {left right merged : WorkflowContext}
    (h : mergeTwoContexts left right = .ok merged) :
    left.KeptIn merged ∧ right.KeptIn merged := by
  simp only [mergeTwoContexts, bind_eq_ok] at h
  obtain ⟨devices, hd, pending, hp, metadata, hmeta, hm⟩ := h
  cases hm
  have hdevices := Dict.sub_mergeWith DeviceContext.KeptIn.refl
    (fun _ _ _ _ hv => mergeTwoDevices_keeps hv) hd
  exact ⟨⟨hdevices.1, (mergePendingCommands_keeps hp).1, (sub_mergeAgreeing hmeta).1⟩,
    ⟨hdevices.2, (mergePendingCommands_keeps hp).2, (sub_mergeAgreeing hmeta).2⟩⟩

theorem mergeWorkflowContexts_keptIn {contexts : List WorkflowContext} {merged : WorkflowContext}
    (h : mergeWorkflowContexts contexts = .ok merged) : ∀ c ∈ contexts, c.KeptIn merged := by
  cases contexts with
  | nil => cases h
  | cons base others =>
    have key : ∀ (others : List WorkflowContext) (base : WorkflowContext),
        others.foldlM (fun base other => do
          assertSameInvariants base other
          mergeTwoContexts base other) base = .ok merged →
        base.KeptIn merged ∧ ∀ c ∈ others, c.KeptIn merged := by
      intro others
      induction others with
      | nil =>
        intro base h
        cases h
        exact ⟨.refl _, fun c hc => by cases hc⟩
      | cons other others ih =>
        intro base h
        simp only [List.foldlM_cons, bind_eq_ok] at h
        obtain ⟨next, ⟨_, _, hnext⟩, h⟩ := h
        obtain ⟨hleft, hright⟩ := mergeTwoContexts_keeps hnext
        obtain ⟨hn, hrest⟩ := ih next h
        refine ⟨hleft.trans hn, fun c hc => ?_⟩
        rcases List.mem_cons.mp hc with rfl | hc
        · exact hright.trans hn
        · exact hrest c hc
    obtain ⟨hbase, hothers⟩ := key others base h
    intro c hc
    rcases List.mem_cons.mp hc with rfl | hc
    · exact hbase
    · exact hothers c hc

/-- A merge of any number of parents that succeeds keeps every one of them, and of the errors of a
device the first of each node and step. -/
theorem mergeWorkflowContexts_keeps {contexts : List WorkflowContext} {merged : WorkflowContext}
    (h : mergeWorkflowContexts contexts = .ok merged) :
    (∀ c ∈ contexts, c.KeptIn merged) ∧
    ∀ id device, merged.devices.get? id = some device →
      KeepsErrors (contexts.flatMap fun c => errorsOf (c.devices.get? id)) device.errors := by
  refine ⟨mergeWorkflowContexts_keptIn h, fun id device hdevice => ?_⟩
  have hkept := KeepsErrors.mergeLookups (mergeWorkflowContexts_devices h id)
  rwa [hdevice, List.flatMap_map] at hkept

end Contexts

section Examples

def failedDevice (code : String) : DeviceContext where
  id := "d1"
  name := "d1"
  hostname := "d1"
  errors := [{ nodeId := "X", stepId := "run-command", code, message := "show version" }]

def failedBranch (code : String) : WorkflowContext where
  runId := "r"
  workflowId := "1"
  devices := Dict.ofPairs [("d1", failedDevice code)]

/-- Two different errors of one node and step: the second one is lost. -/
theorem failedBranches_lose_error :
    ∃ merged device, mergeWorkflowContexts [failedBranch "timeout", failedBranch "refused"] =
        .ok merged ∧
      merged.devices.get? "d1" = some device ∧
      ∃ e ∈ (failedDevice "refused").errors, e ∉ device.errors := by
  have herrors :
      ((mergeWorkflowContexts [failedBranch "timeout", failedBranch "refused"]).toOption.bind
      fun m => (m.devices.get? "d1").map DeviceContext.errors) =
        some (failedDevice "timeout").errors := by decide +kernel
  obtain ⟨merged, hm, herrors⟩ := Option.bind_eq_some_iff.mp herrors
  obtain ⟨device, hd, herrors⟩ := Option.map_eq_some_iff.mp herrors
  refine ⟨merged, device, ?_, hd, _, List.mem_cons_self, ?_⟩
  · cases h : mergeWorkflowContexts [failedBranch "timeout", failedBranch "refused"] with
    | error e => simp [h, Except.toOption] at hm
    | ok m =>
      rw [h] at hm
      exact congrArg Except.ok (Option.some.inj hm)
  · rw [herrors]
    decide

theorem failedBranches_kept :
    ∃ merged, mergeWorkflowContexts [failedBranch "timeout", failedBranch "refused"] = .ok merged ∧
      (∀ c ∈ [failedBranch "timeout", failedBranch "refused"], c.KeptIn merged) ∧
      ∀ id device, merged.devices.get? id = some device →
        KeepsErrors ([failedBranch "timeout", failedBranch "refused"].flatMap fun c =>
          errorsOf (c.devices.get? id)) device.errors := by
  have hok : (mergeWorkflowContexts [failedBranch "timeout",
      failedBranch "refused"]).toOption.isSome = true := by decide +kernel
  cases h : mergeWorkflowContexts [failedBranch "timeout", failedBranch "refused"] with
  | error e =>
    rw [h] at hok
    cases hok
  | ok merged => exact ⟨merged, rfl, mergeWorkflowContexts_keeps h⟩

end Examples

end Manus
