import Manus.Context.FanIn
import Manus.Context.Lossless
import Manus.Lib.Unite

/-! # The order of converging branches

Whether the envelopes of parallel branches can be merged does not depend on
their order. If the merge records no conflict, neither does what it makes of
them, apart from the results of a dry run, where the copy of the first branch
stays, and from the errors that a copy repeats.
-/

namespace Manus

section Equality

namespace Json

mutual

def distinctKeys : Json → Bool
  | arr items => distinctKeysList items
  | obj fields => decide (fields.map Prod.fst).Nodup && distinctKeysFields fields
  | _ => true

def distinctKeysList : List Json → Bool
  | [] => true
  | v :: vs => distinctKeys v && distinctKeysList vs

def distinctKeysFields : List (String × Json) → Bool
  | [] => true
  | (_, v) :: fields => distinctKeys v && distinctKeysFields fields

end

mutual

theorem pyEq_refl : ∀ v : Json, distinctKeys v = true → pyEq v v = true
  | null, _ => rfl
  | bool b, _ => by simp [pyEq, asInt?]
  | int n, _ => by simp [pyEq, asInt?]
  | str s, _ => by simp [pyEq]
  | arr items, h => pyEqList_refl items h
  | obj fields, h => by
    simp only [distinctKeys, Bool.and_eq_true, decide_eq_true_eq] at h
    simp only [pyEq, beq_self_eq_true, Bool.true_and]
    exact pyEqFields_refl fields fields h.2 fun p hp => lookup_of_mem h.1 hp

theorem pyEqList_refl : ∀ vs : List Json, distinctKeysList vs = true → pyEqList vs vs = true
  | [], _ => rfl
  | v :: vs, h => by
    simp only [distinctKeysList, Bool.and_eq_true] at h
    simp only [pyEqList, Bool.and_eq_true]
    exact ⟨pyEq_refl v h.1, pyEqList_refl vs h.2⟩

theorem pyEqFields_refl : ∀ xs ys : List (String × Json), distinctKeysFields xs = true →
    (∀ p ∈ xs, ys.lookup p.1 = some p.2) → pyEqFields xs ys = true
  | [], _, _, _ => rfl
  | (k, v) :: xs, ys, h, hin => by
    simp only [distinctKeysFields, Bool.and_eq_true] at h
    have hv : ys.lookup k = some v := hin (k, v) List.mem_cons_self
    simp only [pyEqFields, hv, Bool.and_eq_true]
    exact ⟨pyEq_refl v h.1, pyEqFields_refl xs ys h.2 fun p hp => hin p (List.mem_cons_of_mem _ hp)⟩

end

theorem keys_subset_of_length {xs ys : List (String × Json)} (hx : (xs.map Prod.fst).Nodup)
    (hl : xs.length = ys.length) (h : pyEqFields xs ys = true) :
    ys.map Prod.fst ⊆ xs.map Prod.fst := by
  have hsub : xs.map Prod.fst ⊆ ys.map Prod.fst := by
    intro k hk
    obtain ⟨p, hp, rfl⟩ := List.mem_map.mp hk
    obtain ⟨y, hy, -⟩ := pyEqFields_iff.mp h p.1 p.2 hp
    exact lookup_isSome_iff.mp (by rw [hy]; rfl)
  have hperm := (hx.subperm hsub).perm_of_length_le (by simp [hl])
  exact hperm.symm.subset

mutual

theorem pyEq_symm : ∀ v w : Json, distinctKeys v = true → distinctKeys w = true →
    pyEq v w = true → pyEq w v = true
  | null, w, _, _, h => by
    cases w with
    | null => rfl
    | _ => simp [pyEq] at h
  | bool b, w, _, _, h => (pyEq_asInt ((pyEq_asInt (a := bool b) rfl).mp h)).mpr rfl
  | int n, w, _, _, h => (pyEq_asInt ((pyEq_asInt (a := int n) rfl).mp h)).mpr rfl
  | str s, w, _, _, h => by
    cases w with
    | str t =>
      obtain rfl : s = t := by simpa [pyEq] using h
      exact h
    | _ => simp [pyEq] at h
  | arr xs, w, hv, hw, h => by
    cases w with
    | arr ys => exact pyEqList_symm xs ys hv hw h
    | _ => simp [pyEq] at h
  | obj xs, w, hv, hw, h => by
    cases w with
    | obj ys =>
      simp only [distinctKeys, pyEq, Bool.and_eq_true, beq_iff_eq, decide_eq_true_eq] at hv hw h ⊢
      refine ⟨h.1.symm, pyEqFields_iff.mpr fun k y hy => ?_⟩
      have hk := keys_subset_of_length hv.1 h.1 h.2 (List.mem_map.mpr ⟨(k, y), hy, rfl⟩)
      obtain ⟨x, hx⟩ := Option.isSome_iff_exists.mp (lookup_isSome_iff.mpr hk)
      exact ⟨x, hx, pyEqFields_symm xs ys hv.2 hw.2 h.2 k x y (mem_of_lookup hx)
        (lookup_of_mem hw.1 hy)⟩
    | _ => simp [pyEq] at h

theorem pyEqList_symm : ∀ vs ws : List Json, distinctKeysList vs = true →
    distinctKeysList ws = true → pyEqList vs ws = true → pyEqList ws vs = true
  | [], ws, _, _, h => by
    cases ws with
    | nil => rfl
    | cons w ws => simp [pyEqList] at h
  | v :: vs, ws, hv, hw, h => by
    cases ws with
    | nil => simp [pyEqList] at h
    | cons w ws =>
      simp only [distinctKeysList, pyEqList, Bool.and_eq_true] at hv hw h ⊢
      exact ⟨pyEq_symm v w hv.1 hw.1 h.1, pyEqList_symm vs ws hv.2 hw.2 h.2⟩

theorem pyEqFields_symm : ∀ xs ys : List (String × Json), distinctKeysFields xs = true →
    distinctKeysFields ys = true → pyEqFields xs ys = true → ∀ k x y, (k, x) ∈ xs →
    ys.lookup k = some y → pyEq y x = true
  | [], _, _, _, _, _, _, _, hx, _ => by cases hx
  | (k₀, x₀) :: xs, ys, hv, hw, h, k, x, y, hx, hy => by
    simp only [distinctKeysFields, pyEqFields, Bool.and_eq_true] at hv h
    rcases List.mem_cons.mp hx with he | hx
    · cases he
      rw [hy] at h
      exact pyEq_symm x₀ y hv.1 (distinctKeys_of_lookup ys hw hy) h.1
    · exact pyEqFields_symm xs ys hv.2 hw h.2 k x y hx hy

theorem distinctKeys_of_lookup : ∀ ys : List (String × Json), distinctKeysFields ys = true →
    ∀ {k y}, ys.lookup k = some y → distinctKeys y = true
  | [], _, _, _, hy => by cases hy
  | (k₀, y₀) :: ys, h, k, y, hy => by
    simp only [distinctKeysFields, Bool.and_eq_true] at h
    rw [Dict.lookup_pair_cons] at hy
    split at hy
    · cases hy
      exact h.1
    · exact distinctKeys_of_lookup ys h.2 hy

end

end Json

end Equality

section Components

variable {message : String}

def ValidJson (v : Json) : Prop := v.distinctKeys = true

theorem merges_json : Merges ValidJson (Matches Json.pyEq) (fun v w => ¬ Matches Json.pyEq v w)
    (fun l r => if Json.pyEq l r then .ok r else .error message) :=
  merges_agreeing Json.pyEq_refl Json.pyEq_symm fun _ _ _ => Json.pyEq_trans

theorem merges_decide {β : Type} [DecidableEq β] : Merges (fun _ => True)
    (Matches fun v w : β => decide (v = w)) (fun v w => ¬ Matches (fun v w => decide (v = w)) v w)
    (fun l r => if decide (l = r) then .ok r else .error message) := by
  apply merges_agreeing
  · simp
  · simp [eq_comm]
  · simp

theorem same_values (a b : Dict Json) (ha : a.Forall ValidJson) (hb : b.Forall ValidJson)
    (h : ∀ p, a.Has (Matches Json.pyEq) p ↔ b.Has (Matches Json.pyEq) p) :
    a.Same (fun v w => Json.pyEq v w = true) b :=
  Dict.same_of_has (same_of_matches Json.pyEq_refl) ha hb h

theorem same_decided {β : Type} [DecidableEq β] (a b : Dict β) (_ : a.Forall fun _ => True)
    (_ : b.Forall fun _ => True) (h : ∀ p, a.Has (Matches fun v w => decide (v = w)) p ↔
      b.Has (Matches fun v w => decide (v = w)) p) : a.Same (· = ·) b := by
  apply @Dict.same_of_has β β (fun _ => True) _ (· = ·) _ a b ‹_› ‹_› h
  intro v w _ _ hu
  simpa [Matches, eq_comm] using hu w

def ValidRecords (records : List RequestRecord) : Prop :=
  ∀ r ∈ records, ValidJson r.request ∧ ValidJson r.response

theorem sameRecords_refl (l : List RequestRecord) (h : ValidRecords l) :
    sameRecords l l = true := by
  induction l with
  | nil => rfl
  | cons r l ih =>
    obtain ⟨hq, hr⟩ := h r List.mem_cons_self
    simp only [sameRecords, RequestRecord.pyEq, beq_self_eq_true, Json.pyEq_refl _ hq,
      Json.pyEq_refl _ hr, Bool.true_and]
    exact ih fun r' hr' => h r' (List.mem_cons_of_mem _ hr')

theorem sameRecords_symm (l l' : List RequestRecord) (h : ValidRecords l) (h' : ValidRecords l')
    (hs : sameRecords l l' = true) : sameRecords l' l = true := by
  induction l generalizing l' with
  | nil =>
    cases l' with
    | nil => rfl
    | cons r' l' => simp [sameRecords] at hs
  | cons r l ih =>
    cases l' with
    | nil => simp [sameRecords] at hs
    | cons r' l' =>
      obtain ⟨hq, hr⟩ := h r List.mem_cons_self
      obtain ⟨hq', hr'⟩ := h' r' List.mem_cons_self
      simp only [sameRecords, RequestRecord.pyEq, Bool.and_eq_true, beq_iff_eq] at hs ⊢
      obtain ⟨⟨⟨⟨⟨⟨⟨ht, hm⟩, he⟩, hreq⟩, hres⟩, ho⟩, hsent⟩, hrest⟩ := hs
      refine ⟨⟨⟨⟨⟨⟨⟨ht.symm, hm.symm⟩, he.symm⟩, Json.pyEq_symm _ _ hq hq' hreq⟩,
        Json.pyEq_symm _ _ hr hr' hres⟩, ho.symm⟩, hsent.symm⟩, ?_⟩
      exact ih l' (fun x hx => h x (List.mem_cons_of_mem _ hx))
        (fun x hx => h' x (List.mem_cons_of_mem _ hx)) hrest

theorem merges_records : Merges ValidRecords (Matches sameRecords)
    (fun v w => ¬ Matches sameRecords v w)
    (fun l r => if sameRecords l r then .ok r else .error message) :=
  merges_agreeing sameRecords_refl sameRecords_symm fun _ _ _ => sameRecords_trans

theorem merges_artifactRef : Merges (fun _ => True) (fun o ref => o = some ref) (· ≠ ·)
    mergeArtifactRef where
  union := by
    rintro (_ | l) (_ | r) c - - hagree hc
    · cases hc
      simp
    · cases hc
      simp
    · cases hc
      simp
    · obtain rfl := not_not.mp (hagree l r rfl rfl)
      simp only [mergeArtifactRef, if_true, Except.ok.injEq] at hc
      simp [← hc]
  succeeds := by
    rintro (_ | l) (_ | r) - -
    · simp [mergeArtifactRef, Agree]
    · simp [mergeArtifactRef, Agree]
    · simp [mergeArtifactRef, Agree]
    · by_cases h : l = r
      · simp [mergeArtifactRef, Agree, h]
      · simp [mergeArtifactRef, Agree, h]

end Components

section Devices

/-- What a copy of a device carries that must not differ from copy to copy, and what is added up. -/
inductive DeviceFact where
  | bags (p : String × Option (String × Option Json))
  | parsed (p : String × Option Json)
  | running (ref : ArtifactRef)
  | startup (ref : ArtifactRef)
  | commands (p : String × Option (List CommandResult))
  | requests (p : String × Option (List RequestRecord))
  | capability (c : Capability)
  | status (s : DeviceStatus)

def DeviceContext.Has (d : DeviceContext) : DeviceFact → Prop
  | .bags p => d.attributeBags.Has (Dict.Has (Matches Json.pyEq)) p
  | .parsed p => d.parsed.Has (Matches Json.pyEq) p
  | .running ref => d.runningConfigRef = some ref
  | .startup ref => d.startupConfigRef = some ref
  | .commands p => d.commandResults.Has (Matches fun v w => decide (v = w)) p
  | .requests p => d.requests.Has (Matches sameRecords) p
  | .capability c => c ∈ d.capabilities
  | .status s => s.rank ≤ d.status.rank

def DeviceFact.Clash : DeviceFact → DeviceFact → Prop
  | .bags p, .bags q => Dict.Clash (Dict.Clash fun v w => ¬ Matches Json.pyEq v w) p q
  | .parsed p, .parsed q => Dict.Clash (fun v w => ¬ Matches Json.pyEq v w) p q
  | .running ref, .running ref' => ref ≠ ref'
  | .startup ref, .startup ref' => ref ≠ ref'
  | .commands p, .commands q =>
    Dict.Clash (fun v w => ¬ Matches (fun v w => decide (v = w)) v w) p q
  | .requests p, .requests q => Dict.Clash (fun v w => ¬ Matches sameRecords v w) p q
  | _, _ => False

theorem DeviceFact.Clash.symm {p q : DeviceFact} (h : p.Clash q) : q.Clash p := by
  cases p <;> cases q
  case bags.bags => exact Dict.Clash.symm (Dict.Clash.symm fun hne he => hne he.symm) h
  case running.running => exact Ne.symm h
  case startup.startup => exact Ne.symm h
  all_goals first
    | exact h
    | exact Dict.Clash.symm (fun hne he => hne he.symm) h

structure DeviceContext.Valid (d : DeviceContext) : Prop where
  bags : d.attributeBags.Forall (Dict.Forall ValidJson)
  parsed : d.parsed.Forall ValidJson
  dryRun : d.dryRunResults.Forall ValidJson
  requests : d.requests.Forall ValidRecords

structure DeviceContext.Agrees (d e : DeviceContext) : Prop where
  bags : Agree (Dict.Has (Dict.Has (Matches Json.pyEq)))
    (Dict.Clash (Dict.Clash fun v w => ¬ Matches Json.pyEq v w)) d.attributeBags e.attributeBags
  parsed : Agree (Dict.Has (Matches Json.pyEq)) (Dict.Clash fun v w => ¬ Matches Json.pyEq v w)
    d.parsed e.parsed
  running : Agree (fun o ref => o = some ref) (· ≠ ·) d.runningConfigRef e.runningConfigRef
  startup : Agree (fun o ref => o = some ref) (· ≠ ·) d.startupConfigRef e.startupConfigRef
  commands : Agree (Dict.Has (Matches fun v w => decide (v = w)))
    (Dict.Clash fun v w => ¬ Matches (fun v w => decide (v = w)) v w) d.commandResults
    e.commandResults
  requests : Agree (Dict.Has (Matches sameRecords))
    (Dict.Clash fun v w => ¬ Matches sameRecords v w) d.requests e.requests

theorem agree_devices_iff {d e : DeviceContext} :
    Agree DeviceContext.Has DeviceFact.Clash d e ↔ d.Agrees e := by
  constructor
  · intro h
    constructor
    · exact fun p q => h (.bags p) (.bags q)
    · exact fun p q => h (.parsed p) (.parsed q)
    · exact fun p q => h (.running p) (.running q)
    · exact fun p q => h (.startup p) (.startup q)
    · exact fun p q => h (.commands p) (.commands q)
    · exact fun p q => h (.requests p) (.requests q)
  · rintro h (p | p | p | p | p | p | p | p) (q | q | q | q | q | q | q | q) hp hq hc
    · exact h.bags p q hp hq hc
    all_goals first
      | exact hc.elim
      | exact h.parsed p q hp hq hc
      | exact h.running p q hp hq hc
      | exact h.startup p q hp hq hc
      | exact h.commands p q hp hq hc
      | exact h.requests p q hp hq hc

theorem merges_bags : Merges (Dict.Forall (Dict.Forall ValidJson))
    (Dict.Has (Dict.Has (Matches Json.pyEq)))
    (Dict.Clash (Dict.Clash fun v w => ¬ Matches Json.pyEq v w)) mergeAttributeBags :=
  Dict.merges_mergeWith fun _ => Dict.merges_mergeWith fun _ => merges_json

theorem DeviceStatus.rank_injective : Function.Injective DeviceStatus.rank := by
  intro s t h
  cases s <;> cases t <;> first | rfl | cases h

theorem worstDeviceStatus_rank (left right : DeviceStatus) :
    (worstDeviceStatus left right).rank = max left.rank right.rank := by
  unfold worstDeviceStatus
  split <;> omega

/-- Two copies of a device can be merged exactly when no facts of them clash. -/
theorem merges_devices :
    Merges DeviceContext.Valid DeviceContext.Has DeviceFact.Clash mergeTwoDevices where
  union := by
    intro l r m hl hr hagree hm
    have ha := agree_devices_iff.mp hagree
    simp only [mergeTwoDevices, bind_eq_ok] at hm
    obtain ⟨_, hbags, _, hparsed, _, hrunning, _, hstartup, _, hcommands, _, hrequests, hm⟩ := hm
    cases hm
    obtain ⟨hbv, hbags⟩ := merges_bags.union hl.bags hr.bags ha.bags hbags
    obtain ⟨hpv, hparsed⟩ := (Dict.merges_mergeWith fun _ => merges_json).union hl.parsed hr.parsed
      ha.parsed hparsed
    have hrunning := (merges_artifactRef.union trivial trivial ha.running hrunning).2
    have hstartup := (merges_artifactRef.union trivial trivial ha.startup hstartup).2
    have hcommands := ((Dict.merges_mergeWith fun _ => merges_decide).union (fun _ _ _ => trivial)
      (fun _ _ _ => trivial) ha.commands hcommands).2
    obtain ⟨hqv, hrequests⟩ := (Dict.merges_mergeWith fun _ => merges_records).union hl.requests
      hr.requests ha.requests hrequests
    refine ⟨⟨hbv, hpv, hl.dryRun, hqv⟩, fun p => ?_⟩
    cases p with
    | bags p => exact hbags p
    | parsed p => exact hparsed p
    | running ref => exact hrunning ref
    | startup ref => exact hstartup ref
    | commands p => exact hcommands p
    | requests p => exact hrequests p
    | capability c => exact Finset.mem_union
    | status s => simp only [DeviceContext.Has, worstDeviceStatus_rank, le_max_iff]
  succeeds := by
    intro l r hl hr
    rw [agree_devices_iff]
    simp only [mergeTwoDevices, bind_eq_ok]
    constructor
    · rintro ⟨_, _, hbags, _, hparsed, _, hrunning, _, hstartup, _, hcommands, _, hrequests, -⟩
      constructor
      · exact (merges_bags.succeeds hl.bags hr.bags).mp ⟨_, hbags⟩
      · exact ((Dict.merges_mergeWith fun _ => merges_json).succeeds hl.parsed hr.parsed).mp
          ⟨_, hparsed⟩
      · exact (merges_artifactRef.succeeds trivial trivial).mp ⟨_, hrunning⟩
      · exact (merges_artifactRef.succeeds trivial trivial).mp ⟨_, hstartup⟩
      · exact ((Dict.merges_mergeWith fun _ => merges_decide).succeeds (fun _ _ _ => trivial)
          (fun _ _ _ => trivial)).mp ⟨_, hcommands⟩
      · exact ((Dict.merges_mergeWith fun _ => merges_records).succeeds hl.requests hr.requests).mp
          ⟨_, hrequests⟩
    · intro h
      obtain ⟨_, hbags⟩ := (merges_bags.succeeds hl.bags hr.bags).mpr h.bags
      obtain ⟨_, hparsed⟩ := ((Dict.merges_mergeWith fun _ => merges_json).succeeds hl.parsed
        hr.parsed).mpr h.parsed
      obtain ⟨_, hrunning⟩ := (merges_artifactRef.succeeds trivial trivial).mpr h.running
      obtain ⟨_, hstartup⟩ := (merges_artifactRef.succeeds trivial trivial).mpr h.startup
      obtain ⟨_, hcommands⟩ := ((Dict.merges_mergeWith fun _ => merges_decide).succeeds
        (fun _ _ _ => trivial) (fun _ _ _ => trivial)).mpr h.commands
      obtain ⟨_, hrequests⟩ := ((Dict.merges_mergeWith fun _ => merges_records).succeeds hl.requests
        hr.requests).mpr h.requests
      exact ⟨_, _, hbags, _, hparsed, _, hrunning, _, hstartup, _, hcommands, _, hrequests, rfl⟩

end Devices

section Conflicts

inductive RecordedFact where
  | identity (i : ℕ) (v : String)
  | error (e : DeviceError)

def DeviceContext.Records (d : DeviceContext) : RecordedFact → Prop
  | .identity i v => d.identityFields[i]? = some (some v)
  | .error e => e ∈ d.errors

/-- Two values of an identity field, or two different errors of one node and step. -/
def RecordedFact.Clash : RecordedFact → RecordedFact → Prop
  | .identity i v, .identity j w => i = j ∧ v ≠ w
  | .error e, .error e' => e.StandsFor e' ∧ e ≠ e'
  | _, _ => False

def DeviceContext.Consistent (d : DeviceContext) : Prop :=
  Agree DeviceContext.Records RecordedFact.Clash d d

theorem RecordedFact.Clash.symm {p q : RecordedFact} (h : p.Clash q) : q.Clash p := by
  cases p with
  | identity i v =>
    cases q with
    | identity j w => exact ⟨h.1.symm, h.2.symm⟩
    | error e => exact h
  | error e =>
    cases q with
    | identity j w => exact h
    | error e' => exact ⟨⟨h.1.1.symm, h.1.2.symm⟩, h.2.symm⟩

theorem agree_recorded_iff {d e : DeviceContext} :
    Agree DeviceContext.Records RecordedFact.Clash d e ↔
      (∀ (i : ℕ) v w, d.identityFields[i]? = some (some v) → e.identityFields[i]? = some (some w) →
        v = w) ∧
      ∀ x ∈ d.errors, ∀ y ∈ e.errors, x.StandsFor y → x = y := by
  constructor
  · intro h
    constructor
    · intro i v w hv hw
      by_contra hne
      exact h (.identity i v) (.identity i w) hv hw ⟨rfl, hne⟩
    · intro x hx y hy hs
      by_contra hne
      exact h (.error x) (.error y) hx hy ⟨hs, hne⟩
  · rintro ⟨hi, he⟩ (⟨i, v⟩ | x) (⟨j, w⟩ | y) hp hq hc
    · obtain ⟨rfl, hne⟩ := hc
      exact hne (hi i v w hp hq)
    · exact hc
    · exact hc
    · exact hc.2 (he x hp y hq hc.1)

theorem mergeScalarIdentity_fst (l r : Option String) : (mergeScalarIdentity l r).1 = l.or r := by
  cases l with
  | none => cases r <;> rfl
  | some l =>
    cases r with
    | none => rfl
    | some r =>
      simp only [mergeScalarIdentity]
      split <;> rfl

theorem mergeScalarIdentity_snd {l r : Option String} (h : ∀ v w, l = some v → r = some w → v = w) :
    (mergeScalarIdentity l r).2 = [] := by
  cases l with
  | none => cases r <;> rfl
  | some l =>
    cases r with
    | none => rfl
    | some r => simp [mergeScalarIdentity, h l r rfl rfl]

/-- Where no two errors of one node and step differ, the left errors stay as they are and each
other one comes in once. -/
theorem count_mergeErrors {left right : List DeviceError}
    (h : ∀ x ∈ left ++ right, ∀ y ∈ left ++ right, x.StandsFor y → x = y) (e : DeviceError) :
    (mergeErrors left right).count e =
      if e ∈ left then left.count e else if e ∈ right then 1 else 0 := by
  unfold mergeErrors
  induction right generalizing left with
  | nil =>
    rw [List.foldl_nil]
    split
    · rfl
    · rename_i he
      simpa using List.count_eq_zero.mpr he
  | cons x right ih =>
    rw [List.foldl_cons]
    by_cases hx : x ∈ left
    · have hany : (left.any fun m => m.nodeId == x.nodeId && m.stepId == x.stepId) = true :=
        List.any_eq_true.mpr ⟨x, hx, by simp⟩
      rw [if_pos hany, ih fun y hy z hz => h y (by simp at hy ⊢; tauto) z (by simp at hz ⊢; tauto)]
      by_cases he : e ∈ left
      · rw [if_pos he, if_pos he]
      · have hne : e ≠ x := fun hex => he (hex ▸ hx)
        simp [he, hne]
    · have hany : ¬ (left.any fun m => m.nodeId == x.nodeId && m.stepId == x.stepId) = true := by
        rintro hany
        obtain ⟨m, hm, hs⟩ := List.any_eq_true.mp hany
        simp only [Bool.and_eq_true, beq_iff_eq] at hs
        exact hx (h m (by simp [hm]) x (by simp) hs ▸ hm)
      rw [if_neg hany, ih fun y hy z hz => h y (by simpa using hy) z (by simpa using hz)]
      by_cases he : e ∈ left
      · have hne : e ≠ x := fun hex => hx (hex ▸ he)
        simp [he, hne.symm]
      · by_cases hex : e = x
        · subst hex
          simpa [he] using List.count_eq_zero.mpr he
        · simp [he, hex]

theorem mem_mergeErrors {left right : List DeviceError}
    (h : ∀ x ∈ left ++ right, ∀ y ∈ left ++ right, x.StandsFor y → x = y) (e : DeviceError) :
    e ∈ mergeErrors left right ↔ e ∈ left ∨ e ∈ right := by
  rw [← List.count_pos_iff, count_mergeErrors h]
  by_cases hl : e ∈ left
  · simp [hl]
  · by_cases hr : e ∈ right <;> simp [hl, hr]

theorem mergeTwoDevices_errors {left right merged : DeviceContext}
    (hagree : Agree DeviceContext.Records RecordedFact.Clash left right)
    (h : mergeTwoDevices left right = .ok merged) :
    merged.errors = mergeErrors left.errors right.errors := by
  have hi := (agree_recorded_iff.mp hagree).1
  have hextra : (List.zipWith (fun l r => (mergeScalarIdentity l r).2) left.identityFields
      right.identityFields).flatten = [] := by
    rw [List.flatten_eq_nil_iff]
    intro l hl
    obtain ⟨i, hl⟩ := List.getElem?_of_mem hl
    rw [List.getElem?_zipWith_eq_some] at hl
    obtain ⟨x, y, hx, hy, rfl⟩ := hl
    apply mergeScalarIdentity_snd
    rintro v w rfl rfl
    exact hi i v w hx hy
  simp only [mergeTwoDevices, bind_eq_ok] at h
  obtain ⟨_, _, _, _, _, _, _, _, _, _, _, _, hm⟩ := h
  cases hm
  simp only [hextra, List.append_nil]

theorem no_two_errors {left right : DeviceContext} (hl : left.Consistent) (hr : right.Consistent)
    (hagree : Agree DeviceContext.Records RecordedFact.Clash left right) :
    ∀ x ∈ left.errors ++ right.errors, ∀ y ∈ left.errors ++ right.errors,
      x.StandsFor y → x = y := by
  intro x hx y hy hs
  rcases List.mem_append.mp hx with hx | hx
  · rcases List.mem_append.mp hy with hy | hy
    · exact (agree_recorded_iff.mp hl).2 x hx y hy hs
    · exact (agree_recorded_iff.mp hagree).2 x hx y hy hs
  · rcases List.mem_append.mp hy with hy | hy
    · exact ((agree_recorded_iff.mp hagree).2 y hy x hx ⟨hs.1.symm, hs.2.symm⟩).symm
    · exact (agree_recorded_iff.mp hr).2 x hx y hy hs

/-- Copies that do not contradict each other give a device with the identity and the errors of
both. -/
theorem unites_devices : Unites DeviceContext.Consistent DeviceContext.Records RecordedFact.Clash
    mergeTwoDevices where
  union := by
    intro l r m hl hr hagree hm
    have hunion : ∀ p, m.Records p ↔ l.Records p ∨ r.Records p := by
      rintro (⟨i, v⟩ | e)
      · have hi := (agree_recorded_iff.mp hagree).1 i
        simp only [DeviceContext.Records, (mergeTwoDevices_identity hm).1, List.getElem?_zipWith]
        have hlen : l.identityFields.length = r.identityFields.length := rfl
        cases hx : l.identityFields[i]? with
        | none =>
          have hy : r.identityFields[i]? = none := by
            rw [List.getElem?_eq_none_iff] at hx ⊢
            omega
          simp [hy]
        | some x =>
          cases hy : r.identityFields[i]? with
          | none =>
            rw [List.getElem?_eq_none_iff, ← hlen, ← List.getElem?_eq_none_iff, hx] at hy
            cases hy
          | some y =>
            simp only [mergeScalarIdentity_fst, Option.some.injEq, Option.or_eq_some_iff]
            constructor
            · rintro (h | ⟨-, h⟩)
              · exact .inl h
              · exact .inr h
            · rintro (h | h)
              · exact .inl h
              · cases x with
                | none => exact .inr ⟨rfl, h⟩
                | some w =>
                  subst h
                  rw [hi w v hx hy]
                  exact .inl rfl
      · simp only [DeviceContext.Records, mergeTwoDevices_errors hagree hm]
        exact mem_mergeErrors (no_two_errors hl hr hagree) e
    refine ⟨?_, hunion⟩
    apply (Agree.of_union hunion).mpr
    exact ⟨((Agree.of_union hunion).mpr ⟨hl, hagree.symm fun h => h.symm⟩).symm fun h => h.symm,
      ((Agree.of_union hunion).mpr ⟨hagree, hr⟩).symm fun h => h.symm⟩

end Conflicts

section Contexts

/-- What an envelope carries that must not differ from branch to branch, and what is added up. -/
inductive ContextFact where
  | run (r : String × String × ℕ)
  | devices (p : String × Option DeviceFact)
  | pending (p : String × Option (String × Option (List String)))
  | metadata (p : String × Option Json)

def WorkflowContext.Has (c : WorkflowContext) : ContextFact → Prop
  | .run r => r = (c.runId, c.workflowId, c.schemaVersion)
  | .devices p => c.devices.Has DeviceContext.Has p
  | .pending p => c.pendingCommands.Has (Dict.Has (Matches fun v w => decide (v = w))) p
  | .metadata p => c.metadata.Has (Matches Json.pyEq) p

def ContextFact.Clash : ContextFact → ContextFact → Prop
  | .run r, .run r' => r ≠ r'
  | .devices p, .devices q => Dict.Clash DeviceFact.Clash p q
  | .pending p, .pending q =>
    Dict.Clash (Dict.Clash fun v w => ¬ Matches (fun v w => decide (v = w)) v w) p q
  | .metadata p, .metadata q => Dict.Clash (fun v w => ¬ Matches Json.pyEq v w) p q
  | _, _ => False

theorem ContextFact.Clash.symm {p q : ContextFact} (h : p.Clash q) : q.Clash p := by
  cases p <;> cases q
  case run.run => exact Ne.symm h
  case devices.devices => exact Dict.Clash.symm DeviceFact.Clash.symm h
  case pending.pending => exact Dict.Clash.symm (Dict.Clash.symm fun hne he => hne he.symm) h
  case metadata.metadata => exact Dict.Clash.symm (fun hne he => hne he.symm) h
  all_goals exact h

structure WorkflowContext.Valid (c : WorkflowContext) : Prop where
  devices : c.devices.Forall DeviceContext.Valid
  metadata : c.metadata.Forall ValidJson

structure WorkflowContext.Agrees (c d : WorkflowContext) : Prop where
  sameRun : SameRun c d
  devices : Agree (Dict.Has DeviceContext.Has) (Dict.Clash DeviceFact.Clash) c.devices d.devices
  pending : Agree (Dict.Has (Dict.Has (Matches fun v w => decide (v = w))))
    (Dict.Clash (Dict.Clash fun v w => ¬ Matches (fun v w => decide (v = w)) v w))
    c.pendingCommands d.pendingCommands
  metadata : Agree (Dict.Has (Matches Json.pyEq)) (Dict.Clash fun v w => ¬ Matches Json.pyEq v w)
    c.metadata d.metadata

theorem agree_contexts_iff {c d : WorkflowContext} :
    Agree WorkflowContext.Has ContextFact.Clash c d ↔ c.Agrees d := by
  constructor
  · intro h
    constructor
    · have hrun := not_not.mp (h (.run _) (.run _) rfl rfl)
      simpa [SameRun] using hrun
    · exact fun p q => h (.devices p) (.devices q)
    · exact fun p q => h (.pending p) (.pending q)
    · exact fun p q => h (.metadata p) (.metadata q)
  · rintro h (p | p | p | p) (q | q | q | q) hp hq hc
    · obtain ⟨h₁, h₂, h₃⟩ := h.sameRun
      obtain rfl := hp
      obtain rfl := hq
      exact hc (by rw [h₁, h₂, h₃])
    all_goals first
      | exact hc.elim
      | exact h.devices p q hp hq hc
      | exact h.pending p q hp hq hc
      | exact h.metadata p q hp hq hc

def mergeNext (base other : WorkflowContext) : Except String WorkflowContext := do
  assertSameInvariants base other
  mergeTwoContexts base other

theorem merges_pending : Merges (Dict.Forall (Dict.Forall fun _ => True))
    (Dict.Has (Dict.Has (Matches fun v w : List String => decide (v = w))))
    (Dict.Clash (Dict.Clash fun v w => ¬ Matches (fun v w => decide (v = w)) v w))
    mergePendingCommands :=
  Dict.merges_mergeWith fun _ => Dict.merges_mergeWith fun _ => merges_decide

theorem mergeNext_eq_ok {base other merged : WorkflowContext} :
    mergeNext base other = .ok merged ↔ SameRun base other ∧ ∃ devices pending metadata,
      Dict.mergeWith (fun _ => mergeTwoDevices) base.devices other.devices = .ok devices ∧
      mergePendingCommands base.pendingCommands other.pendingCommands = .ok pending ∧
      mergeMetadata base.metadata other.metadata = .ok metadata ∧
      merged = { base with devices, pendingCommands := pending, metadata } := by
  simp only [mergeNext, mergeTwoContexts, bind_eq_ok]
  constructor
  · rintro ⟨_, hrun, devices, hd, pending, hp, metadata, hm, he⟩
    cases he
    exact ⟨assertSameInvariants_iff.mp hrun, devices, pending, metadata, hd, hp, hm, rfl⟩
  · rintro ⟨hrun, devices, pending, metadata, hd, hp, hm, rfl⟩
    exact ⟨(), assertSameInvariants_iff.mpr hrun, devices, hd, pending, hp, metadata, hm, rfl⟩

/-- Two envelopes can be merged exactly when no facts of them clash. -/
theorem merges_contexts :
    Merges WorkflowContext.Valid WorkflowContext.Has ContextFact.Clash mergeNext where
  union := by
    intro c d m hc hd hagree hm
    have ha := agree_contexts_iff.mp hagree
    obtain ⟨hrun, devices, pending, metadata, hdev, hp, hmeta, rfl⟩ := mergeNext_eq_ok.mp hm
    obtain ⟨hdv, hdev⟩ := (Dict.merges_mergeWith fun _ => merges_devices).union hc.devices
      hd.devices ha.devices hdev
    have hp := (merges_pending.union (fun _ _ _ _ _ _ => trivial) (fun _ _ _ _ _ _ => trivial)
      ha.pending hp).2
    obtain ⟨hmv, hmeta⟩ := (Dict.merges_mergeWith fun _ => merges_json).union hc.metadata
      hd.metadata ha.metadata hmeta
    refine ⟨⟨hdv, hmv⟩, fun p => ?_⟩
    cases p with
    | run r =>
      obtain ⟨h₁, h₂, h₃⟩ := hrun
      simp [WorkflowContext.Has, h₁, h₂, h₃]
    | devices p => exact hdev p
    | pending p => exact hp p
    | metadata p => exact hmeta p
  succeeds := by
    intro c d hc hd
    rw [agree_contexts_iff]
    constructor
    · rintro ⟨m, hm⟩
      obtain ⟨hrun, devices, pending, metadata, hdev, hp, hmeta, rfl⟩ := mergeNext_eq_ok.mp hm
      constructor
      · exact hrun
      · exact ((Dict.merges_mergeWith fun _ => merges_devices).succeeds hc.devices hd.devices).mp
          ⟨_, hdev⟩
      · exact (merges_pending.succeeds (fun _ _ _ _ _ _ => trivial)
          (fun _ _ _ _ _ _ => trivial)).mp ⟨_, hp⟩
      · exact ((Dict.merges_mergeWith fun _ => merges_json).succeeds hc.metadata hd.metadata).mp
          ⟨_, hmeta⟩
    · intro h
      obtain ⟨_, hdev⟩ := ((Dict.merges_mergeWith fun _ => merges_devices).succeeds hc.devices
        hd.devices).mpr h.devices
      obtain ⟨_, hp⟩ := (merges_pending.succeeds (fun _ _ _ _ _ _ => trivial)
        (fun _ _ _ _ _ _ => trivial)).mpr h.pending
      obtain ⟨_, hmeta⟩ := ((Dict.merges_mergeWith fun _ => merges_json).succeeds hc.metadata
        hd.metadata).mpr h.metadata
      exact ⟨_, mergeNext_eq_ok.mpr ⟨h.sameRun, _, _, _, hdev, hp, hmeta, rfl⟩⟩

theorem unites_contexts : Unites (fun c => c.devices.Forall DeviceContext.Consistent)
    (fun c => c.devices.Has DeviceContext.Records) (Dict.Clash RecordedFact.Clash) mergeNext where
  union := by
    intro c d m hc hd hagree hm
    obtain ⟨-, devices, pending, metadata, hdev, -, -, rfl⟩ := mergeNext_eq_ok.mp hm
    exact (Dict.unites_mergeWith fun _ => unites_devices).union hc hd hagree hdev

end Contexts

section Order

structure DeviceContext.EqualUpToErrors (d e : DeviceContext) : Prop where
  identity : d.identityFields = e.identityFields
  attributeBags : d.attributeBags.Same (Dict.Same fun v w => Json.pyEq v w = true) e.attributeBags
  parsed : d.parsed.Same (fun v w => Json.pyEq v w = true) e.parsed
  runningConfigRef : d.runningConfigRef = e.runningConfigRef
  startupConfigRef : d.startupConfigRef = e.startupConfigRef
  commandResults : d.commandResults.Same (· = ·) e.commandResults
  dryRunResults : d.dryRunResults.Same (fun v w => Json.pyEq v w = true) e.dryRunResults
  requests : d.requests.Same (fun v w => sameRecords v w = true) e.requests
  capabilities : d.capabilities = e.capabilities
  status : d.status = e.status
  errors : d.errors.Perm e.errors

structure WorkflowContext.EqualUpToErrors (c d : WorkflowContext) : Prop where
  sameRun : SameRun c d
  devices : c.devices.Same DeviceContext.EqualUpToErrors d.devices
  pendingCommands : c.pendingCommands.Same (Dict.Same (· = ·)) d.pendingCommands
  metadata : c.metadata.Same (fun v w => Json.pyEq v w = true) d.metadata

/-- No two copies of a device disagree on an identity field, and no two errors on them share node
and step with different content. -/
def NoConflicts (contexts : List WorkflowContext) : Prop :=
  ∀ a ∈ contexts, ∀ b ∈ contexts, ∀ id d e, a.devices.get? id = some d →
    b.devices.get? id = some e →
    (∀ (i : ℕ) v w, d.identityFields[i]? = some (some v) → e.identityFields[i]? = some (some w) →
      v = w) ∧ ∀ x ∈ d.errors, ∀ y ∈ e.errors, x.StandsFor y → x = y

/-- What the first copy of a device decides: the results of the dry run, and how often the device
has each of the errors that the copy has. -/
structure DeviceContext.Follows (d m : DeviceContext) : Prop where
  dryRun : m.dryRunResults = d.dryRunResults
  errors : d.errors ⊆ m.errors
  count : ∀ e ∈ m.errors, m.errors.count e = max 1 (d.errors.count e)

theorem DeviceContext.Follows.refl (d : DeviceContext) : d.Follows d where
  dryRun := rfl
  errors := List.Subset.refl _
  count e he := by
    have := List.count_pos_iff.mpr he
    omega

theorem DeviceContext.Follows.trans {c d m : DeviceContext} (h : c.Follows d) (h' : d.Follows m) :
    c.Follows m where
  dryRun := h'.dryRun.trans h.dryRun
  errors := fun _ he => h'.errors (h.errors he)
  count e he := by
    have hm := h'.count e he
    by_cases hd : e ∈ d.errors
    · have := h.count e hd
      omega
    · have hc : e ∉ c.errors := fun hc => hd (h.errors hc)
      rw [List.count_eq_zero.mpr hd] at hm
      rw [hm, List.count_eq_zero.mpr hc]

theorem mergeTwoDevices_follows {left right merged : DeviceContext} (hl : left.Consistent)
    (hr : right.Consistent) (hagree : Agree DeviceContext.Records RecordedFact.Clash left right)
    (h : mergeTwoDevices left right = .ok merged) : left.Follows merged := by
  have hno := no_two_errors hl hr hagree
  have herrors := mergeTwoDevices_errors hagree h
  constructor
  · simp only [mergeTwoDevices, bind_eq_ok] at h
    obtain ⟨_, _, _, _, _, _, _, _, _, _, _, _, hm⟩ := h
    cases hm
    rfl
  · intro e he
    rw [herrors, mem_mergeErrors hno]
    exact .inl he
  · intro e he
    rw [herrors, mem_mergeErrors hno] at he
    rw [herrors, count_mergeErrors hno]
    by_cases hel : e ∈ left.errors
    · have := List.count_pos_iff.mpr hel
      rw [if_pos hel]
      omega
    · rw [if_neg hel, if_pos (he.resolve_left hel), List.count_eq_zero.mpr hel]
      rfl

/-- Of the copies of a device the first one decides. -/
theorem foldl_mergeNext_follows {others : List WorkflowContext} {base merged : WorkflowContext}
    (hv : ∀ c ∈ base :: others, c.devices.Forall DeviceContext.Consistent)
    (hl : (base :: others).Pairwise (Agree (fun c => c.devices.Has DeviceContext.Records)
      (Dict.Clash RecordedFact.Clash)))
    (h : others.foldlM mergeNext base = .ok merged) (id : String) (m : DeviceContext)
    (hm : merged.devices.get? id = some m) :
    (∀ d, base.devices.get? id = some d → d.Follows m) ∧
      ∃ c ∈ base :: others, ∃ d, c.devices.get? id = some d ∧ d.Follows m := by
  induction others generalizing base with
  | nil =>
    cases h
    refine ⟨fun d hd => ?_, merged, by simp, m, hm, .refl m⟩
    rw [hm, Option.some.injEq] at hd
    exact hd ▸ .refl m
  | cons other others ih =>
    rw [List.foldlM_cons, bind_eq_ok] at h
    obtain ⟨next, hnext, h⟩ := h
    simp only [List.pairwise_cons, List.mem_cons, forall_eq_or_imp] at hl hv
    obtain ⟨hnv, hnp⟩ := unites_contexts.union hv.1 hv.2.1 hl.1.1 hnext
    obtain ⟨hfirst, c, hc, d, hd, hdm⟩ := @ih next (by simpa using ⟨hnv, hv.2.2⟩) (by
      refine List.pairwise_cons.mpr ⟨fun c hc => ?_, hl.2.2⟩
      exact (Agree.of_union hnp).mpr ⟨hl.1.2 c hc, hl.2.1 c hc⟩) h
    obtain ⟨-, devices, _, _, hdev, -, -, rfl⟩ := mergeNext_eq_ok.mp hnext
    have hboth := Dict.get?_mergeWith hdev id
    -- the base's copy decides on the next one, and with it on the rest
    have hbase : ∀ d, base.devices.get? id = some d → ∃ x, devices.get? id = some x ∧
        d.Follows x := by
      intro d hd
      rw [hd] at hboth
      cases he : other.devices.get? id with
      | none =>
        rw [he] at hboth
        exact ⟨d, (Except.ok.inj hboth).symm, .refl d⟩
      | some e =>
        rw [he] at hboth
        obtain ⟨x, hx, hxd⟩ := map_eq_ok.mp hboth
        exact ⟨x, hxd.symm, mergeTwoDevices_follows (hv.1 id d hd) (hv.2.1 id e he)
          (Dict.agree_iff.mp hl.1.1 id d e hd he) hx⟩
    have hkeep : ∀ d, base.devices.get? id = some d → d.Follows m := by
      intro d hd
      obtain ⟨x, hx, hdx⟩ := hbase d hd
      exact hdx.trans (hfirst x hx)
    refine ⟨hkeep, ?_⟩
    rcases List.mem_cons.mp hc with rfl | hc
    · cases hb : base.devices.get? id with
      | some b => exact ⟨base, by simp, b, hb, hkeep b hb⟩
      | none =>
        rw [hb] at hboth
        have ho : other.devices.get? id = some d := (Except.ok.inj hboth).trans hd
        exact ⟨other, by simp, d, ho, hdm⟩
    · exact ⟨c, by simp [hc], d, hd, hdm⟩

/-- Copies of which the same is known are equal, with equal dry runs and error counts. -/
theorem same_devices {c d : DeviceContext} (hc : c.Valid) (hd : d.Valid)
    (hfacts : ∀ p, c.Has p ↔ d.Has p) (hrecords : ∀ p, c.Records p ↔ d.Records p)
    (hdry : c.dryRunResults.Same (fun v w => Json.pyEq v w = true) d.dryRunResults)
    (hcount : ∀ e, c.errors.count e = d.errors.count e) : c.EqualUpToErrors d where
  identity := by
    apply List.ext_getElem?
    intro i
    have hlen : c.identityFields.length = d.identityFields.length := rfl
    cases hx : c.identityFields[i]? with
    | none =>
      rw [List.getElem?_eq_none_iff, hlen, ← List.getElem?_eq_none_iff] at hx
      exact hx.symm
    | some x =>
      cases hy : d.identityFields[i]? with
      | none =>
        rw [List.getElem?_eq_none_iff, ← hlen, ← List.getElem?_eq_none_iff, hx] at hy
        cases hy
      | some y =>
        have hxy : ∀ v, x = some v ↔ y = some v := by
          intro v
          simpa [DeviceContext.Records, hx, hy] using hrecords (.identity i v)
        rw [Option.ext hxy]
  attributeBags := Dict.same_of_has same_values hc.bags hd.bags fun p => hfacts (.bags p)
  parsed := same_values _ _ hc.parsed hd.parsed fun p => hfacts (.parsed p)
  runningConfigRef := Option.ext fun ref => hfacts (.running ref)
  startupConfigRef := Option.ext fun ref => hfacts (.startup ref)
  commandResults := same_decided _ _ (fun _ _ _ => trivial) (fun _ _ _ => trivial)
    fun p => hfacts (.commands p)
  dryRunResults := hdry
  requests := Dict.same_of_has (same_of_matches sameRecords_refl) hc.requests hd.requests
    fun p => hfacts (.requests p)
  capabilities := Finset.ext fun p => hfacts (.capability p)
  status := by
    apply DeviceStatus.rank_injective
    apply le_antisymm
    · exact (hfacts (.status c.status)).mp le_rfl
    · exact (hfacts (.status d.status)).mpr le_rfl
  errors := List.perm_iff_count.mpr hcount

theorem mergeWorkflowContexts_succeeds {contexts : List WorkflowContext}
    (hv : ∀ c ∈ contexts, c.Valid) : (∃ m, mergeWorkflowContexts contexts = .ok m) ↔
      contexts ≠ [] ∧ contexts.Pairwise WorkflowContext.Agrees := by
  cases contexts with
  | nil =>
    constructor
    · rintro ⟨m, hm⟩
      cases hm
    · rintro ⟨hne, -⟩
      exact absurd rfl hne
  | cons base others =>
    rw [← List.Pairwise.iff fun _ _ => agree_contexts_iff]
    have h : (∃ m, mergeWorkflowContexts (base :: others) = .ok m) ↔ _ :=
      merges_contexts.fold_succeeds hv
    simp [h]

theorem mergeWorkflowContexts_facts {contexts : List WorkflowContext} {merged : WorkflowContext}
    (hv : ∀ c ∈ contexts, c.Valid) (h : mergeWorkflowContexts contexts = .ok merged) :
    merged.Valid ∧ ∀ p, merged.Has p ↔ ∃ c ∈ contexts, c.Has p := by
  have hl := ((mergeWorkflowContexts_succeeds hv).mp ⟨merged, h⟩).2
  cases contexts with
  | nil => cases h
  | cons base others =>
    exact merges_contexts.toUnites.fold hv (hl.imp fun h => agree_contexts_iff.mpr h) h

theorem noConflicts_iff {contexts : List WorkflowContext} : NoConflicts contexts ↔
    ∀ a ∈ contexts, ∀ b ∈ contexts, Agree (fun c => c.devices.Has DeviceContext.Records)
      (Dict.Clash RecordedFact.Clash) a b := by
  have hiff : ∀ a b : WorkflowContext, Agree (fun c : WorkflowContext =>
      c.devices.Has DeviceContext.Records) (Dict.Clash RecordedFact.Clash) a b ↔
      Agree (Dict.Has DeviceContext.Records) (Dict.Clash RecordedFact.Clash) a.devices b.devices :=
    fun a b => Iff.rfl
  simp only [NoConflicts, hiff, Dict.agree_iff, agree_recorded_iff]

theorem NoConflicts.consistent {contexts : List WorkflowContext} (h : NoConflicts contexts)
    (c : WorkflowContext) (hc : c ∈ contexts) : c.devices.Forall DeviceContext.Consistent := by
  intro id d hd
  exact agree_recorded_iff.mpr (h c hc c hc id d d hd hd)

theorem NoConflicts.perm {contexts contexts' : List WorkflowContext} (hp : contexts'.Perm contexts)
    (h : NoConflicts contexts) : NoConflicts contexts' :=
  fun a ha b hb => h a (hp.mem_iff.mp ha) b (hp.mem_iff.mp hb)

theorem mergeWorkflowContexts_records {contexts : List WorkflowContext} {merged : WorkflowContext}
    (hn : NoConflicts contexts) (h : mergeWorkflowContexts contexts = .ok merged) :
    (∀ p, merged.devices.Has DeviceContext.Records p ↔
      ∃ c ∈ contexts, c.devices.Has DeviceContext.Records p) ∧
    ∀ id m, merged.devices.get? id = some m →
      (∀ d, contexts.head?.bind (fun c => c.devices.get? id) = some d → d.Follows m) ∧
      ∃ c ∈ contexts, ∃ d, c.devices.get? id = some d ∧ d.Follows m := by
  cases contexts with
  | nil => cases h
  | cons base others =>
    have hl := List.pairwise_of_forall_mem_list (noConflicts_iff.mp hn)
    exact ⟨(unites_contexts.fold hn.consistent hl h).2,
      foldl_mergeNext_follows hn.consistent hl h⟩

section Self

theorem mergeAgreeing_self {β : Type} {same : β → β → Bool} {message : String → String} {d : Dict β}
    (h : ∀ k v, d.get? k = some v → same v v = true) : mergeAgreeing same message d d = .ok d := by
  apply Dict.mergeWith_self
  intro k v hv
  exact if_pos (h k v hv)

theorem mergeErrors_self (errors : List DeviceError) : mergeErrors errors errors = errors := by
  have hkeep : ∀ l : List DeviceError, l ⊆ errors → mergeErrors errors l = errors := by
    intro l
    induction l with
    | nil => exact fun _ => rfl
    | cons e l ih =>
      intro hl
      have hany : (errors.any fun m => m.nodeId == e.nodeId && m.stepId == e.stepId) = true :=
        List.any_eq_true.mpr ⟨e, hl List.mem_cons_self, by simp⟩
      rw [mergeErrors, List.foldl_cons, if_pos hany]
      exact ih fun x hx => hl (List.mem_cons_of_mem _ hx)
  exact hkeep errors fun _ he => he

theorem mergeArtifactRef_self (ref : Option ArtifactRef) : mergeArtifactRef ref ref = .ok ref := by
  cases ref <;> simp [mergeArtifactRef]

theorem mergeScalarIdentity_self (v : Option String) : mergeScalarIdentity v v = (v, []) := by
  cases v <;> simp [mergeScalarIdentity]

theorem mergeTwoDevices_self {d : DeviceContext} (hd : d.Valid) : mergeTwoDevices d d = .ok d := by
  have hbags : mergeAttributeBags d.attributeBags d.attributeBags = .ok d.attributeBags :=
    Dict.mergeWith_self fun k bag hbag => mergeAgreeing_self fun k' v hv =>
      Json.pyEq_refl v (hd.bags k bag hbag k' v hv)
  have hparsed : mergeShallowDicts "parsed" d.parsed d.parsed = .ok d.parsed :=
    mergeAgreeing_self fun k v hv => Json.pyEq_refl v (hd.parsed k v hv)
  have hcommands : mergeCommandResults d.commandResults d.commandResults = .ok d.commandResults :=
    mergeAgreeing_self fun k v hv => by simp
  have hrequests : mergeRequests d.requests d.requests = .ok d.requests :=
    mergeAgreeing_self fun k v hv => sameRecords_refl v (hd.requests k v hv)
  have hextra : (List.zipWith (fun l r => (mergeScalarIdentity l r).2) d.identityFields
      d.identityFields).flatten = [] := by
    simp [DeviceContext.identityFields, mergeScalarIdentity_self]
  simp only [mergeTwoDevices, hbags, hparsed, mergeArtifactRef_self, hcommands, hrequests, hextra,
    mergeScalarIdentity_self, List.append_nil, mergeErrors_self, Finset.union_self,
    worstDeviceStatus, le_refl, if_true]
  rfl

theorem mergeWorkflowContexts_self {c : WorkflowContext} (hc : c.Valid) :
    mergeWorkflowContexts [c, c] = .ok c := by
  have hdevices : Dict.mergeWith (fun _ => mergeTwoDevices) c.devices c.devices = .ok c.devices :=
    Dict.mergeWith_self fun k d hd => mergeTwoDevices_self (hc.devices k d hd)
  have hpending : mergePendingCommands c.pendingCommands c.pendingCommands =
      .ok c.pendingCommands :=
    Dict.mergeWith_self fun _ d _ => mergeAgreeing_self fun k v hv => by simp
  have hmetadata : mergeMetadata c.metadata c.metadata = .ok c.metadata :=
    mergeAgreeing_self fun k v hv => Json.pyEq_refl v (hc.metadata k v hv)
  have hnext : mergeNext c c = .ok c :=
    mergeNext_eq_ok.mpr ⟨⟨rfl, rfl, rfl⟩, _, _, _, hdevices, hpending, hmetadata, rfl⟩
  show [c].foldlM mergeNext c = .ok c
  rw [List.foldlM_cons, hnext]
  rfl

end Self

/-- The branches can be merged in one order if in the other; if no conflict is recorded, both
orders give the same but for the order of the errors; and a branch merged with itself stays as it
is. -/
def OrderIndependent (contexts : List WorkflowContext) : Prop :=
  (∀ l l' : List WorkflowContext, l.Perm contexts → l'.Perm contexts →
    ((∃ message, mergeWorkflowContexts l = .error message) ↔
      ∃ message, mergeWorkflowContexts l' = .error message)) ∧
  (NoConflicts contexts → ∀ l l' : List WorkflowContext, l.Perm contexts → l'.Perm contexts →
    ∀ m m', mergeWorkflowContexts l = .ok m → mergeWorkflowContexts l' = .ok m' →
      m.EqualUpToErrors m') ∧
  ∀ c ∈ contexts, mergeWorkflowContexts [c, c] = .ok c

/-- Two copies of a device are interchangeable where the first one decides. -/
def DeviceContext.Interchangeable (d e : DeviceContext) : Prop :=
  d.dryRunResults.Same (fun v w => Json.pyEq v w = true) e.dryRunResults ∧
    ∀ x, max 1 (d.errors.count x) = max 1 (e.errors.count x)

theorem DeviceContext.Follows.count_eq {c d m n : DeviceContext} (hc : c.Follows m)
    (hd : d.Follows n) (hcd : ∀ x, max 1 (c.errors.count x) = max 1 (d.errors.count x))
    (hmem : ∀ x, x ∈ m.errors ↔ x ∈ n.errors) (x : DeviceError) :
    m.errors.count x = n.errors.count x := by
  by_cases hx : x ∈ m.errors
  · rw [hc.count x hx, hd.count x ((hmem x).mp hx), hcd]
  · rw [List.count_eq_zero.mpr hx, List.count_eq_zero.mpr fun h => hx ((hmem x).mpr h)]

theorem DeviceContext.Follows.interchangeable {c d m n : DeviceContext} (hc : c.Follows m)
    (hd : d.Follows n) (h : m.EqualUpToErrors n) : c.Interchangeable d := by
  refine ⟨hc.dryRun ▸ hd.dryRun ▸ h.dryRunResults, fun x => ?_⟩
  by_cases hx : x ∈ m.errors
  · rw [← hc.count x hx, ← hd.count x (h.errors.mem_iff.mp hx), h.errors.count_eq]
  · have hxc : x ∉ c.errors := fun h => hx (hc.errors h)
    have hxd : x ∉ d.errors := fun hxd => hx (h.errors.mem_iff.mpr (hd.errors hxd))
    rw [List.count_eq_zero.mpr hxc, List.count_eq_zero.mpr hxd]

/-- The order of the branches does not matter exactly when copies of a device are interchangeable,
wherever they can be merged without conflict. -/
theorem orderIndependent_iff {contexts : List WorkflowContext} (hv : ∀ c ∈ contexts, c.Valid) :
    OrderIndependent contexts ↔
      (contexts.Pairwise WorkflowContext.Agrees → NoConflicts contexts →
        ∀ a ∈ contexts, ∀ b ∈ contexts, ∀ id d e, a.devices.get? id = some d →
          b.devices.get? id = some e → d.Interchangeable e) := by
  have hvp : ∀ {l : List WorkflowContext}, l.Perm contexts → ∀ c ∈ l, c.Valid :=
    fun hp c hc => hv c (hp.mem_iff.mp hc)
  have hagree : ∀ {l : List WorkflowContext}, l.Perm contexts → (l.Pairwise WorkflowContext.Agrees ↔
      contexts.Pairwise WorkflowContext.Agrees) := by
    intro l hp
    simp only [← List.Pairwise.iff fun _ _ => agree_contexts_iff]
    exact agree_perm ContextFact.Clash.symm hp
  have hsucceeds : ∀ {l : List WorkflowContext}, l.Perm contexts →
      ((∃ m, mergeWorkflowContexts l = .ok m) ↔
      contexts ≠ [] ∧ contexts.Pairwise WorkflowContext.Agrees) := by
    intro l hp
    rw [mergeWorkflowContexts_succeeds (hvp hp), hagree hp]
    simp only [ne_eq, ← List.length_eq_zero_iff, hp.length_eq]
  constructor
  · rintro ⟨-, hsame, -⟩ hpair hn a ha b hb id d e hd he
    -- each of the two copies is the first one in some order
    have hfirst : ∀ c ∈ contexts, ∀ x, c.devices.get? id = some x → ∃ l m y, l.Perm contexts ∧
        mergeWorkflowContexts l = .ok m ∧ m.devices.get? id = some y ∧ x.Follows y := by
      intro c hc x hx
      obtain ⟨s, t, he⟩ := List.append_of_mem hc
      have hp : (c :: (s ++ t)).Perm contexts := he ▸ List.perm_middle.symm
      obtain ⟨m, hm⟩ := (hsucceeds hp).mpr ⟨List.ne_nil_of_mem hc, hpair⟩
      obtain ⟨hrecords, hfollows⟩ := mergeWorkflowContexts_records (hn.perm hp) hm
      obtain ⟨y, hy, -⟩ := (hrecords (id, none)).mpr ⟨c, by simp, x, hx, by simp⟩
      exact ⟨_, m, y, hp, hm, hy, (hfollows id y hy).1 x (by simpa using hx)⟩
    obtain ⟨l, m, x, hp, hm, hx, hdx⟩ := hfirst a ha d hd
    obtain ⟨l', m', x', hp', hm', hx', hex⟩ := hfirst b hb e he
    have hdev := (hsame hn l l' hp hp' m m' hm hm').devices id
    rw [hx, hx'] at hdev
    cases hdev with
    | some hdev => exact hdx.interchangeable hex hdev
  · intro h
    refine ⟨fun l l' hp hp' => ?_, fun hn l l' hp hp' m m' hm hm' => ?_, fun c hc =>
      mergeWorkflowContexts_self (hv c hc)⟩
    · have hiff := (hsucceeds hp).trans (hsucceeds hp').symm
      cases hm : mergeWorkflowContexts l with
      | error e =>
        cases hm' : mergeWorkflowContexts l' with
        | error e' => simp
        | ok m' => simp [hm, hm'] at hiff
      | ok m =>
        cases hm' : mergeWorkflowContexts l' with
        | error e' => simp [hm, hm'] at hiff
        | ok m' => simp
    · obtain ⟨hmv, hmf⟩ := mergeWorkflowContexts_facts (hvp hp) hm
      obtain ⟨hmv', hmf'⟩ := mergeWorkflowContexts_facts (hvp hp') hm'
      obtain ⟨hrec, hfol⟩ := mergeWorkflowContexts_records (hn.perm hp) hm
      obtain ⟨hrec', hfol'⟩ := mergeWorkflowContexts_records (hn.perm hp') hm'
      have hfacts : ∀ p, m.Has p ↔ m'.Has p := by
        intro p
        simp only [hmf, hmf', hp.mem_iff, hp'.mem_iff]
      have hrecords : ∀ p, m.devices.Has DeviceContext.Records p ↔
          m'.devices.Has DeviceContext.Records p := by
        intro p
        simp only [hrec, hrec', hp.mem_iff, hp'.mem_iff]
      have hcopies := h ((hsucceeds hp).mp ⟨m, hm⟩).2 hn
      constructor
      · have hrun := (hfacts (.run _)).mp rfl
        simpa [SameRun, WorkflowContext.Has] using hrun
      · intro id
        have hid := hrecords (id, none)
        cases hx : m.devices.get? id with
        | none =>
          cases hy : m'.devices.get? id with
          | none => exact .none
          | some y => simp [Dict.Has, hx, hy] at hid
        | some x =>
          cases hy : m'.devices.get? id with
          | none => simp [Dict.Has, hx, hy] at hid
          | some y =>
            obtain ⟨a, ha, d, hd, hdx⟩ := (hfol id x hx).2
            obtain ⟨b, hb, e, he, hey⟩ := (hfol' id y hy).2
            obtain ⟨hdry, hcount⟩ := hcopies a (hp.mem_iff.mp ha) b (hp'.mem_iff.mp hb) id d e hd he
            have hxy : ∀ p, x.Records p ↔ y.Records p := by
              intro p
              simpa [Dict.Has, hx, hy] using hrecords (id, some p)
            refine .some (same_devices (hmv.devices id x hx) (hmv'.devices id y hy) ?_ hxy ?_ ?_)
            · intro p
              simpa [WorkflowContext.Has, Dict.Has, hx, hy] using hfacts (.devices (id, some p))
            · rw [hdx.dryRun, hey.dryRun]
              exact hdry
            · exact hdx.count_eq hey hcount fun z => hxy (.error z)
      · exact Dict.same_of_has same_decided (fun _ _ _ _ _ _ => trivial)
          (fun _ _ _ _ _ _ => trivial) fun p => hfacts (.pending p)
      · exact same_values _ _ hmv.metadata hmv'.metadata fun p => hfacts (.metadata p)

def branchOf (device : DeviceContext) : WorkflowContext where
  runId := "run"
  workflowId := "workflow"
  devices := (∅ : Dict DeviceContext).insert "d1" device

theorem branchOf_device {device d : DeviceContext} {id : String}
    (h : (branchOf device).devices.get? id = some d) : d = device := by
  simp only [branchOf, Dict.get?_insert, Dict.get?_empty] at h
  split at h
  · exact (Option.some.inj h).symm
  · cases h

theorem branchOf_valid {device : DeviceContext} (h : device.Valid) : (branchOf device).Valid where
  devices _ _ hd := branchOf_device hd ▸ h
  metadata := by rintro k v ⟨⟩

theorem forall_insert {k : String} {v : Json} (h : ValidJson v) :
    ((∅ : Dict Json).insert k v).Forall ValidJson := by
  intro k' v' hv
  simp only [Dict.get?_insert, Dict.get?_empty] at hv
  split at hv
  · exact Option.some.inj hv ▸ h
  · cases hv

def parsedDevice (key : String) : DeviceContext where
  id := "d1"
  name := "d1"
  hostname := "d1"
  parsed := (∅ : Dict Json).insert key (.arr [])

theorem parsedDevice_valid (key : String) : (parsedDevice key).Valid where
  bags := by rintro k v ⟨⟩
  parsed := forall_insert rfl
  dryRun := by rintro k v ⟨⟩
  requests := by rintro k v ⟨⟩

/-- Two branches that parse different outputs give the same in either order. -/
theorem parsedBranches_orderIndependent :
    OrderIndependent [branchOf (parsedDevice "interfaces"), branchOf (parsedDevice "routes")] := by
  have hbranch : ∀ c ∈ [branchOf (parsedDevice "interfaces"), branchOf (parsedDevice "routes")],
      ∃ key, c = branchOf (parsedDevice key) := by
    intro c hc
    rcases List.mem_pair.mp hc with rfl | rfl
    · exact ⟨_, rfl⟩
    · exact ⟨_, rfl⟩
  apply (orderIndependent_iff _).mpr
  · intro _ _ a ha b hb id d e hd he
    obtain ⟨key, rfl⟩ := hbranch a ha
    obtain ⟨key', rfl⟩ := hbranch b hb
    obtain rfl := branchOf_device hd
    obtain rfl := branchOf_device he
    exact ⟨fun _ => .none, fun _ => rfl⟩
  · intro c hc
    obtain ⟨key, rfl⟩ := hbranch c hc
    exact branchOf_valid (parsedDevice_valid key)

def dryRunDevice (nodeId : String) : DeviceContext where
  id := "d1"
  name := "d1"
  hostname := "d1"
  dryRunResults := (∅ : Dict Json).insert nodeId (.obj [("changed", .bool true)])

theorem dryRunDevice_valid (nodeId : String) : (dryRunDevice nodeId).Valid where
  bags := by rintro k v ⟨⟩
  parsed := by rintro k v ⟨⟩
  dryRun := forall_insert rfl
  requests := by rintro k v ⟨⟩

theorem dryRunBranches_merge (a b : String) :
    mergeWorkflowContexts [branchOf (dryRunDevice a), branchOf (dryRunDevice b)] =
      .ok (branchOf (dryRunDevice a)) := rfl

/-- Of the dry-run results of two branches, those of the first one stay. -/
theorem dryRunResults_lost : ¬ ∀ contexts : List WorkflowContext, (∀ c ∈ contexts, c.Valid) →
    OrderIndependent contexts := by
  intro h
  have hbranch : ∀ c ∈ [branchOf (dryRunDevice "a"), branchOf (dryRunDevice "b")],
      ∃ nodeId, c = branchOf (dryRunDevice nodeId) := by
    intro c hc
    rcases List.mem_pair.mp hc with rfl | rfl
    · exact ⟨_, rfl⟩
    · exact ⟨_, rfl⟩
  obtain ⟨-, hsame, -⟩ := h [branchOf (dryRunDevice "a"), branchOf (dryRunDevice "b")] (by
    intro c hc
    obtain ⟨nodeId, rfl⟩ := hbranch c hc
    exact branchOf_valid (dryRunDevice_valid nodeId))
  have hconflicts : NoConflicts [branchOf (dryRunDevice "a"), branchOf (dryRunDevice "b")] := by
    intro c hc c' hc' id d e hd he
    obtain ⟨nodeId, rfl⟩ := hbranch c hc
    obtain ⟨nodeId', rfl⟩ := hbranch c' hc'
    obtain rfl := branchOf_device hd
    obtain rfl := branchOf_device he
    refine ⟨fun i v w hv hw => ?_, by rintro x ⟨⟩⟩
    exact Option.some.inj (Option.some.inj (hv.symm.trans hw))
  have hequal := hsame hconflicts _ _ (.refl _) (.swap _ _ _) _ _ (dryRunBranches_merge "a" "b")
    (dryRunBranches_merge "b" "a")
  have hdevice := hequal.devices "d1"
  simp only [branchOf, Dict.get?_insert, if_true] at hdevice
  cases hdevice with
  | some hdevice =>
    have hdry := hdevice.dryRunResults "a"
    cases hdry

end Order

end Manus
