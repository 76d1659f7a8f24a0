import Manus.Context.Merge
import Manus.Lib.SkipSum
import Mathlib.Algebra.Group.Pi.Lemmas
import Mathlib.Algebra.Group.WithOne.Basic
import Mathlib.Algebra.Ring.Int.Defs
import Mathlib.Data.List.Perm.Basic

/-! # The order of fan-out children

The results of fan-out children are merged one after another. Devices and
pending commands do not depend on the order of the children; counters do, as
soon as a partial sum happens to equal the next child's counter.
-/

namespace Manus

section Amounts

/-- What a counter counts: a plain number, or a number under each of some names. -/
def Json.amounts : Json → Option String → WithZero ℤ
  | .int n, none => (n : WithZero ℤ)
  | .obj fields, some name =>
    match (fields.lookup name).bind Json.asInt? with
    | some n => (n : WithZero ℤ)
    | none => 0
  | _, _ => 0

def amountsValue : (Option String → WithZero ℤ) →+ (Option String → ℤ) :=
  (WithZero.lift (AddHom.id ℤ)).compLeft (Option String)

theorem amounts_null (v : Option String → WithZero ℤ) (h : amountsValue v = 0) : v + v = v := by
  funext i
  have hi : WithZero.lift (AddHom.id ℤ) (v i) = 0 := congrFun h i
  rw [Pi.add_apply]
  cases hv : v i using WithZero.recZeroCoe with
  | zero => exact add_zero 0
  | coe n =>
    rw [hv, WithZero.lift_coe] at hi
    obtain rfl : n = 0 := hi
    rw [← WithZero.coe_add, add_zero]

def IsCounter (key : String) : Json → Prop
  | .int _ => ["_count", ".total", "_total"].any (endsWith key) = true
  | .obj fields => endsWith key "_counts" = true ∧ isCountDict (.obj fields) = true ∧
      (fields.map Prod.fst).Nodup
  | _ => False

def OwnKey (ownNodeId : Option String) (key : String) : Prop :=
  ownNodeId.any (fun n => startsWith key (n ++ ".")) = true

theorem isCountDict_lookup {fields : List (String × Json)} (h : isCountDict (.obj fields) = true)
    {name : String} {v : Json} (hv : fields.lookup name = some v) : ∃ n, v = .int n := by
  obtain ⟨l₁, l₂, hl, -⟩ := List.lookup_eq_some_iff.mp hv
  have hmem : (name, v) ∈ fields := by
    rw [hl]
    simp
  have hcount := List.all_eq_true.mp h _ hmem
  cases v with
  | int n => exact ⟨n, rfl⟩
  | _ => cases hcount

theorem amounts_obj {fields : List (String × Json)} (h : isCountDict (.obj fields) = true)
    (name : String) : (Json.obj fields).amounts (some name) = 0 ∧ fields.lookup name = none ∨
      ∃ n : ℤ, (Json.obj fields).amounts (some name) = n ∧ fields.lookup name = some (.int n) := by
  simp only [Json.amounts]
  cases hv : fields.lookup name with
  | none => exact .inl ⟨rfl, rfl⟩
  | some v =>
    obtain ⟨n, rfl⟩ := isCountDict_lookup h hv
    exact .inr ⟨n, rfl, rfl⟩

theorem pyEqFields_iff {xs ys : List (String × Json)} :
    Json.pyEqFields xs ys = true ↔
      ∀ k x, (k, x) ∈ xs → ∃ y, ys.lookup k = some y ∧ Json.pyEq x y = true := by
  induction xs with
  | nil => simp [Json.pyEqFields]
  | cons p xs ih =>
    obtain ⟨k, x⟩ := p
    simp only [Json.pyEqFields, Bool.and_eq_true, ih, List.mem_cons, Prod.mk.injEq]
    constructor
    · rintro ⟨hx, hxs⟩ k' x' (⟨rfl, rfl⟩ | hmem)
      · cases hy : ys.lookup k' with
        | none => simp [hy] at hx
        | some y =>
          rw [hy] at hx
          exact ⟨y, rfl, hx⟩
      · exact hxs k' x' hmem
    · intro h
      refine ⟨?_, fun k' x' hmem => h k' x' (.inr hmem)⟩
      obtain ⟨y, hy, hxy⟩ := h k x (.inl ⟨rfl, rfl⟩)
      rw [hy]
      exact hxy

theorem lookup_isSome_iff {fields : List (String × Json)} {name : String} :
    (fields.lookup name).isSome ↔ name ∈ fields.map Prod.fst := by
  rw [Option.isSome_iff_ne_none, ne_eq, List.lookup_eq_none_iff]
  constructor
  · intro h
    by_contra hmem
    refine h fun p hp => ?_
    simpa using fun he : name = p.1 => hmem (List.mem_map.mpr ⟨p, hp, he.symm⟩)
  · rintro h hall
    obtain ⟨p, hp, rfl⟩ := List.mem_map.mp h
    exact absurd (hall p hp) (by simp)

theorem mem_of_lookup {fields : List (String × Json)} {name : String} {v : Json}
    (h : fields.lookup name = some v) : (name, v) ∈ fields := by
  obtain ⟨l₁, l₂, hl, -⟩ := List.lookup_eq_some_iff.mp h
  rw [hl]
  simp

theorem lookup_of_mem {fields : List (String × Json)} (hn : (fields.map Prod.fst).Nodup)
    {name : String} {v : Json} (h : (name, v) ∈ fields) : fields.lookup name = some v := by
  have := Dict.get?_eq_some_iff (d := ⟨fields, hn⟩) (k := name) (v := v)
  exact this.mpr h

theorem counter_kinds {key : String}
    (h : ["_count", ".total", "_total"].any (endsWith key) = true)
    (h' : endsWith key "_counts" = true) : False := by
  obtain ⟨suffix, hmem, hs⟩ := List.any_eq_true.mp h
  have hs : suffix.toList <:+ key.toList := List.isSuffixOf_iff_suffix.mp hs
  have hs' : "_counts".toList <:+ key.toList := List.isSuffixOf_iff_suffix.mp h'
  have hne : ∀ suffix ∈ ["_count", ".total", "_total"],
      ¬ suffix.toList <:+ "_counts".toList ∧ ¬ "_counts".toList <:+ suffix.toList := by decide
  rcases List.suffix_or_suffix_of_suffix hs hs' with hc | hc
  · exact (hne suffix hmem).1 hc
  · exact (hne suffix hmem).2 hc

theorem lookup_eq_of_amounts {fields fields' : List (String × Json)}
    (h : isCountDict (.obj fields) = true) (h' : isCountDict (.obj fields') = true)
    (he : (Json.obj fields).amounts = (Json.obj fields').amounts) (name : String) :
    fields.lookup name = fields'.lookup name := by
  have hname := congrFun he (some name)
  rcases amounts_obj h name with ⟨ha, hl⟩ | ⟨n, ha, hl⟩
  · rcases amounts_obj h' name with ⟨ha', hl'⟩ | ⟨n', ha', hl'⟩
    · rw [hl, hl']
    · rw [ha, ha'] at hname
      exact absurd hname.symm WithZero.coe_ne_zero
  · rcases amounts_obj h' name with ⟨ha', hl'⟩ | ⟨n', ha', hl'⟩
    · rw [ha, ha'] at hname
      exact absurd hname WithZero.coe_ne_zero
    · rw [ha, ha', WithZero.coe_inj] at hname
      rw [hl, hl', hname]

theorem amounts_eq_of_lookup {fields fields' : List (String × Json)}
    (he : ∀ name, fields.lookup name = fields'.lookup name) :
    (Json.obj fields).amounts = (Json.obj fields').amounts := by
  funext i
  cases i with
  | none => rfl
  | some name => simp only [Json.amounts, he]

theorem pyEq_obj_iff {fields fields' : List (String × Json)}
    (h : isCountDict (.obj fields) = true) (hn : (fields.map Prod.fst).Nodup)
    (h' : isCountDict (.obj fields') = true) (hn' : (fields'.map Prod.fst).Nodup) :
    Json.pyEq (.obj fields) (.obj fields') = true ↔
      (Json.obj fields).amounts = (Json.obj fields').amounts := by
  simp only [Json.pyEq, Bool.and_eq_true, beq_iff_eq, pyEqFields_iff]
  constructor
  · rintro ⟨hlength, hall⟩
    have hsome : ∀ name n, fields.lookup name = some (.int n) →
        fields'.lookup name = some (.int n) := by
      intro name n hl
      obtain ⟨y, hy, hxy⟩ := hall name _ (mem_of_lookup hl)
      obtain ⟨m, rfl⟩ := isCountDict_lookup h' hy
      rw [hy]
      simpa [Json.pyEq, Json.asInt?] using hxy
    have hsub : fields.map Prod.fst ⊆ fields'.map Prod.fst := by
      intro name hname
      obtain ⟨v, hv⟩ := Option.isSome_iff_exists.mp (lookup_isSome_iff.mpr hname)
      obtain ⟨n, rfl⟩ := isCountDict_lookup h hv
      exact lookup_isSome_iff.mp (by rw [hsome name n hv]; rfl)
    have hperm : (fields.map Prod.fst).Perm (fields'.map Prod.fst) :=
      (List.subperm_of_subset hn hsub).perm_of_length_le (by simp [hlength])
    refine amounts_eq_of_lookup fun name => ?_
    cases hl : fields.lookup name with
    | some v =>
      obtain ⟨n, rfl⟩ := isCountDict_lookup h hl
      exact (hsome name n hl).symm
    | none =>
      cases hl' : fields'.lookup name with
      | none => rfl
      | some v =>
        have hmem := lookup_isSome_iff.mp (by rw [hl']; rfl)
        have := lookup_isSome_iff.mpr (hperm.mem_iff.mpr hmem)
        rw [hl] at this
        cases this
  · intro he
    have hl := lookup_eq_of_amounts h h' he
    constructor
    · have hperm : (fields.map Prod.fst).Perm (fields'.map Prod.fst) :=
        (List.perm_ext_iff_of_nodup hn hn').mpr fun name => by
          rw [← lookup_isSome_iff, ← lookup_isSome_iff, hl]
      simpa using hperm.length_eq
    · intro k x hmem
      have hx := lookup_of_mem hn hmem
      obtain ⟨n, rfl⟩ := isCountDict_lookup h hx
      exact ⟨_, hl k ▸ hx, by simp [Json.pyEq, Json.asInt?]⟩

theorem pyEq_iff_amounts {key : String} {v w : Json} (hv : IsCounter key v)
    (hw : IsCounter key w) : Json.pyEq v w = true ↔ v.amounts = w.amounts := by
  cases v with
  | int n =>
    cases w with
    | int m =>
      simp only [Json.pyEq, Json.asInt?, beq_iff_eq, Option.some.injEq]
      constructor
      · rintro rfl
        rfl
      · intro h
        exact (WithZero.coe_inj.mp (congrFun h none)).symm
    | obj fields => exact (counter_kinds hv hw.1).elim
    | _ => exact absurd hw id
  | obj fields =>
    cases w with
    | int m => exact (counter_kinds hw hv.1).elim
    | obj fields' => exact pyEq_obj_iff hv.2.1 hv.2.2 hw.2.1 hw.2.2
    | _ => exact absurd hw id
  | _ => exact absurd hv id

noncomputable instance decidableEqAmounts : DecidableEq (Option String → WithZero ℤ) :=
  Classical.decEq _

/-- Counter dictionaries are added name by name. -/
theorem addCounts_amounts {c v : List (String × Json)} (hc : isCountDict (.obj c) = true)
    (hnc : (c.map Prod.fst).Nodup) (hv : isCountDict (.obj v) = true)
    (hnv : (v.map Prod.fst).Nodup) :
    isCountDict (.obj (addCounts c v)) = true ∧ ((addCounts c v).map Prod.fst).Nodup ∧
      (Json.obj (addCounts c v)).amounts = (Json.obj c).amounts + (Json.obj v).amounts := by
  have hnames : (addCounts c v).map Prod.fst =
      c.map Prod.fst ++ (v.map Prod.fst).filter (· ∉ c.map Prod.fst) := by
    simp [addCounts, List.map_map, Function.comp_def]
  have hnodup : ((addCounts c v).map Prod.fst).Nodup := by
    rw [hnames]
    refine hnc.append (hnv.filter _) fun name hname hname' => ?_
    simpa [hname] using (List.mem_filter.mp hname').2
  have hcount : isCountDict (.obj (addCounts c v)) = true := by
    simp [isCountDict, addCounts, isCount]
  refine ⟨hcount, hnodup, ?_⟩
  funext i
  cases i with
  | none => exact (add_zero 0).symm
  | some name =>
    rw [Pi.add_apply]
    have hmem : name ∈ (addCounts c v).map Prod.fst ↔
        name ∈ c.map Prod.fst ∨ name ∈ v.map Prod.fst := by
      rw [hnames, List.mem_append, List.mem_filter]
      simp only [decide_eq_true_eq]
      tauto
    have hsum : ∀ n : ℤ, (addCounts c v).lookup name = some (.int n) →
        n = countOf c name + countOf v name := by
      intro n hn
      obtain ⟨m, -, he⟩ := List.mem_map.mp (mem_of_lookup hn)
      simp only [Prod.mk.injEq, Json.int.injEq] at he
      rw [← he.2, he.1]
    rw [← lookup_isSome_iff, ← lookup_isSome_iff, ← lookup_isSome_iff] at hmem
    rcases amounts_obj hcount name with ⟨ha, hl⟩ | ⟨n, ha, hl⟩
    · rw [hl] at hmem
      rcases amounts_obj hc name with ⟨hac, hlc⟩ | ⟨k, hac, hlc⟩
      · rcases amounts_obj hv name with ⟨hav, hlv⟩ | ⟨k', hav, hlv⟩
        · rw [ha, hac, hav, add_zero]
        · simp [hlv] at hmem
      · simp [hlc] at hmem
    · have hn := hsum n hl
      rw [hl] at hmem
      rcases amounts_obj hc name with ⟨hac, hlc⟩ | ⟨k, hac, hlc⟩
      · rcases amounts_obj hv name with ⟨hav, hlv⟩ | ⟨k', hav, hlv⟩
        · simp [hlc, hlv] at hmem
        · have : n = k' := by simp [hn, countOf, hlc, hlv, Json.asInt?]
          rw [ha, hac, hav, zero_add, this]
      · rcases amounts_obj hv name with ⟨hav, hlv⟩ | ⟨k', hav, hlv⟩
        · have : n = k := by simp [hn, countOf, hlc, hlv, Json.asInt?]
          rw [ha, hac, hav, add_zero, this]
        · have : n = k + k' := by simp [hn, countOf, hlc, hlv, Json.asInt?]
          rw [ha, hac, hav, this, WithZero.coe_add]

/-- What the fan-in makes of two counters: their sum, or the skipping sum under the keys of other
nodes. -/
theorem fanInValue_counter {ownNodeId : Option String} {key : String} {v w : Json}
    (hv : IsCounter key v) (hw : IsCounter key w) :
    IsCounter key (fanInValue ownNodeId key v w) ∧
      (OwnKey ownNodeId key → (fanInValue ownNodeId key v w).amounts = v.amounts + w.amounts) ∧
      (¬ OwnKey ownNodeId key →
        (fanInValue ownNodeId key v w).amounts = skipAdd v.amounts w.amounts) := by
  have heq := pyEq_iff_amounts hv hw
  cases v with
  | int n =>
    cases w with
    | int m =>
      have hsummed : ["_count", ".total", "_total"].any (endsWith key) = true := hv
      have hadd : (Json.int (n + m)).amounts = (Json.int n).amounts + (Json.int m).amounts := by
        funext i
        cases i with
        | none => exact WithZero.coe_add n m
        | some name => exact (add_zero 0).symm
      refine ⟨?_, fun hown => ?_, fun hown => ?_⟩
      · simp only [fanInValue]
        split <;> exact hv
      · have hown : ownNodeId.any (fun n => startsWith key (n ++ ".")) = true := hown
        simp only [fanInValue, hsummed, hown, Bool.true_or, Bool.and_self, if_true, hadd]
      · have hown : ownNodeId.any (fun n => startsWith key (n ++ ".")) = false :=
          Bool.eq_false_iff.mpr hown
        simp only [fanInValue, hsummed, hown, Bool.false_or, Bool.true_and, Bool.not_eq_true',
          ← Bool.not_eq_true, heq]
        unfold skipAdd
        split
        · exact hadd
        · rename_i he
          rw [if_pos (not_not.mp he)]
    | obj fields => exact (counter_kinds hv hw.1).elim
    | _ => exact absurd hw id
  | obj fields =>
    cases w with
    | int m => exact (counter_kinds hw hv.1).elim
    | obj fields' =>
      obtain ⟨hkey, hc, hnc⟩ := hv
      obtain ⟨-, hc', hnc'⟩ := hw
      obtain ⟨hcount, hnodup, hadd⟩ := addCounts_amounts hc hnc hc' hnc'
      refine ⟨?_, fun hown => ?_, fun hown => ?_⟩
      · simp only [fanInValue]
        split
        · exact ⟨hkey, hcount, hnodup⟩
        · exact ⟨hkey, hc, hnc⟩
      · have hown : ownNodeId.any (fun n => startsWith key (n ++ ".")) = true := hown
        simp only [fanInValue, hkey, hc, hc', hown, Bool.true_or, Bool.and_self, if_true, hadd]
      · have hown : ownNodeId.any (fun n => startsWith key (n ++ ".")) = false :=
          Bool.eq_false_iff.mpr hown
        simp only [fanInValue, hkey, hc, hc', hown, Bool.false_or, Bool.true_and,
          Bool.not_eq_true', ← Bool.not_eq_true, heq]
        unfold skipAdd
        split
        · exact hadd
        · rename_i he
          rw [if_pos (not_not.mp he)]
    | _ => exact absurd hw id
  | _ => exact absurd hv id

theorem foldl_fanInValue {ownNodeId : Option String} {key : String} {v : Json} {vs : List Json}
    (h : ∀ w ∈ v :: vs, IsCounter key w) :
    IsCounter key (vs.foldl (fanInValue ownNodeId key) v) ∧
      (OwnKey ownNodeId key → (vs.foldl (fanInValue ownNodeId key) v).amounts =
        ((v :: vs).map Json.amounts).sum) ∧
      (¬ OwnKey ownNodeId key → (vs.foldl (fanInValue ownNodeId key) v).amounts =
        skipSum ((v :: vs).map Json.amounts)) := by
  induction vs generalizing v with
  | nil => exact ⟨h v List.mem_cons_self, fun _ => by simp, fun _ => rfl⟩
  | cons w vs ih =>
    have hv := h v List.mem_cons_self
    have hw := h w (List.mem_cons_of_mem _ List.mem_cons_self)
    obtain ⟨hcounter, hown, hother⟩ := @fanInValue_counter ownNodeId key v w hv hw
    have hrest : ∀ x ∈ fanInValue ownNodeId key v w :: vs, IsCounter key x := by
      intro x hx
      rcases List.mem_cons.mp hx with rfl | hx
      · exact hcounter
      · exact h x (List.mem_cons_of_mem _ (List.mem_cons_of_mem _ hx))
    obtain ⟨ih₁, ih₂, ih₃⟩ := ih hrest
    refine ⟨ih₁, fun ho => ?_, fun ho => ?_⟩
    · rw [List.foldl_cons, ih₂ ho, List.map_cons, List.map_cons, List.map_cons, List.sum_cons,
        List.sum_cons, List.sum_cons, hown ho, add_assoc]
    · rw [List.foldl_cons, ih₃ ho, List.map_cons, hother ho]
      rfl

end Amounts

section Metadata

def fanInFound (ownNodeId : Option String) (key : String) : Option Json → Option Json → Option Json
  | none, found => found
  | some current, none => some current
  | some current, some value => some (fanInValue ownNodeId key current value)

theorem get?_mergeMetadataFanOut (ownNodeId : Option String) (left right : Dict Json)
    (key : String) : (mergeMetadataFanOut ownNodeId left right).get? key =
      fanInFound ownNodeId key (left.get? key) (right.get? key) := by
  have hfold : ∀ step : Dict Json → String × Json → Dict Json,
      (∀ merged k w, (step merged (k, w)).get? key =
        if key = k then fanInFound ownNodeId key (merged.get? key) (some w) else merged.get? key) →
      ∀ (rest : List (String × Json)) (merged : Dict Json), (rest.map Prod.fst).Nodup →
        (rest.foldl step merged).get? key =
          fanInFound ownNodeId key (merged.get? key) (rest.lookup key) := by
    intro step hstep rest
    induction rest with
    | nil =>
      intro merged _
      cases hm : merged.get? key <;> simp [fanInFound, hm]
    | cons p rest ih =>
      obtain ⟨k, w⟩ := p
      intro merged hn
      obtain ⟨hk, hn⟩ := List.nodup_cons.mp hn
      rw [List.foldl_cons, ih _ hn, Dict.lookup_pair_cons, hstep]
      by_cases he : key = k
      · subst he
        have hnone : rest.lookup key = none := by
          by_contra hne
          exact hk (lookup_isSome_iff.mp (Option.isSome_iff_ne_none.mpr hne))
        cases merged.get? key <;> simp [hnone, fanInFound]
      · simp [he]
  refine hfold _ (fun merged k w => ?_) right.entries left right.nodup
  by_cases he : key = k
  · subst he
    cases merged.get? key <;> simp [fanInFound]
  · cases merged.get? k <;> simp [he]

theorem mergeFanOutContexts_metadata {ownNodeId : Option String} {base merged : WorkflowContext}
    {others : List WorkflowContext}
    (h : mergeFanOutContexts ownNodeId (base :: others) = .ok merged)
    (key : String) : merged.metadata.get? key = (others.map fun c => c.metadata.get? key).foldl
      (fanInFound ownNodeId key) (base.metadata.get? key) := by
  have hobs : (others.map fun c => c.metadata.get? key).foldlM
      (fun found o => (.ok (fanInFound ownNodeId key found o) : Except String _))
      (base.metadata.get? key) = .ok (merged.metadata.get? key) := by
    refine foldlM_observe (fun c => c.metadata.get? key) _ (fun a b a' hab => ?_) h
    obtain ⟨_, _, hm⟩ := bind_eq_ok.mp hab
    simp only [fanInTwoContexts, bind_eq_ok] at hm
    obtain ⟨_, _, hm⟩ := hm
    cases hm
    rw [get?_mergeMetadataFanOut]
  rw [foldlM_ok, Except.ok.injEq] at hobs
  exact hobs.symm

def CounterInAll (key : String) (contexts : List WorkflowContext) : Prop :=
  ∀ c ∈ contexts, ∃ v, c.metadata.get? key = some v ∧ IsCounter key v

def countedAmounts (key : String) (contexts : List WorkflowContext) :
    List (Option String → WithZero ℤ) :=
  contexts.map fun c => ((c.metadata.get? key).map Json.amounts).getD 0

/-- What a fan-in counts under a key that is a counter in all children. -/
theorem mergeFanOutContexts_counter {ownNodeId : Option String} {contexts : List WorkflowContext}
    {merged : WorkflowContext} (h : mergeFanOutContexts ownNodeId contexts = .ok merged)
    {key : String} (hkey : CounterInAll key contexts) :
    ∃ v, merged.metadata.get? key = some v ∧ IsCounter key v ∧
      (OwnKey ownNodeId key → v.amounts = (countedAmounts key contexts).sum) ∧
      (¬ OwnKey ownNodeId key → v.amounts = skipSum (countedAmounts key contexts)) := by
  cases contexts with
  | nil => cases h
  | cons base others =>
    obtain ⟨v₀, hv₀, hc₀⟩ := hkey base List.mem_cons_self
    have hvalues : ∃ vs : List Json, others.map (fun c => c.metadata.get? key) = vs.map some ∧
        ∀ w ∈ vs, IsCounter key w := by
      refine ⟨others.map fun c => (c.metadata.get? key).getD .null, ?_, ?_⟩
      · rw [List.map_map]
        refine List.map_congr_left fun c hc => ?_
        obtain ⟨v, hv, -⟩ := hkey c (List.mem_cons_of_mem _ hc)
        simp [hv]
      · intro w hw
        obtain ⟨c, hc, rfl⟩ := List.mem_map.mp hw
        obtain ⟨v, hv, hcounter⟩ := hkey c (List.mem_cons_of_mem _ hc)
        simpa [hv] using hcounter
    obtain ⟨vs, hvs, hcs⟩ := hvalues
    have hfold : ∀ (vs : List Json) (v : Json), (vs.map some).foldl (fanInFound ownNodeId key)
        (some v) = some (vs.foldl (fanInValue ownNodeId key) v) := by
      intro vs
      induction vs with
      | nil => exact fun v => rfl
      | cons w vs ih => exact fun v => ih _
    have hamounts : countedAmounts key (base :: others) = (v₀ :: vs).map Json.amounts := by
      rw [countedAmounts, List.map_cons, List.map_cons, hv₀, Option.map_some, Option.getD_some]
      have := congrArg (List.map fun o : Option Json => (o.map Json.amounts).getD 0) hvs
      simpa [List.map_map, Function.comp_def] using this
    refine ⟨vs.foldl (fanInValue ownNodeId key) v₀, ?_, ?_⟩
    · rw [mergeFanOutContexts_metadata h key, hv₀, hvs, hfold]
    · rw [hamounts]
      refine foldl_fanInValue fun w hw => ?_
      rcases List.mem_cons.mp hw with rfl | hw
      · exact hc₀
      · exact hcs w hw

end Metadata

section Success

def pendingAt (pending : Dict (Dict (List String))) (deviceId nodeId : String) :
    Option (List String) := (pending.get? deviceId).bind fun perNode => perNode.get? nodeId

def PendingAgree (p q : Dict (Dict (List String))) : Prop :=
  ∀ deviceId nodeId a b, pendingAt p deviceId nodeId = some a →
    pendingAt q deviceId nodeId = some b → a = b

def SameRun (a b : WorkflowContext) : Prop :=
  a.runId = b.runId ∧ a.workflowId = b.workflowId ∧ a.schemaVersion = b.schemaVersion

theorem assertSameInvariants_iff {a b : WorkflowContext} :
    assertSameInvariants a b = .ok () ↔ SameRun a b := by
  unfold assertSameInvariants SameRun
  split
  · simp_all
  · split
    · simp_all
    · split <;> simp_all

theorem mergePendingForDevice_spec {l r d : Dict (List String)}
    (h : mergePendingCommandsForDevice l r = .ok d) (nodeId : String) :
    d.get? nodeId = (l.get? nodeId).or (r.get? nodeId) ∧
      ∀ a b, l.get? nodeId = some a → r.get? nodeId = some b → a = b := by
  have hc := Dict.get?_mergeWith h nodeId
  cases hl : l.get? nodeId with
  | none =>
    rw [hl] at hc
    exact ⟨(Except.ok.inj hc).symm, nofun⟩
  | some a =>
    cases hr : r.get? nodeId with
    | none =>
      rw [hl, hr] at hc
      exact ⟨(Except.ok.inj hc).symm, nofun⟩
    | some b =>
      rw [hl, hr] at hc
      obtain ⟨v, hv, he⟩ := map_eq_ok.mp hc
      dsimp only at hv
      split at hv
      · rename_i hab
        cases hv
        obtain rfl := of_decide_eq_true hab
        refine ⟨he.symm, ?_⟩
        rintro _ _ ⟨⟩ ⟨⟩
        rfl
      · cases hv

theorem mergePending_spec {p q d : Dict (Dict (List String))}
    (h : mergePendingCommands p q = .ok d) :
    PendingAgree p q ∧ (∀ deviceId nodeId, pendingAt d deviceId nodeId =
      (pendingAt p deviceId nodeId).or (pendingAt q deviceId nodeId)) ∧
      ∀ deviceId, (d.get? deviceId).isSome =
        ((p.get? deviceId).isSome || (q.get? deviceId).isSome) := by
  have hboth : ∀ deviceId, (∀ nodeId, pendingAt d deviceId nodeId =
      (pendingAt p deviceId nodeId).or (pendingAt q deviceId nodeId) ∧
      ∀ a b, pendingAt p deviceId nodeId = some a → pendingAt q deviceId nodeId = some b → a = b) ∧
      (d.get? deviceId).isSome = ((p.get? deviceId).isSome || (q.get? deviceId).isSome) := by
    intro deviceId
    have hc := Dict.get?_mergeWith h deviceId
    unfold pendingAt
    cases hp : p.get? deviceId with
    | none =>
      rw [hp] at hc
      rw [← Except.ok.inj hc]
      exact ⟨fun nodeId => ⟨by simp, nofun⟩, rfl⟩
    | some pd =>
      cases hq : q.get? deviceId with
      | none =>
        rw [hp, hq] at hc
        rw [← Except.ok.inj hc]
        exact ⟨fun nodeId => ⟨by simp, nofun⟩, rfl⟩
      | some qd =>
        rw [hp, hq] at hc
        obtain ⟨dd, hd, he⟩ := map_eq_ok.mp hc
        rw [← he]
        exact ⟨fun nodeId => mergePendingForDevice_spec hd nodeId, rfl⟩
  exact ⟨fun deviceId nodeId => ((hboth deviceId).1 nodeId).2,
    fun deviceId nodeId => ((hboth deviceId).1 nodeId).1, fun deviceId => (hboth deviceId).2⟩

theorem mergePending_succeeds {p q : Dict (Dict (List String))} (h : PendingAgree p q) :
    ∃ d, mergePendingCommands p q = .ok d := by
  refine Dict.mergeWith_succeeds fun deviceId pd qd hp hq => ?_
  refine Dict.mergeWith_succeeds fun nodeId a b ha hb => ?_
  have hab : a = b :=
    h deviceId nodeId a b (by simp [pendingAt, hp, ha]) (by simp [pendingAt, hq, hb])
  exact ⟨b, by simp [hab]⟩

/-- What a fan-in that succeeds says about its children and its pending commands. -/
structure FansIn (contexts : List WorkflowContext) (merged : WorkflowContext) : Prop where
  sameRun : ∀ c ∈ contexts, SameRun c merged
  pending : ∀ deviceId nodeId a, pendingAt merged.pendingCommands deviceId nodeId = some a ↔
    ∃ c ∈ contexts, pendingAt c.pendingCommands deviceId nodeId = some a
  queued : ∀ deviceId, (merged.pendingCommands.get? deviceId).isSome ↔
    ∃ c ∈ contexts, (c.pendingCommands.get? deviceId).isSome

theorem FansIn.agree {contexts : List WorkflowContext} {merged a b : WorkflowContext}
    (h : FansIn contexts merged) (ha : a ∈ contexts) (hb : b ∈ contexts) :
    SameRun a b ∧ PendingAgree a.pendingCommands b.pendingCommands := by
  obtain ⟨h₁, h₂, h₃⟩ := h.sameRun a ha
  obtain ⟨h₁', h₂', h₃'⟩ := h.sameRun b hb
  refine ⟨⟨h₁.trans h₁'.symm, h₂.trans h₂'.symm, h₃.trans h₃'.symm⟩, ?_⟩
  intro deviceId nodeId x y hx hy
  have hx' := (h.pending deviceId nodeId x).mpr ⟨a, ha, hx⟩
  have hy' := (h.pending deviceId nodeId y).mpr ⟨b, hb, hy⟩
  exact Option.some.inj (hx'.symm.trans hy')

/-- One more child. -/
theorem FansIn.step {ownNodeId : Option String} {contexts : List WorkflowContext}
    {base other next : WorkflowContext} (h : FansIn contexts base) (hrun : SameRun base other)
    (hm : fanInTwoContexts ownNodeId base other = .ok next) :
    FansIn (contexts ++ [other]) next := by
  simp only [fanInTwoContexts, bind_eq_ok] at hm
  obtain ⟨pending, hp, hm⟩ := hm
  cases hm
  obtain ⟨hagree, hat, hsome⟩ := mergePending_spec hp
  refine ⟨fun c hc => ?_, fun deviceId nodeId a => ?_, fun deviceId => ?_⟩
  · rcases List.mem_append.mp hc with hc | hc
    · exact h.sameRun c hc
    · rw [List.mem_singleton.mp hc]
      exact ⟨hrun.1.symm, hrun.2.1.symm, hrun.2.2.symm⟩
  · have hbase := h.pending deviceId nodeId
    simp only [hat, List.mem_append, List.mem_singleton]
    constructor
    · intro ha
      rcases Option.or_eq_some_iff.mp ha with ha | ⟨-, ha⟩
      · obtain ⟨c, hc, hca⟩ := (hbase a).mp ha
        exact ⟨c, .inl hc, hca⟩
      · exact ⟨other, .inr rfl, ha⟩
    · rintro ⟨c, hc | rfl, ha⟩
      · rw [(hbase a).mpr ⟨c, hc, ha⟩, Option.some_or]
      · cases hb : pendingAt base.pendingCommands deviceId nodeId with
        | none => rw [Option.none_or, ha]
        | some b => rw [Option.some_or, hagree deviceId nodeId b a hb ha]
  · simp only [hsome, Bool.or_eq_true, h.queued, List.mem_append, List.mem_singleton]
    constructor
    · rintro (⟨c, hc, hs⟩ | hs)
      · exact ⟨c, .inl hc, hs⟩
      · exact ⟨other, .inr rfl, hs⟩
    · rintro ⟨c, hc | rfl, hs⟩
      · exact .inl ⟨c, hc, hs⟩
      · exact .inr hs

theorem fansIn_singleton (c : WorkflowContext) : FansIn [c] c := by
  constructor <;> simp [SameRun]

theorem mergeFanOutContexts_fansIn {ownNodeId : Option String} {contexts : List WorkflowContext}
    {merged : WorkflowContext} (h : mergeFanOutContexts ownNodeId contexts = .ok merged) :
    FansIn contexts merged := by
  have key : ∀ (others seen : List WorkflowContext) (base : WorkflowContext), FansIn seen base →
      others.foldlM (fun base other => do
        assertSameInvariants base other
        fanInTwoContexts ownNodeId base other) base = .ok merged →
      FansIn (seen ++ others) merged := by
    intro others
    induction others with
    | nil =>
      intro seen base hbase h
      cases h
      rwa [List.append_nil]
    | cons other others ih =>
      intro seen base hbase h
      simp only [List.foldlM_cons, bind_eq_ok] at h
      obtain ⟨next, ⟨_, hrun, hnext⟩, h⟩ := h
      have := ih (seen ++ [other]) next (hbase.step (assertSameInvariants_iff.mp hrun) hnext) h
      rwa [List.append_assoc, List.singleton_append] at this
  cases contexts with
  | nil => cases h
  | cons base others => exact key others [base] base (fansIn_singleton base) h

/-- Children of one run whose pending commands agree can be merged. -/
theorem mergeFanOutContexts_succeeds {ownNodeId : Option String} {contexts : List WorkflowContext}
    (hne : contexts ≠ []) (h : ∀ a ∈ contexts, ∀ b ∈ contexts,
      SameRun a b ∧ PendingAgree a.pendingCommands b.pendingCommands) :
    ∃ merged, mergeFanOutContexts ownNodeId contexts = .ok merged := by
  have key : ∀ (others seen : List WorkflowContext) (base : WorkflowContext), FansIn seen base →
      seen ≠ [] → (∀ c ∈ seen ++ others, c ∈ contexts) →
      ∃ merged, others.foldlM (fun base other => do
        assertSameInvariants base other
        fanInTwoContexts ownNodeId base other) base = .ok merged := by
    intro others
    induction others with
    | nil => exact fun seen base _ _ _ => ⟨base, rfl⟩
    | cons other others ih =>
      intro seen base hbase hseen hin
      have hother : other ∈ contexts := hin other (by simp)
      obtain ⟨first, hfirst⟩ := List.exists_mem_of_ne_nil seen hseen
      have hfirst' : first ∈ contexts := hin first (List.mem_append_left _ hfirst)
      have hrun : SameRun base other := by
        obtain ⟨h₁, h₂, h₃⟩ := hbase.sameRun first hfirst
        obtain ⟨h₁', h₂', h₃'⟩ := (h first hfirst' other hother).1
        exact ⟨h₁.symm.trans h₁', h₂.symm.trans h₂', h₃.symm.trans h₃'⟩
      have hagree : PendingAgree base.pendingCommands other.pendingCommands := by
        intro deviceId nodeId a b ha hb
        obtain ⟨c, hc, hca⟩ := (hbase.pending deviceId nodeId a).mp ha
        exact (h c (hin c (List.mem_append_left _ hc)) other hother).2 deviceId nodeId a b hca hb
      obtain ⟨pending, hp⟩ := mergePending_succeeds hagree
      have hnext : ∃ next, fanInTwoContexts ownNodeId base other = .ok next :=
        ⟨_, by simp only [fanInTwoContexts, hp]; rfl⟩
      obtain ⟨next, hnext⟩ := hnext
      obtain ⟨merged, hm⟩ := ih (seen ++ [other]) next (hbase.step hrun hnext) (by simp) (by
        simpa [List.append_assoc] using hin)
      refine ⟨merged, ?_⟩
      rw [List.foldlM_cons, assertSameInvariants_iff.mpr hrun]
      simp only [bind, Except.bind, hnext]
      exact hm
  cases contexts with
  | nil => exact absurd rfl hne
  | cons base others => exact key others [base] base (fansIn_singleton base) (by simp) (by simp)

end Success

section Order

def DisjointDevices (a b : WorkflowContext) : Prop :=
  ∀ id, a.devices.get? id = none ∨ b.devices.get? id = none

def SamePending (p q : Dict (Dict (List String))) : Prop :=
  (∀ deviceId, (p.get? deviceId).isSome ↔ (q.get? deviceId).isSome) ∧
    ∀ deviceId nodeId, pendingAt p deviceId nodeId = pendingAt q deviceId nodeId

/-- Two fan-ins of the children fail, or give the same devices, pending commands and counters. -/
def SameFanIn (contexts : List WorkflowContext) :
    Except String WorkflowContext → Except String WorkflowContext → Prop
  | .ok m, .ok m' => (∀ id, m.devices.get? id = m'.devices.get? id) ∧
      SamePending m.pendingCommands m'.pendingCommands ∧
      ∀ key, CounterInAll key contexts → ∃ v v', m.metadata.get? key = some v ∧
        m'.metadata.get? key = some v' ∧ Json.pyEq v v' = true
  | .error _, .error _ => True
  | _, _ => False

def Mergeable (contexts : List WorkflowContext) : Prop :=
  contexts ≠ [] ∧ ∀ a ∈ contexts, ∀ b ∈ contexts,
    SameRun a b ∧ PendingAgree a.pendingCommands b.pendingCommands

theorem mergeable_iff {ownNodeId : Option String} {contexts : List WorkflowContext} :
    Mergeable contexts ↔ ∃ merged, mergeFanOutContexts ownNodeId contexts = .ok merged := by
  constructor
  · rintro ⟨hne, h⟩
    exact mergeFanOutContexts_succeeds hne h
  · rintro ⟨merged, h⟩
    refine ⟨?_, fun a ha b hb => (mergeFanOutContexts_fansIn h).agree ha hb⟩
    rintro rfl
    cases h

theorem Mergeable.perm {contexts contexts' : List WorkflowContext} (hp : contexts'.Perm contexts)
    (h : Mergeable contexts) : Mergeable contexts' := by
  obtain ⟨hne, h⟩ := h
  refine ⟨fun he => hne (List.perm_nil.mp (he ▸ hp.symm)), fun a ha b hb => ?_⟩
  exact h a (hp.mem_iff.mp ha) b (hp.mem_iff.mp hb)

section Pair

variable {ownNodeId : Option String} {contexts contexts' : List WorkflowContext}
  {merged merged' : WorkflowContext}

theorem devices_perm (hd : contexts.Pairwise DisjointDevices) (hp : contexts'.Perm contexts)
    (h : mergeFanOutContexts ownNodeId contexts = .ok merged)
    (h' : mergeFanOutContexts ownNodeId contexts' = .ok merged') (id : String) :
    merged'.devices.get? id = merged.devices.get? id := by
  rw [mergeFanOutContexts_devices h, mergeFanOutContexts_devices h']
  refine (hp.map fun c => c.devices.get? id).foldl_eq' ?_ none
  -- of two different children, one has no such device
  have hpair : ∀ a ∈ contexts, ∀ b ∈ contexts, a = b ∨ DisjointDevices a b := by
    have hsymm : Std.Symm DisjointDevices := ⟨fun a b hab id => (hab id).symm⟩
    intro a ha b hb
    by_cases hab : a = b
    · exact .inl hab
    · exact .inr (hd.forall ha hb hab)
  intro x hx y hy found
  obtain ⟨a, ha, rfl⟩ := List.mem_map.mp hx
  obtain ⟨b, hb, rfl⟩ := List.mem_map.mp hy
  rcases hpair a (hp.mem_iff.mp ha) b (hp.mem_iff.mp hb) with rfl | hab
  · rfl
  · rcases hab id with hnone | hnone
    · simp [hnone]
    · simp [hnone]

theorem pending_perm (hp : contexts'.Perm contexts)
    (h : mergeFanOutContexts ownNodeId contexts = .ok merged)
    (h' : mergeFanOutContexts ownNodeId contexts' = .ok merged') :
    SamePending merged'.pendingCommands merged.pendingCommands := by
  have hin := mergeFanOutContexts_fansIn h
  have hin' := mergeFanOutContexts_fansIn h'
  refine ⟨fun deviceId => ?_, fun deviceId nodeId => Option.ext fun a => ?_⟩
  · simp only [hin.queued, hin'.queued, hp.mem_iff]
  · simp only [hin.pending, hin'.pending, hp.mem_iff]

theorem counterInAll_perm (hp : contexts'.Perm contexts) {key : String}
    (h : CounterInAll key contexts) : CounterInAll key contexts' :=
  fun c hc => h c (hp.mem_iff.mp hc)

theorem counter_perm_iff (hp : contexts'.Perm contexts)
    (h : mergeFanOutContexts ownNodeId contexts = .ok merged)
    (h' : mergeFanOutContexts ownNodeId contexts' = .ok merged') {key : String}
    (hkey : CounterInAll key contexts) :
    (∃ v' v, merged'.metadata.get? key = some v' ∧ merged.metadata.get? key = some v ∧
      Json.pyEq v' v = true) ↔ OwnKey ownNodeId key ∨
        skipSum (countedAmounts key contexts') = skipSum (countedAmounts key contexts) := by
  obtain ⟨v, hv, hc, hown, hother⟩ := mergeFanOutContexts_counter h hkey
  obtain ⟨v', hv', hc', hown', hother'⟩ :=
    mergeFanOutContexts_counter h' (counterInAll_perm hp hkey)
  have heq : (∃ v' v, merged'.metadata.get? key = some v' ∧ merged.metadata.get? key = some v ∧
      Json.pyEq v' v = true) ↔ v'.amounts = v.amounts := by
    rw [← pyEq_iff_amounts hc' hc, hv, hv']
    simp
  rw [heq]
  by_cases ho : OwnKey ownNodeId key
  · have hsum : (countedAmounts key contexts').sum = (countedAmounts key contexts).sum :=
      (hp.map _).sum_eq
    simp [ho, hown ho, hown' ho, hsum]
  · simp [ho, hother ho, hother' ho]

end Pair

theorem countedAmounts_perm_iff {key : String} {contexts : List WorkflowContext}
    (P : List (Option String → WithZero ℤ) → Prop) :
    (∀ contexts', contexts'.Perm contexts → P (countedAmounts key contexts')) ↔
      ∀ l, l.Perm (countedAmounts key contexts) → P l := by
  constructor
  · intro h l hl
    have hcomp : Relation.Comp (· = List.map _ ·) (·.Perm ·) l contexts :=
      (congrFun (congrFun (List.eq_map_comp_perm _) l) contexts).mpr hl
    obtain ⟨contexts', rfl, hp⟩ := hcomp
    exact h contexts' hp
  · intro h contexts' hp
    exact h _ (hp.map _)

/-- One child's amounts absorb all others, or no child's amounts that count are the sum of what
some other children count. -/
def OrderFree (amounts : Multiset (Option String → WithZero ℤ)) : Prop :=
  Absorbed amounts ∨ NoCoincidence amountsValue amounts

/-- Merging the children in any order gives the same result exactly if this is so
under every counter of another node. -/
theorem mergeFanOutContexts_perm_iff (ownNodeId : Option String)
    {contexts : List WorkflowContext} (hd : contexts.Pairwise DisjointDevices) :
    (∀ contexts', contexts'.Perm contexts → SameFanIn contexts
      (mergeFanOutContexts ownNodeId contexts') (mergeFanOutContexts ownNodeId contexts)) ↔
    (Mergeable contexts → ∀ key, CounterInAll key contexts → OwnKey ownNodeId key ∨
      OrderFree (countedAmounts key contexts)) := by
  by_cases hmergeable : Mergeable contexts
  · obtain ⟨merged, hmerged⟩ := mergeable_iff.mp hmergeable
    have horders : ∀ contexts', contexts'.Perm contexts →
        (SameFanIn contexts (mergeFanOutContexts ownNodeId contexts')
          (mergeFanOutContexts ownNodeId contexts) ↔
        ∀ key, CounterInAll key contexts → OwnKey ownNodeId key ∨
          skipSum (countedAmounts key contexts') = skipSum (countedAmounts key contexts)) := by
      intro contexts' hp
      obtain ⟨merged', hmerged'⟩ := mergeable_iff.mp (hmergeable.perm hp)
      rw [hmerged, hmerged']
      constructor
      · rintro ⟨-, -, hcounters⟩ key hkey
        exact (counter_perm_iff hp hmerged hmerged' hkey).mp (hcounters key hkey)
      · intro h
        exact ⟨devices_perm hd hp hmerged hmerged', pending_perm hp hmerged hmerged',
          fun key hkey => (counter_perm_iff hp hmerged hmerged' hkey).mpr (h key hkey)⟩
    have hkeys : ∀ key, (∀ contexts', contexts'.Perm contexts →
        skipSum (countedAmounts key contexts') = skipSum (countedAmounts key contexts)) ↔
        OrderFree (countedAmounts key contexts) := by
      intro key
      have hne : countedAmounts key contexts ≠ [] := by
        simpa [countedAmounts] using hmergeable.1
      rw [OrderFree, ← skipSum_perm_iff amounts_null hne]
      exact countedAmounts_perm_iff fun l => skipSum l = skipSum (countedAmounts key contexts)
    constructor
    · intro h _ key hkey
      by_cases ho : OwnKey ownNodeId key
      · exact .inl ho
      · refine .inr ((hkeys key).mp fun contexts' hp => ?_)
        exact ((horders contexts' hp).mp (h contexts' hp) key hkey).resolve_left ho
    · intro h contexts' hp
      refine (horders contexts' hp).mpr fun key hkey => ?_
      exact (h hmergeable key hkey).imp id fun hc => (hkeys key).mpr hc contexts' hp
  · refine ⟨fun _ hm => absurd hm hmergeable, fun _ contexts' hp => ?_⟩
    have hfails : ∀ l : List WorkflowContext, ¬ Mergeable l →
        ∃ message, mergeFanOutContexts ownNodeId l = .error message := by
      intro l hl
      cases hm : mergeFanOutContexts ownNodeId l with
      | error message => exact ⟨message, rfl⟩
      | ok merged => exact absurd (mergeable_iff.mpr ⟨merged, hm⟩) hl
    obtain ⟨_, hm⟩ := hfails contexts hmergeable
    obtain ⟨_, hm'⟩ := hfails contexts' fun h => hmergeable (h.perm hp.symm)
    rw [hm, hm']
    trivial

/-- The result of a child that handled one device and counted `n`. -/
def countingChild (deviceId : String) (n : ℤ) : WorkflowContext where
  runId := "run"
  workflowId := "workflow"
  devices := (∅ : Dict DeviceContext).insert deviceId
    { id := deviceId, name := deviceId, hostname := deviceId }
  metadata := (∅ : Dict Json).insert "fetch.device_count" (.int n)

theorem countingChild_disjoint {a b : String} (h : a ≠ b) (n m : ℤ) :
    DisjointDevices (countingChild a n) (countingChild b m) := by
  intro id
  by_cases ha : id = a
  · right
    simp [countingChild, ha, h]
  · left
    simp [countingChild, ha]

theorem countingChild_counter (a : String) (n : ℤ) :
    ∃ v, (countingChild a n).metadata.get? "fetch.device_count" = some v ∧
      IsCounter "fetch.device_count" v := by
  refine ⟨.int n, rfl, ?_⟩
  show ["_count", ".total", "_total"].any (endsWith "fetch.device_count") = true
  decide +kernel

/-- Two children that count differently are added up in either order. -/
theorem twoChildren_orderFree :
    [countingChild "a" 2, countingChild "b" 3].Pairwise DisjointDevices ∧
    ∀ contexts', contexts'.Perm [countingChild "a" 2, countingChild "b" 3] →
      SameFanIn [countingChild "a" 2, countingChild "b" 3] (mergeFanOutContexts none contexts')
        (mergeFanOutContexts none [countingChild "a" 2, countingChild "b" 3]) := by
  have hd : [countingChild "a" 2, countingChild "b" 3].Pairwise DisjointDevices := by
    simpa using countingChild_disjoint (by decide) 2 3
  refine ⟨hd, (mergeFanOutContexts_perm_iff none hd).mpr fun _ key hkey => .inr (.inr ?_)⟩
  have hk : key = "fetch.device_count" := by
    obtain ⟨v, hv, -⟩ := hkey _ List.mem_cons_self
    by_contra hne
    simp [countingChild, hne] at hv
  subst hk
  have hne : (Json.int 2).amounts ≠ (Json.int 3).amounts := by
    intro he
    exact absurd (WithZero.coe_inj.mp (congrFun he none)) (by decide)
  have hcounted : countedAmounts "fetch.device_count" [countingChild "a" 2, countingChild "b" 3] =
      [(Json.int 2).amounts, (Json.int 3).amounts] := by
    simp [countedAmounts, countingChild]
  rw [hcounted]
  rintro x t ⟨hx, -, ht, hsome, hsum⟩
  have hcases : ∀ a b : Option String → WithZero ℤ, a ≠ b → x = a → t ≤ {b} → False := by
    intro a b hab hxa htb
    rcases Multiset.le_singleton.mp htb with rfl | rfl
    · exact hsome rfl
    · rw [Multiset.sum_singleton] at hsum
      exact hab (hxa.symm.trans hsum.symm)
  rw [Multiset.mem_coe, List.mem_pair] at hx
  rcases hx with rfl | rfl
  · exact hcases _ _ hne rfl (by simpa using ht)
  · refine hcases _ _ hne.symm rfl ?_
    simpa [List.erase_cons, hne] using ht

/-- Of three children that count 2, 3 and 5, the last one is taken for a copy of the sum so far. -/
theorem thirdChild_skipped :
    ¬ ∀ (ownNodeId : Option String) (contexts : List WorkflowContext),
      contexts.Pairwise DisjointDevices → ∀ contexts', contexts'.Perm contexts →
        SameFanIn contexts (mergeFanOutContexts ownNodeId contexts')
          (mergeFanOutContexts ownNodeId contexts) := by
  intro h
  have hd : [countingChild "a" 2, countingChild "b" 3, countingChild "c" 5].Pairwise
      DisjointDevices := by
    have hab := countingChild_disjoint (show "a" ≠ "b" by decide) 2 3
    have hac := countingChild_disjoint (show "a" ≠ "c" by decide) 2 5
    have hbc := countingChild_disjoint (show "b" ≠ "c" by decide) 3 5
    simp [hab, hac, hbc]
  have hsame := h none _ hd [countingChild "c" 5, countingChild "a" 2, countingChild "b" 3]
    (List.perm_append_singleton _ [_, _]).symm
  have hcounted : ∀ l m, mergeFanOutContexts none l = .ok m →
      (mergeFanOutContexts none l).toOption.bind
        (fun m => (m.metadata.get? "fetch.device_count").bind Json.asInt?) =
      (m.metadata.get? "fetch.device_count").bind Json.asInt? := by
    intro l m hm
    rw [hm]
    rfl
  have h₅ : (mergeFanOutContexts none
      [countingChild "a" 2, countingChild "b" 3, countingChild "c" 5]).toOption.bind
        (fun m => (m.metadata.get? "fetch.device_count").bind Json.asInt?) = some 5 := by
    decide +kernel
  have h₁₀ : (mergeFanOutContexts none
      [countingChild "c" 5, countingChild "a" 2, countingChild "b" 3]).toOption.bind
        (fun m => (m.metadata.get? "fetch.device_count").bind Json.asInt?) = some 10 := by
    decide +kernel
  cases hm : mergeFanOutContexts none
      [countingChild "a" 2, countingChild "b" 3, countingChild "c" 5] with
  | error _ => simp [hm, Except.toOption] at h₅
  | ok m =>
    cases hm' : mergeFanOutContexts none
        [countingChild "c" 5, countingChild "a" 2, countingChild "b" 3] with
    | error _ => simp [hm', Except.toOption] at h₁₀
    | ok m' =>
      rw [hm, hm'] at hsame
      rw [hcounted _ _ hm] at h₅
      rw [hcounted _ _ hm'] at h₁₀
      obtain ⟨v, v', hv, hv', heq⟩ := hsame.2.2 "fetch.device_count" (by
        intro c hc
        simp only [List.mem_cons, List.not_mem_nil, or_false] at hc
        rcases hc with rfl | rfl | rfl
        · exact countingChild_counter "a" 2
        · exact countingChild_counter "b" 3
        · exact countingChild_counter "c" 5)
      rw [hv', Option.bind_some] at h₅
      rw [hv, Option.bind_some] at h₁₀
      have hsum := (Json.pyEq_asInt h₁₀).mp heq
      rw [h₅] at hsum
      cases hsum

end Order

end Manus
