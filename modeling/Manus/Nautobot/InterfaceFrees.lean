import Manus.Lib.Except
import Manus.Nautobot.InterfaceStrips

/-! # Which interfaces an update frees

Making sure of the addresses changes nothing on the device. What comes after it only adds to the
device, but for the assignments of the interfaces that it frees, each of them once. The old
interfaces among these are told from what Nautobot answers.
-/

namespace Manus.InterfaceUpdate

variable {answers : Answers} {p q : Progress}

section Addresses

variable {add : Bool}

def NotEnsured (answers : Answers) (k : ℕ) (entry : IpData × ℕ) (message : String) : Prop :=
  given entry.1.address ≠ none ∧ answers.ensureIp k entry.2 = .error message

def MakesRaise (answers : Answers) (add : Bool) (entry : InterfaceSpec × ℕ) : Prop :=
  entry.1.name = none ∨ ∃ ip ∈ (normalizeInterfaceIpList entry.1).zipIdx, ∃ message,
    NotEnsured answers entry.2 ip message ∧ noSuitableParent message = true ∧ add = false

theorem ensureOneInterfaceIp_ok {k : ℕ} {name : String} (p : Progress) (entry : IpData × ℕ) :
    (∃ q, ensureOneInterfaceIp answers add k name p entry = .ok q) ↔ ¬ ∃ message,
      NotEnsured answers k entry message ∧ noSuitableParent message = true ∧ add = false := by
  rw [ensureOneInterfaceIp]
  simp only [NotEnsured]
  cases given entry.1.address with
  | none => simp
  | some address =>
    cases answers.ensureIp k entry.2 with
    | ok ip => simp
    | error message =>
      simp only [ne_eq, reduceCtorEq, not_false_eq_true, true_and, Except.error.injEq,
        exists_eq_left']
      cases hparent : noSuitableParent message <;> cases add <;> simp

theorem ensureInterfaceIps_ok (p : Progress) (entry : InterfaceSpec × ℕ) :
    (∃ q, ensureInterfaceIps answers add p entry = .ok q) ↔ ¬ MakesRaise answers add entry := by
  rw [ensureInterfaceIps, MakesRaise]
  cases entry.1.name with
  | none => simp
  | some name =>
    simp only [reduceCtorEq, false_or, not_exists, not_and]
    rw [exists_foldlM_eq_ok ensureOneInterfaceIp_ok]
    simp

theorem createIpAddresses_ok {specs : List InterfaceSpec} :
    (∃ q, createIpAddresses answers add specs p = .ok q) ↔
      ∀ entry ∈ specs.zipIdx, ¬ MakesRaise answers add entry :=
  exists_foldlM_eq_ok ensureInterfaceIps_ok

/-- The device and the interfaces freed so far: all that matters for what is stripped. -/
def Progress.stripped (p : Progress) : Device × List InterfaceId := (p.device, p.cleanedInterfaces)

theorem ensureOneInterfaceIp_stripped {k : ℕ} {name : String} {entry : IpData × ℕ}
    (h : ensureOneInterfaceIp answers add k name p entry = .ok q) : q.stripped = p.stripped := by
  rw [ensureOneInterfaceIp] at h
  split at h
  · cases h
    rfl
  · split at h
    · cases h
      rfl
    · split at h
      · cases h
      · cases h
        rfl

theorem createIpAddresses_stripped {specs : List InterfaceSpec}
    (h : createIpAddresses answers add specs p = .ok q) : q.stripped = p.stripped := by
  apply foldlM_keeps Progress.stripped _ h
  intro p entry q h
  rw [ensureInterfaceIps] at h
  split at h
  · cases h
  · exact foldlM_keeps Progress.stripped (fun _ _ _ h => ensureOneInterfaceIp_stripped h) h

end Addresses

section Records

variable {k : ℕ} {spec : InterfaceSpec} {name message : String}

/-- A specification for an interface that is there already gets hold of its id. -/
def Reaches (answers : Answers) (entry : InterfaceSpec × ℕ) : Prop :=
  if answers.resolves entry.2 then lookupError answers entry.2 (lookups entry.1 false) = none
  else typeOf entry.1 ≠ none ∧ lookupError answers entry.2 (lookups entry.1 true) = none ∧
    answers.resolvesAgain entry.2 = true ∧
    ∀ failure, answers.create entry.2 = .failed failure → mustBeUnique failure.message = true

structure Upserts (k : ℕ) (name : String) (reaches : Prop) (p : Progress) (u : Upserted) :
    Prop where
  cleaned : u.1.cleanedInterfaces = p.cleanedInterfaces
  assignments : u.1.device.assignments = p.device.assignments
  interfaces : u.1.device.interfaces = p.device.interfaces ∨
    findByName p.device name = none ∧
      u.1.device.interfaces = p.device.interfaces ++ [⟨.created k, name⟩]
  target : ∀ id b, u.2 = .ok (some id, b) → id = (findByName p.device name).getD (.created k)
  reached : findByName p.device name ≠ none → ((∃ id b, u.2 = .ok (some id, b)) ↔ reaches)

theorem Upserts.same {reaches : Prop} {u : Upserted} (hu : u.1.stripped = p.stripped)
    (ht : ∀ id b, u.2 = .ok (some id, b) → id = (findByName p.device name).getD (.created k))
    (hr : findByName p.device name ≠ none → ((∃ id b, u.2 = .ok (some id, b)) ↔ reaches)) :
    Upserts k name reaches p u where
  cleaned := congrArg Prod.snd hu
  assignments := congrArg (Device.assignments ∘ Prod.fst) hu
  interfaces := .inl (congrArg (Device.interfaces ∘ Prod.fst) hu)
  target := ht
  reached := hr

theorem Upserts.refused {reaches : Prop} {u : Upserted} (hu : u.1.stripped = p.stripped)
    (hr : ∀ id b, u.2 ≠ .ok (some id, b)) (h : findByName p.device name ≠ none → ¬ reaches) :
    Upserts k name reaches p u :=
  .same hu (fun id b hid => absurd hid (hr id b)) fun hfound => by simp [h hfound, hr]

@[simp] theorem warn_stripped (warning : String) : (p.warn warning).stripped = p.stripped := rfl

theorem Upserts.congr {reaches reaches' : Prop} {u : Upserted} (hu : Upserts k name reaches p u)
    (h : findByName p.device name ≠ none → (reaches ↔ reaches')) :
    Upserts k name reaches' p u :=
  { hu with reached hfound := (hu.reached hfound).trans (h hfound) }

theorem raceFallback_stripped :
    (raceFallback answers k name message p).1.stripped = p.stripped := by
  rw [raceFallback]
  split
  · split <;> simp [Progress.stripped]
  · rfl

theorem raceFallback_eq_some {id : InterfaceId} {b : Bool} :
    (raceFallback answers k name message p).2 = .ok (some id, b) ↔
      mustBeUnique message = true ∧ answers.resolvesAgain k = true ∧
        findByName p.device name = some id ∧ b = true := by
  rw [raceFallback]
  cases mustBeUnique message with
  | false => simp
  | true =>
    cases answers.resolvesAgain k with
    | false => simp
    | true => cases findByName p.device name <;> simp [eq_comm]

theorem findByName_addInterface (h : findByName p.device name = none) (id : InterfaceId) :
    findByName (p.addInterface ⟨id, name⟩).device name = some id := by
  rw [findByName, Option.map_eq_none_iff] at h
  simp [findByName, Progress.addInterface, List.find?_append, h]

theorem mustBeUnique_uniqueMessage : mustBeUnique uniqueMessage = true := by
  decide +kernel

theorem createInterface_taken {id : InterfaceId} (h : findByName p.device name = some id) :
    createInterface answers k name p = raceFallback answers k name
      (match answers.create k with
        | .failed failure => failure.message
        | _ => uniqueMessage) p := by
  rw [createInterface, h]
  cases answers.create k <;> simp

theorem Upserts.added {reaches : Prop} {u : Upserted} (h : findByName p.device name = none)
    (hu : u.1.stripped = (p.addInterface ⟨.created k, name⟩).stripped)
    (hr : ∀ id b, u.2 = .ok (some id, b) → id = .created k) : Upserts k name reaches p u where
  cleaned := congrArg Prod.snd hu
  assignments := congrArg (Device.assignments ∘ Prod.fst) hu
  interfaces := .inr ⟨h, congrArg (Device.interfaces ∘ Prod.fst) hu⟩
  target id b hid := by
    rw [h, Option.getD_none]
    exact hr id b hid
  reached hfound := absurd h hfound

theorem createInterface_upserts : Upserts k name (answers.resolvesAgain k = true ∧
    ∀ failure, answers.create k = .failed failure → mustBeUnique failure.message = true) p
      (createInterface answers k name p) := by
  cases h : findByName p.device name with
  | some id =>
    rw [createInterface_taken h]
    apply Upserts.same raceFallback_stripped
    · intro id' b hid
      obtain ⟨-, -, hfind, -⟩ := raceFallback_eq_some.mp hid
      rw [hfind, Option.getD_some]
    · intro _
      simp only [raceFallback_eq_some, h]
      cases answers.create k <;> simp [mustBeUnique_uniqueMessage, and_comm]
  | none =>
    simp only [createInterface, h, Option.isNone_none, if_true]
    cases answers.create k with
    | created => exact .added h rfl (by simp)
    | noId => exact .added h rfl (by simp)
    | failed failure =>
      dsimp only
      cases failure.applied with
      | false =>
        refine .refused raceFallback_stripped (fun id b hid => ?_) fun hfound => absurd h hfound
        simpa [h] using raceFallback_eq_some.mp hid
      | true =>
        refine .added h raceFallback_stripped fun id b hid => ?_
        have hfind := (raceFallback_eq_some.mp hid).2.2.1
        simpa [findByName_addInterface h, eq_comm] using hfind

theorem createOrUpdateInterface_upserts (answers : Answers) (k : ℕ) (spec : InterfaceSpec)
    (name : String) (p : Progress) : Upserts k name (Reaches answers (spec, k)) p
    (createOrUpdateInterface answers k spec name p) := by
  rw [createOrUpdateInterface]
  split
  case h_1 id hresolved =>
    obtain ⟨hresolves, hfind⟩ : answers.resolves k = true ∧ findByName p.device name = some id := by
      simpa using hresolved
    cases hlookup : lookupError answers k (lookups spec false) with
    | some message => exact .refused rfl (by simp) fun _ => by simp [Reaches, hresolves, hlookup]
    | none =>
      apply Upserts.same (by simp [Progress.stripped])
      · simp [hfind, eq_comm]
      · simp [Reaches, hresolves, hlookup]
  case h_2 hresolved =>
    have hresolves : findByName p.device name ≠ none → answers.resolves k = false := by
      intro hfound
      simpa [hfound] using hresolved
    cases htype : typeOf spec with
    | none =>
      refine .refused (warn_stripped _) (by simp) fun hfound => ?_
      simp [Reaches, hresolves hfound, htype]
    | some type =>
      cases hlookup : lookupError answers k (lookups spec true) with
      | some message =>
        exact .refused rfl (by simp) fun hfound => by simp [Reaches, hresolves hfound, hlookup]
      | none =>
        refine createInterface_upserts.congr fun hfound => ?_
        simp [Reaches, hresolves hfound, htype, hlookup]

end Records

section Kept

variable {d : StoredDevice}

/-- What there is while the interfaces are worked on, compared with the device before. -/
structure Kept (answers : Answers) (d : StoredDevice) (p : Progress) : Prop where
  interfaces : ∃ new, p.device.interfaces = d.interfaces ++ new ∧ ∀ i ∈ new, ∃ k, i.id = .created k
  fresh : ∀ a ∈ p.device.assignments, a ∈ d.assignments ∨ ∃ k j, a.id = .created k j
  untouched : ∀ id ∉ p.cleanedInterfaces, (p.device.assignments.filter fun a => a.interface = id) =
    d.assignments.filter fun a => a.interface = id
  kept : ∀ a ∈ d.assignments, a ∈ p.device.assignments ↔
    ¬ (a.interface ∈ p.cleanedInterfaces ∧ isStruck answers d.assignments a = true)

theorem Kept.start (h : p.stripped = (d.toDevice, [])) : Kept answers d p := by
  obtain ⟨hdevice, hcleaned⟩ := Prod.mk.inj h
  constructor
  · exact ⟨[], by simp [hdevice], by simp⟩
  · intro a ha
    rw [hdevice] at ha
    exact .inl ha
  · simp [hdevice]
  · simp [hdevice, hcleaned]

theorem Kept.congr (h : Kept answers d p) (hq : q.stripped = p.stripped) : Kept answers d q := by
  obtain ⟨hdevice, hcleaned⟩ := Prod.mk.inj hq
  constructor
  · simpa [hdevice] using h.interfaces
  · simpa [hdevice] using h.fresh
  · simpa [hdevice, hcleaned] using h.untouched
  · simpa [hdevice, hcleaned] using h.kept

theorem Kept.upsert {k : ℕ} {name : String} {reaches : Prop} {u : Upserted}
    (h : Kept answers d p) (hu : Upserts k name reaches p u) : Kept answers d u.1 := by
  obtain ⟨new, hnew, hcreated⟩ := h.interfaces
  constructor
  · rcases hu.interfaces with hsame | ⟨-, hadded⟩
    · exact ⟨new, hsame.trans hnew, hcreated⟩
    · refine ⟨new ++ [⟨.created k, name⟩], by rw [hadded, hnew, List.append_assoc], ?_⟩
      intro i hi
      rcases List.mem_append.mp hi with hi | hi
      · exact hcreated i hi
      · exact ⟨k, by rw [List.mem_singleton.mp hi]⟩
  · simpa [hu.assignments] using h.fresh
  · simpa [hu.assignments, hu.cleaned] using h.untouched
  · simpa [hu.assignments, hu.cleaned] using h.kept

theorem Kept.findByName_eq (h : Kept answers d p) {i : Interface} (hi : i ∈ d.interfaces)
    {name : String} : findByName p.device name = some i.id ↔ name = i.name := by
  obtain ⟨new, hnew, hcreated⟩ := h.interfaces
  rw [findByName, hnew, Option.map_eq_some_iff]
  constructor
  · rintro ⟨j, hj, hid⟩
    have hname : j.name = name := by simpa using List.find?_some hj
    rcases List.mem_append.mp (List.mem_of_find?_eq_some hj) with hold | hnew
    · rw [← hname, List.inj_on_of_nodup_map d.interfaceIds_nodup hold hi hid]
    · obtain ⟨k, hk⟩ := hcreated j hnew
      obtain ⟨id, hold⟩ := d.interfaceIds_old i hi
      cases hk.symm.trans (hid.trans hold)
  · rintro rfl
    refine ⟨i, ?_, rfl⟩
    cases hfind : d.interfaces.find? fun j => j.name = i.name with
    | none => simpa using List.find?_eq_none.mp hfind i hi
    | some j =>
      have hj := List.mem_of_find?_eq_some hfind
      have hname : j.name = i.name := by simpa using List.find?_some hfind
      rw [List.find?_append, hfind, List.inj_on_of_nodup_map d.names_nodup hj hi hname]
      rfl

theorem Kept.clean_assignments (h : Kept answers d p) {id : InterfaceId} (name : String)
    (hid : id ∉ p.cleanedInterfaces) : (cleanInterfaceIps answers id name p).device.assignments =
      p.device.assignments.filter fun b =>
        !(b.interface = id && isStruck answers d.assignments b) := by
  have hstruck : ∀ b, b.interface = id →
      isStruck answers p.device.assignments b = isStruck answers d.assignments b := by
    rintro b rfl
    exact isStruck_congr (h.untouched b.interface hid)
  rw [InterfaceUpdate.clean_assignments]
  · apply List.filter_congr
    intro b _
    by_cases hb : b.interface = id
    · rw [hstruck b hb]
    · simp [hb]
  · intro a ha b hb hab
    rw [page, h.untouched id hid] at ha
    have hold := (List.mem_filter.mp (List.mem_of_mem_take ha)).1
    rcases h.fresh b hb with hb | ⟨k, j, hcreated⟩
    · exact List.inj_on_of_nodup_map d.assignmentIds_nodup hb hold hab
    · obtain ⟨id', hid'⟩ := d.assignmentIds_old a hold
      cases hcreated.symm.trans (hab.trans hid')

theorem mem_cleanOnce_cleaned {id x : InterfaceId} {name : String} :
    x ∈ (cleanOnce answers id name p).cleanedInterfaces ↔ x = id ∨ x ∈ p.cleanedInterfaces := by
  rw [cleanOnce]
  split
  case isTrue hid =>
    constructor
    · exact .inr
    · rintro (rfl | hx)
      · exact hid
      · exact hx
  case isFalse => simp [clean_cleaned]

theorem Kept.cleanOnce (h : Kept answers d p) (id : InterfaceId) (name : String) :
    Kept answers d (cleanOnce answers id name p) := by
  rw [InterfaceUpdate.cleanOnce]
  split
  case isTrue => exact h
  case isFalse hid =>
    have hassignments := h.clean_assignments name hid
    constructor
    · simpa [clean_interfaces] using h.interfaces
    · intro a ha
      rw [hassignments] at ha
      exact h.fresh a (List.mem_of_mem_filter ha)
    · intro x hx
      rw [List.mem_cons, not_or, clean_cleaned] at hx
      rw [hassignments, List.filter_filter, ← h.untouched x hx.2]
      apply List.filter_congr
      intro b _
      by_cases hb : b.interface = x
      · simp [hb, hx.1]
      · simp [hb]
    · intro a ha
      have hleft : (!(a.interface = id && isStruck answers d.assignments a)) = true ↔
          ¬ (a.interface = id ∧ isStruck answers d.assignments a = true) := by
        cases isStruck answers d.assignments a <;> simp
      rw [hassignments, List.mem_filter, h.kept a ha, hleft]
      simp only [clean_cleaned, List.mem_cons]
      tauto

variable {k : ℕ} {name : String} {id : InterfaceId}

theorem Kept.addAssignment (h : Kept answers d p) (hid : id ∈ p.cleanedInterfaces) (j : ℕ)
    (ip : String) : Kept answers d (p.addAssignment ⟨.created k j, id, ip⟩) := by
  constructor
  · exact h.interfaces
  · intro a ha
    rcases List.mem_append.mp ha with ha | ha
    · exact h.fresh a ha
    · exact .inr ⟨k, j, by rw [List.mem_singleton.mp ha]⟩
  · intro x hx
    have hne : id ≠ x := fun he => hx (he ▸ hid)
    rw [← h.untouched x hx]
    simp [Progress.addAssignment, Progress.setAssignments, hne]
  · intro a ha
    have hne : a ≠ ⟨.created k j, id, ip⟩ := by
      rintro rfl
      obtain ⟨old, hold⟩ := d.assignmentIds_old _ ha
      cases hold
    refine Iff.trans ?_ (h.kept a ha)
    simp [Progress.addAssignment, Progress.setAssignments, hne]

theorem assignIpToInterface_kept (k : ℕ) (name : String) (h : Kept answers d p)
    (hid : id ∈ p.cleanedInterfaces) (j : ℕ) (address : String) :
    Kept answers d (assignIpToInterface answers k j name address id p).1 ∧
      (assignIpToInterface answers k j name address id p).1.cleanedInterfaces =
        p.cleanedInterfaces := by
  rw [assignIpToInterface]
  cases p.ipAddressMap.lookup (ipMapKey name address) with
  | none => exact ⟨h, rfl⟩
  | some ip =>
    cases answers.checkAssignment k j with
    | some message => exact ⟨h.congr (warn_stripped _), rfl⟩
    | none =>
      dsimp only
      split
      · exact ⟨h, rfl⟩
      · cases answers.assign k j with
        | none => exact ⟨h.addAssignment hid j ip, rfl⟩
        | some failure =>
          dsimp only
          split
          · exact ⟨(h.addAssignment hid j ip).congr (warn_stripped _), rfl⟩
          · exact ⟨h.congr (warn_stripped _), rfl⟩

theorem assignOne_kept (k : ℕ) (name : String) (h : Kept answers d p)
    (hid : id ∈ p.cleanedInterfaces) (entry : IpData × ℕ) :
    Kept answers d (assignOne answers k name id p entry) ∧
      (assignOne answers k name id p entry).cleanedInterfaces = p.cleanedInterfaces := by
  rw [assignOne]
  cases given entry.1.address with
  | none => exact ⟨h, rfl⟩
  | some address =>
    obtain ⟨hkept, hcleaned⟩ := assignIpToInterface_kept k name h hid entry.2 address
    dsimp only
    split
    case h_1 q ip hassign =>
      rw [hassign] at hkept hcleaned
      split
      · exact ⟨hkept.congr rfl, hcleaned⟩
      · exact ⟨hkept, hcleaned⟩
    case h_2 q hassign =>
      rw [hassign] at hkept hcleaned
      exact ⟨hkept, hcleaned⟩

theorem foldl_assignOne_kept (k : ℕ) (name : String) (l : List (IpData × ℕ)) (h : Kept answers d p)
    (hid : id ∈ p.cleanedInterfaces) : Kept answers d (l.foldl (assignOne answers k name id) p) ∧
      (l.foldl (assignOne answers k name id) p).cleanedInterfaces = p.cleanedInterfaces := by
  induction l generalizing p with
  | nil => exact ⟨h, rfl⟩
  | cons entry l ih =>
    obtain ⟨hkept, hcleaned⟩ := assignOne_kept k name h hid entry
    obtain ⟨ihkept, ihcleaned⟩ := ih hkept (hcleaned ▸ hid)
    exact ⟨ihkept, ihcleaned.trans hcleaned⟩

end Kept

section Process

variable {d : StoredDevice} {i : Interface}

def Frees (answers : Answers) (i : Interface) (entry : InterfaceSpec × ℕ) : Prop :=
  entry.1.name = some i.name ∧ normalizeInterfaceIpList entry.1 ≠ [] ∧ Reaches answers entry

theorem remember_stripped (name : String) (id : InterfaceId) (wasUpdated : Bool) (p : Progress) :
    (remember name id wasUpdated p).stripped = p.stripped := by
  unfold remember
  dsimp only
  split <;> split <;> rfl

theorem Upserts.gets {k : ℕ} {name : String} {reaches : Prop} {u : Upserted}
    (hu : Upserts k name reaches p u) (h : Kept answers d p) (hi : i ∈ d.interfaces) :
    (∃ b, u.2 = .ok (some i.id, b)) ↔ name = i.name ∧ reaches := by
  constructor
  · rintro ⟨b, hb⟩
    have htarget := hu.target i.id b hb
    cases hfind : findByName p.device name with
    | none =>
      obtain ⟨id, hold⟩ := d.interfaceIds_old i hi
      rw [hfind, hold] at htarget
      cases htarget
    | some id =>
      rw [hfind, Option.getD_some] at htarget
      have hname := (h.findByName_eq hi).mp (hfind.trans (congrArg some htarget.symm))
      exact ⟨hname, (hu.reached (by simp [hfind])).mp ⟨i.id, b, hb⟩⟩
  · rintro ⟨rfl, hreaches⟩
    have hfind := (h.findByName_eq hi).mpr rfl
    obtain ⟨id, b, hb⟩ := (hu.reached (by simp [hfind])).mpr hreaches
    have htarget := hu.target id b hb
    rw [hfind, Option.getD_some] at htarget
    exact ⟨b, htarget ▸ hb⟩

theorem processOneInterface_kept (h : Kept answers d p) (entry : InterfaceSpec × ℕ) :
    Kept answers d (processOneInterface answers p entry) ∧ ∀ i ∈ d.interfaces,
      (i.id ∈ (processOneInterface answers p entry).cleanedInterfaces ↔
        i.id ∈ p.cleanedInterfaces ∨ Frees answers i entry) := by
  rw [processOneInterface]
  cases hname : entry.1.name with
  | none => exact ⟨h, fun i _ => by simp [Frees, hname]⟩
  | some name =>
    have hu := createOrUpdateInterface_upserts answers entry.2 entry.1 name p
    have hkept := h.upsert hu
    have hfrees : ∀ i ∈ d.interfaces, Frees answers i entry ↔
        normalizeInterfaceIpList entry.1 ≠ [] ∧
          ∃ b, (createOrUpdateInterface answers entry.2 entry.1 name p).2 = .ok (some i.id, b) := by
      intro i hi
      rw [hu.gets h hi, Frees, hname, Option.some_inj]
      tauto
    have hcleaned := hu.cleaned
    dsimp only
    generalize createOrUpdateInterface answers entry.2 entry.1 name p = u at hkept hfrees hcleaned ⊢
    obtain ⟨q, r⟩ := u
    dsimp only at hkept hfrees hcleaned
    match r with
    | .error message =>
      refine ⟨hkept.congr rfl, fun i hi => ?_⟩
      simp [hfrees i hi, hcleaned]
    | .ok (none, b) =>
      refine ⟨hkept, fun i hi => ?_⟩
      simp [hfrees i hi, hcleaned]
    | .ok (some id, b) =>
      have hremember := hkept.congr (remember_stripped name id b q)
      have hremembered := congrArg Prod.snd (remember_stripped name id b q)
      dsimp only
      split
      case isTrue hips =>
        refine ⟨hremember, fun i hi => ?_⟩
        rw [hfrees i hi]
        simp [hips, show (remember name id b q).cleanedInterfaces = p.cleanedInterfaces from
          hremembered.trans hcleaned]
      case isFalse hips =>
        obtain ⟨hend, hendCleaned⟩ := foldl_assignOne_kept entry.2 name
          (normalizeInterfaceIpList entry.1).zipIdx (hremember.cleanOnce id name)
          (mem_cleanOnce_cleaned.mpr (.inl rfl))
        refine ⟨hend, fun i hi => ?_⟩
        rw [hendCleaned, mem_cleanOnce_cleaned, hfrees i hi,
          show (remember name id b q).cleanedInterfaces = p.cleanedInterfaces from
            hremembered.trans hcleaned]
        simp [hips, or_comm, eq_comm]
theorem foldl_processOneInterface_kept (l : List (InterfaceSpec × ℕ)) (h : Kept answers d p) :
    Kept answers d (l.foldl (processOneInterface answers) p) ∧ ∀ i ∈ d.interfaces,
      (i.id ∈ (l.foldl (processOneInterface answers) p).cleanedInterfaces ↔
        i.id ∈ p.cleanedInterfaces ∨ ∃ entry ∈ l, Frees answers i entry) := by
  induction l generalizing p with
  | nil => exact ⟨h, fun i _ => by simp⟩
  | cons entry l ih =>
    obtain ⟨hkept, hcleaned⟩ := processOneInterface_kept h entry
    obtain ⟨ihkept, ihcleaned⟩ := ih hkept
    refine ⟨ihkept, fun i hi => ?_⟩
    rw [List.foldl_cons, ihcleaned i hi, hcleaned i hi, or_assoc, List.exists_mem_cons_iff]

end Process

end Manus.InterfaceUpdate
