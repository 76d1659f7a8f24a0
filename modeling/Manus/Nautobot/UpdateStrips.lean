import Manus.Nautobot.InterfaceFrees

/-! # What a failed update of interfaces strips

An update that raises has deleted the interfaces that are not wanted any more, since it makes sure
of the addresses only after that. An update that returns has freed the interfaces it got hold of,
whether or not it could make sure of their new addresses.
-/

namespace Manus.InterfaceUpdate

variable {answers : Answers}

section Runs

/-- The device that the addresses are made sure of for. -/
def wanted (answers : Answers) (s : StoredDevice) (specs : List InterfaceSpec) (sync : Bool) :
    StoredDevice :=
  if sync then synced answers (desiredNames specs) s else s

def Raises (answers : Answers) (specs : List InterfaceSpec) (add : Bool) : Prop :=
  ∃ entry ∈ specs.zipIdx, MakesRaise answers add entry

theorem setPrimaryIpv4_device (p : Progress) : (setPrimaryIpv4 answers p).device = p.device := by
  rw [setPrimaryIpv4]
  split <;> simp

variable {s : StoredDevice} {specs : List InterfaceSpec} {add sync : Bool}

theorem update_start (answers : Answers) (s : StoredDevice) (specs : List InterfaceSpec)
    (sync : Bool) : (if sync then
      deleteOrphanDeviceInterfaces answers (desiredNames specs) { device := s.toDevice }
    else { device := s.toDevice }).stripped = ((wanted answers s specs sync).toDevice, []) := by
  cases sync with
  | false => rfl
  | true =>
    exact Prod.ext (deleteOrphanDeviceInterfaces_device s) (deleteOrphanDeviceInterfaces_cleaned s)

theorem update_raises (s : StoredDevice) (sync : Bool) (h : Raises answers specs add) : ∃ e,
    updateDeviceInterfaces answers s.toDevice specs add sync =
      ((wanted answers s specs sync).toDevice, .error e) := by
  have hstart := update_start answers s specs sync
  rw [updateDeviceInterfaces]
  dsimp only
  generalize (if sync = true then _ else _ : Progress) = p at hstart ⊢
  cases hips : createIpAddresses answers add specs p with
  | error e =>
    have hdevice : p.device = (wanted answers s specs sync).toDevice := congrArg Prod.fst hstart
    exact ⟨e, by rw [← hdevice]⟩
  | ok q =>
    obtain ⟨entry, hentry, hraise⟩ := h
    exact absurd hraise (createIpAddresses_ok.mp ⟨q, hips⟩ entry hentry)

theorem update_returns (s : StoredDevice) (sync : Bool) (h : ¬ Raises answers specs add) : ∃ p q,
    updateDeviceInterfaces answers s.toDevice specs add sync = (p.device, .ok q) ∧
      Kept answers (wanted answers s specs sync) p ∧
      ∀ i ∈ (wanted answers s specs sync).interfaces,
        (i.id ∈ p.cleanedInterfaces ↔ ∃ entry ∈ specs.zipIdx, Frees answers i entry) := by
  have hstart := update_start answers s specs sync
  rw [updateDeviceInterfaces]
  dsimp only
  generalize (if sync = true then _ else _ : Progress) = p at hstart ⊢
  obtain ⟨q, hips⟩ := (createIpAddresses_ok (p := p)).mpr fun entry hentry hraise =>
    h ⟨entry, hentry, hraise⟩
  have hq := (createIpAddresses_stripped hips).trans hstart
  obtain ⟨hkept, hcleaned⟩ := foldl_processOneInterface_kept specs.zipIdx (Kept.start hq)
  have hnone : q.cleanedInterfaces = [] := congrArg Prod.snd hq
  rw [hips]
  refine ⟨specs.zipIdx.foldl (processOneInterface answers) q, _,
    Prod.ext (setPrimaryIpv4_device _) rfl, hkept, fun i hi => ?_⟩
  rw [hcleaned i hi, hnone]
  simp

end Runs

section Strips

variable {s : StoredDevice} {specs : List InterfaceSpec} {add sync : Bool}

/-- An address of the interface is given, and Nautobot could not be made to have it. -/
def LacksAddress (answers : Answers) (specs : List InterfaceSpec) (name : String) : Prop :=
  ∃ entry ∈ specs.zipIdx, entry.1.name = some name ∧
    ∃ ip ∈ (normalizeInterfaceIpList entry.1).zipIdx, ∃ message,
      NotEnsured answers entry.2 ip message

/-- An update that raises takes nothing off the device, and one that returns no address of an
interface that lacks one of its new addresses. -/
def StripsNothing (answers : Answers) (device : Device) (specs : List InterfaceSpec)
    (add sync : Bool) : Prop :=
  match updateDeviceInterfaces answers device specs add sync with
  | (after, .error _) =>
    device.interfaces ⊆ after.interfaces ∧ device.assignments ⊆ after.assignments
  | (after, .ok _) => ∀ i ∈ device.interfaces, LacksAddress answers specs i.name →
      ∀ a ∈ device.assignments, a.interface = i.id → a ∈ after.assignments

/-- The interface is not wanted any more, and it or an address of it can be taken off. -/
def LosesToSync (answers : Answers) (s : StoredDevice) (specs : List InterfaceSpec)
    (i : Interface) : Prop :=
  isOrphan (desiredNames specs) i = true ∧ (applied (answers.deleteInterface i.id) = true ∨
    ∃ a ∈ s.assignments, a.interface = i.id ∧ isStruck answers s.assignments a = true)

theorem lacksAddress_not_orphan {i : Interface} (h : LacksAddress answers specs i.name) :
    isOrphan (desiredNames specs) i = false := by
  obtain ⟨entry, hentry, hname, -⟩ := h
  have hspec : entry.1 ∈ specs := List.fst_mem_of_mem_zipIdx hentry
  rw [isOrphan, Bool.and_eq_false_iff]
  by_cases hblank : strip i.name = ""
  · simp [hblank]
  · right
    simp only [decide_eq_false_iff_not, not_not, desiredNames, List.mem_filter]
    refine ⟨List.mem_filterMap.mpr ⟨entry.1, hspec, by rw [hname]; rfl⟩, by simpa using hblank⟩

/-- Nothing is taken off when the device is the same afterwards. -/
theorem wanted_keeps_iff : (s.interfaces ⊆ (wanted answers s specs sync).interfaces ∧
      s.assignments ⊆ (wanted answers s specs sync).assignments) ↔
    (sync = true → answers.listInterfaces = none →
      ∀ i ∈ s.interfaces, ¬ LosesToSync answers s specs i) := by
  cases sync with
  | false => simp [wanted]
  | true =>
    cases hlist : answers.listInterfaces with
    | some message => simp [wanted, synced, StoredDevice.restrict, hlist]
    | none =>
      simp only [wanted, if_true, synced, StoredDevice.restrict, hlist, Option.isNone_none,
        Bool.true_and, forall_const]
      constructor
      · rintro ⟨hinterfaces, hassignments⟩ i hi ⟨horphan, happlied | ⟨a, ha, hai, hstruck⟩⟩
        · have hmem := (List.mem_filter.mp (hinterfaces hi)).2
          simp [horphan, happlied] at hmem
        · have hmem := (List.mem_filter.mp (hassignments ha)).2
          rw [Bool.not_eq_true', List.any_eq_false] at hmem
          exact hmem i hi (by simp [goesWith, horphan, hai, hstruck])
      · intro hkeeps
        constructor
        · intro i hi
          refine List.mem_filter.mpr ⟨hi, ?_⟩
          rw [Bool.not_eq_true', ← Bool.not_eq_true, Bool.and_eq_true]
          rintro ⟨horphan, happlied⟩
          exact hkeeps i hi ⟨horphan, .inl happlied⟩
        · intro a ha
          refine List.mem_filter.mpr ⟨ha, ?_⟩
          rw [Bool.not_eq_true', List.any_eq_false]
          intro i hi hgoes
          simp only [goesWith, Bool.and_eq_true, Bool.or_eq_true, decide_eq_true_eq] at hgoes
          obtain ⟨⟨horphan, hai⟩, hgone⟩ := hgoes
          exact hkeeps i hi ⟨horphan, hgone.imp_right fun hstruck => ⟨a, ha, hai, hstruck⟩⟩

theorem wanted_same (answers : Answers) (sync : Bool) {i : Interface} (hi : i ∈ s.interfaces)
    (h : isOrphan (desiredNames specs) i = false) :
    i ∈ (wanted answers s specs sync).interfaces ∧
      ((wanted answers s specs sync).assignments.filter fun a => a.interface = i.id) =
        s.assignments.filter fun a => a.interface = i.id := by
  cases sync with
  | false => exact ⟨hi, rfl⟩
  | true =>
    constructor
    · exact List.mem_filter.mpr ⟨hi, by simp [h]⟩
    · rw [wanted, if_pos rfl, synced, StoredDevice.restrict, List.filter_filter]
      apply List.filter_congr
      intro a _
      by_cases ha : a.interface = i.id
      · have hany : s.interfaces.any (goesWith answers (desiredNames specs) s.assignments a) =
            false := by
          rw [List.any_eq_false]
          intro j hj hgoes
          simp only [goesWith, Bool.and_eq_true, decide_eq_true_eq] at hgoes
          have hij := List.inj_on_of_nodup_map s.interfaceIds_nodup hj hi (hgoes.1.2.symm.trans ha)
          rw [hij, h] at hgoes
          cases hgoes.1.1
        simp [hany]
      · simp [ha]

theorem stripsNothing_iff (answers : Answers) (s : StoredDevice) (specs : List InterfaceSpec)
    (add sync : Bool) : StripsNothing answers s.toDevice specs add sync ↔
      (Raises answers specs add → sync = true → answers.listInterfaces = none →
        ∀ i ∈ s.interfaces, ¬ LosesToSync answers s specs i) ∧
      (¬ Raises answers specs add → ∀ i ∈ s.interfaces, LacksAddress answers specs i.name →
        (∃ entry ∈ specs.zipIdx, Frees answers i entry) →
          ∀ a ∈ s.assignments, a.interface = i.id → isStruck answers s.assignments a = false) := by
  rw [StripsNothing]
  by_cases hraises : Raises answers specs add
  · obtain ⟨e, he⟩ := update_raises s sync hraises
    rw [he]
    simp only [hraises, not_true_eq_false, false_imp_iff, and_true, forall_const]
    exact wanted_keeps_iff
  · obtain ⟨p, q, hreturns, hkept, hcleaned⟩ := update_returns s sync hraises
    rw [hreturns]
    simp only [hraises, false_imp_iff, true_and, not_false_eq_true, forall_const]
    refine forall₂_congr fun i hi => forall_congr' fun hlacks => ?_
    obtain ⟨hwanted, hsame⟩ := wanted_same answers sync hi
      (lacksAddress_not_orphan hlacks)
    have hkeeps : ∀ a ∈ s.assignments, a.interface = i.id → (a ∈ p.device.assignments ↔
        ¬ (i.id ∈ p.cleanedInterfaces ∧ isStruck answers s.assignments a = true)) := by
      intro a ha hai
      rw [← hai] at hsame ⊢
      have hstill : a ∈ (wanted answers s specs sync).assignments := by
        apply List.mem_of_mem_filter (p := fun b => b.interface = a.interface)
        rw [hsame]
        exact List.mem_filter.mpr ⟨ha, by simp⟩
      rw [hkept.kept a hstill, isStruck_congr hsame]
    rw [← hcleaned i hwanted]
    constructor
    · intro hstays hfreed a ha hai
      have hnot := (hkeeps a ha hai).mp (hstays a ha hai)
      simpa [hfreed] using hnot
    · intro hunstruck a ha hai
      rw [hkeeps a ha hai]
      rintro ⟨hfreed, hstruck⟩
      simp [hunstruck hfreed a ha hai] at hstruck

/-- Every request is carried out, but for making sure of the addresses. -/
def sampleAnswers (ensureIp : ℕ → ℕ → Except String String) : Answers where
  listInterfaces := none
  listAssignments _ := none
  deleteAssignment _ := none
  deleteInterface _ := none
  ensureIp := ensureIp
  resolves _ := true
  resolvesAgain _ := true
  lookup _ _ := none
  patch _ := none
  create _ := .created
  checkAssignment _ _ := none
  assign _ _ := none
  setLag _ := none
  setPrimary := none
  pageSize := 50

def sampleDevice (name : String) : StoredDevice where
  interfaces := [⟨.existing "i-1", name⟩]
  assignments := [⟨.existing "a-1", .existing "i-1", "ip-1"⟩]
  names_nodup := List.nodup_singleton _
  interfaceIds_nodup := List.nodup_singleton _
  assignmentIds_nodup := List.nodup_singleton _
  interfaceIds_old := by simp
  assignmentIds_old := by simp

def sampleSpec (addresses : List String) : InterfaceSpec where
  name := some "eth0"
  ipAddresses := addresses.map fun address => ⟨some address, false⟩
  ipAddress := none
  isPrimaryIpv4 := false
  type := some "virtual"
  typeIfNew := none
  status := some "active"
  references := []

/-- `sampleAnswers`, with no parent prefix for any address. -/
def noPrefixAnswers : Answers :=
  sampleAnswers fun _ _ => .error "No suitable parent prefix exists."

/-- `sampleAnswers`, with a failure for the second address. -/
def secondFailsAnswers : Answers :=
  sampleAnswers fun _ j => if j = 0 then .ok "ip-2" else .error "400 Bad Request"

/-- The unwanted interface is gone when the missing prefix is found out, and the old address is gone
although the second new one could not be made sure of. -/
theorem sample_stripped :
    ¬ StripsNothing noPrefixAnswers (sampleDevice "eth9").toDevice [sampleSpec ["10.0.0.1/24"]]
      false true ∧
    ¬ StripsNothing secondFailsAnswers (sampleDevice "eth0").toDevice
      [sampleSpec ["10.0.0.1/24", "10.1.0.1/24"]] false false := by
  constructor
  · have hafter : (updateDeviceInterfaces noPrefixAnswers (sampleDevice "eth9").toDevice
        [sampleSpec ["10.0.0.1/24"]] false true).1.interfaces = [] := by decide +kernel
    have hraises : (updateDeviceInterfaces noPrefixAnswers (sampleDevice "eth9").toDevice
        [sampleSpec ["10.0.0.1/24"]] false true).2.isOk = false := by decide +kernel
    intro h
    rw [StripsNothing] at h
    split at h
    case h_1 after e hupdate =>
      rw [hupdate] at hafter
      have hmem := h.1 (List.mem_singleton.mpr rfl)
      rw [hafter] at hmem
      cases hmem
    case h_2 after p hupdate =>
      rw [hupdate] at hraises
      cases hraises
  · have hafter : ⟨.existing "a-1", .existing "i-1", "ip-1"⟩ ∉
        (updateDeviceInterfaces secondFailsAnswers (sampleDevice "eth0").toDevice
          [sampleSpec ["10.0.0.1/24", "10.1.0.1/24"]] false false).1.assignments := by
      decide +kernel
    have hreturns : (updateDeviceInterfaces secondFailsAnswers (sampleDevice "eth0").toDevice
        [sampleSpec ["10.0.0.1/24", "10.1.0.1/24"]] false false).2.isOk = true := by
      decide +kernel
    have hlacks : LacksAddress secondFailsAnswers
        [sampleSpec ["10.0.0.1/24", "10.1.0.1/24"]] "eth0" :=
      ⟨(sampleSpec ["10.0.0.1/24", "10.1.0.1/24"], 0), List.mem_singleton.mpr rfl, rfl,
        (⟨some "10.1.0.1/24", false⟩, 1), by simp [normalizeInterfaceIpList, sampleSpec],
        "400 Bad Request", by decide +kernel, rfl⟩
    intro h
    rw [StripsNothing] at h
    split at h
    case h_1 after e hupdate =>
      rw [hupdate] at hreturns
      cases hreturns
    case h_2 after p hupdate =>
      rw [hupdate] at hafter
      exact hafter (h ⟨.existing "i-1", "eth0"⟩ (List.mem_singleton.mpr rfl) hlacks _
        (List.mem_singleton.mpr rfl) rfl)

end Strips

end Manus.InterfaceUpdate
