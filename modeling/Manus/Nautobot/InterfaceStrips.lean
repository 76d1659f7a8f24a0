import Manus.Lib.Except
import Manus.Nautobot.InterfaceUpdate

/-! # What an update of interfaces strips

The old assignments that are gone after each phase, said in terms of what Nautobot answers: those
of the interfaces that are not wanted, and those of the interfaces that are freed. From it follows
when an update that raises, or one that could not make sure of an address, has stripped anything.
-/

namespace Manus.InterfaceUpdate

variable {answers : Answers}

section Frame

variable {p : Progress} {id : InterfaceId} {name lead warning : String}

@[simp] theorem warn_device : (p.warn warning).device = p.device := rfl

@[simp] theorem warn_cleaned : (p.warn warning).cleanedInterfaces = p.cleanedInterfaces := rfl

@[simp] theorem warnIf_device (failure : Option String) :
    (p.warnIf lead failure).device = p.device := by
  cases failure <;> rfl

@[simp] theorem warnIf_cleaned (failure : Option String) :
    (p.warnIf lead failure).cleanedInterfaces = p.cleanedInterfaces := by
  cases failure <;> rfl

end Frame

section Clean

variable {p : Progress} {id : InterfaceId} {name : String}

def isStruck (answers : Answers) (assignments : List Assignment) (a : Assignment) : Bool :=
  (answers.listAssignments a.interface).isNone && a ∈ page answers assignments a.interface &&
    applied (answers.deleteAssignment a.id)

theorem unassign_assignments (a : Assignment) :
    (unassign answers name p a).device.assignments = p.device.assignments.filter fun b =>
      !(b.id = a.id && applied (answers.deleteAssignment a.id)) := by
  rw [unassign, warnIf_device]
  cases applied (answers.deleteAssignment a.id) with
  | true => simp [Progress.removeAssignment, Progress.setAssignments]
  | false => simp

theorem unassign_interfaces (a : Assignment) :
    (unassign answers name p a).device.interfaces = p.device.interfaces := by
  rw [unassign, warnIf_device]
  split <;> rfl

theorem unassign_cleaned (a : Assignment) :
    (unassign answers name p a).cleanedInterfaces = p.cleanedInterfaces := by
  rw [unassign, warnIf_cleaned]
  split <;> rfl

theorem foldl_unassign (l : List Assignment) (p : Progress) :
    (l.foldl (unassign answers name) p).device.assignments = (p.device.assignments.filter fun b =>
      !l.any fun a => b.id = a.id && applied (answers.deleteAssignment a.id)) ∧
    (l.foldl (unassign answers name) p).device.interfaces = p.device.interfaces ∧
    (l.foldl (unassign answers name) p).cleanedInterfaces = p.cleanedInterfaces := by
  induction l generalizing p with
  | nil => simp
  | cons a l ih =>
    obtain ⟨hassignments, hinterfaces, hcleaned⟩ := ih (unassign answers name p a)
    rw [List.foldl_cons, hassignments, hinterfaces, hcleaned, unassign_assignments,
      unassign_interfaces, unassign_cleaned, List.filter_filter]
    refine ⟨List.filter_congr fun b _ => ?_, rfl, rfl⟩
    rw [List.any_cons, Bool.not_or, Bool.and_comm]

theorem clean_interfaces :
    (cleanInterfaceIps answers id name p).device.interfaces = p.device.interfaces := by
  rw [cleanInterfaceIps]
  split
  · rfl
  · exact (foldl_unassign _ p).2.1

theorem clean_cleaned :
    (cleanInterfaceIps answers id name p).cleanedInterfaces = p.cleanedInterfaces := by
  rw [cleanInterfaceIps]
  split
  · rfl
  · exact (foldl_unassign _ p).2.2

/-- Freeing an interface takes its struck assignments, when these can be told from all others. -/
theorem clean_assignments (answers : Answers) (id : InterfaceId) (name : String)
    (h : ∀ a ∈ page answers p.device.assignments id, ∀ b ∈ p.device.assignments,
      b.id = a.id → b = a) :
    (cleanInterfaceIps answers id name p).device.assignments = p.device.assignments.filter fun b =>
      !(b.interface = id && isStruck answers p.device.assignments b) := by
  have hpage : ∀ a ∈ page answers p.device.assignments id, a.interface = id := by
    intro a ha
    have hfilter := (List.mem_filter.mp (List.mem_of_mem_take ha)).2
    simpa using hfilter
  rw [cleanInterfaceIps]
  split
  case h_1 message hlist =>
    symm
    rw [warn_device, List.filter_eq_self]
    intro b _
    by_cases hb : b.interface = id
    · simp [isStruck, hb, hlist]
    · simp [hb]
  case h_2 hlist =>
    rw [(foldl_unassign _ p).1]
    refine List.filter_congr fun b hb => congrArg _ ?_
    rw [Bool.eq_iff_iff, List.any_eq_true]
    constructor
    · rintro ⟨a, ha, hgone⟩
      rw [Bool.and_eq_true, decide_eq_true_eq] at hgone
      obtain rfl := h a ha b hb hgone.1
      have hinterface := hpage b ha
      simp [isStruck, hinterface, hlist, ha, hgone.2]
    · intro hgone
      rw [Bool.and_eq_true, decide_eq_true_eq] at hgone
      obtain ⟨rfl, hstruck⟩ := hgone
      rw [isStruck, Bool.and_eq_true, Bool.and_eq_true, decide_eq_true_eq] at hstruck
      exact ⟨b, hstruck.1.2, by simp [hstruck.2]⟩

theorem isStruck_congr {l l' : List Assignment} {a : Assignment}
    (h : (l.filter fun b => b.interface = a.interface) =
      l'.filter fun b => b.interface = a.interface) :
    isStruck answers l a = isStruck answers l' a := by
  rw [isStruck, isStruck, page, page, h]

end Clean

section Orphans

variable {desired : List String} {p : Progress}

def goesWith (answers : Answers) (desired : List String) (assignments : List Assignment)
    (a : Assignment) (i : Interface) : Bool :=
  isOrphan desired i && a.interface = i.id &&
    (applied (answers.deleteInterface i.id) || isStruck answers assignments a)

theorem deleteOrphan_cleaned (i : Interface) :
    (deleteOrphan answers desired p i).cleanedInterfaces = p.cleanedInterfaces := by
  rw [deleteOrphan]
  split
  case isFalse => rfl
  case isTrue =>
    trans (cleanInterfaceIps answers i.id (strip i.name) p).cleanedInterfaces
    · cases answers.deleteInterface i.id with
      | none => rfl
      | some failure =>
        rw [warn_cleaned]
        split <;> rfl
    · exact clean_cleaned

theorem orphan_device (i : Interface) (horphan : isOrphan desired i = true) :
    (deleteOrphan answers desired p i).device =
      (if applied (answers.deleteInterface i.id) then
        (cleanInterfaceIps answers i.id (strip i.name) p).removeInterface i.id
      else cleanInterfaceIps answers i.id (strip i.name) p).device := by
  rw [deleteOrphan, if_pos horphan]
  cases answers.deleteInterface i.id <;> rfl

theorem deleteOrphan_device (answers : Answers) (desired : List String) (i : Interface)
    (h : (p.device.assignments.map Assignment.id).Nodup) :
    (deleteOrphan answers desired p i).device.interfaces = (p.device.interfaces.filter fun b =>
      !(isOrphan desired i && b.id = i.id && applied (answers.deleteInterface i.id))) ∧
    (deleteOrphan answers desired p i).device.assignments = p.device.assignments.filter fun a =>
      !goesWith answers desired p.device.assignments a i := by
  have hclean := clean_assignments answers i.id (strip i.name) fun a ha b hb =>
    List.inj_on_of_nodup_map h hb (List.mem_of_mem_filter (List.mem_of_mem_take ha))
  cases horphan : isOrphan desired i with
  | false => simp [deleteOrphan, horphan, goesWith]
  | true =>
    rw [orphan_device i horphan]
    cases happlied : applied (answers.deleteInterface i.id) with
    | false => simp [goesWith, horphan, happlied, clean_interfaces, hclean]
    | true =>
      simp only [if_true, Progress.removeInterface, clean_interfaces, hclean, List.filter_filter]
      constructor
      · simp
      · apply List.filter_congr
        intro a _
        by_cases ha : a.interface = i.id <;> simp [goesWith, ha, horphan, happlied]

theorem goesWith_other {l : List Assignment} {a : Assignment} {i : Interface}
    (h : a.interface ≠ i.id) : goesWith answers desired l a i = false := by
  simp [goesWith, h]

theorem goesWith_filter {l : List Assignment} {a : Assignment} {i j : Interface}
    (hne : i.id ≠ j.id) : goesWith answers desired
      (l.filter fun b => !goesWith answers desired l b i) a j = goesWith answers desired l a j := by
  by_cases hj : a.interface = j.id
  · have hstruck : isStruck answers (l.filter fun b => !goesWith answers desired l b i) a =
        isStruck answers l a := by
      apply isStruck_congr
      rw [List.filter_filter]
      apply List.filter_congr
      intro b _
      by_cases hb : b.interface = a.interface
      · have hi : b.interface ≠ i.id := fun h => hne (h.symm.trans (hb.trans hj))
        simp [hb, goesWith_other hi]
      · simp [hb]
    rw [goesWith, goesWith, hstruck]
  · rw [goesWith_other hj, goesWith_other hj]

/-- What is left after the interfaces of a list were looked at, one after another. -/
theorem foldl_deleteOrphan (answers : Answers) (desired : List String) (l : List Interface)
    (hl : (l.map Interface.id).Nodup) (p : Progress)
    (h : (p.device.assignments.map Assignment.id).Nodup) :
    (l.foldl (deleteOrphan answers desired) p).device.interfaces =
      (p.device.interfaces.filter fun b => !l.any fun i =>
        isOrphan desired i && b.id = i.id && applied (answers.deleteInterface i.id)) ∧
    (l.foldl (deleteOrphan answers desired) p).device.assignments =
      (p.device.assignments.filter fun a =>
        !l.any (goesWith answers desired p.device.assignments a)) ∧
    (l.foldl (deleteOrphan answers desired) p).cleanedInterfaces = p.cleanedInterfaces := by
  induction l generalizing p with
  | nil => simp
  | cons i l ih =>
    rw [List.map_cons, List.nodup_cons] at hl
    obtain ⟨hinterfaces, hassignments⟩ := deleteOrphan_device answers desired i h
    have hnodup : ((deleteOrphan answers desired p i).device.assignments.map Assignment.id).Nodup
        := by
      rw [hassignments]
      exact h.sublist (List.filter_sublist.map _)
    obtain ⟨ihinterfaces, ihassignments, ihcleaned⟩ := ih hl.2 _ hnodup
    rw [List.foldl_cons, ihinterfaces, ihassignments, ihcleaned, hinterfaces, hassignments,
      deleteOrphan_cleaned, List.filter_filter, List.filter_filter]
    refine ⟨List.filter_congr fun b _ => ?_, List.filter_congr fun a _ => ?_, rfl⟩
    · rw [List.any_cons, Bool.not_or, Bool.and_comm]
    · rw [List.any_cons, Bool.not_or, Bool.and_comm]
      have hany : (l.any fun j => goesWith answers desired
          (p.device.assignments.filter fun b => !goesWith answers desired p.device.assignments b i)
            a j) = l.any (goesWith answers desired p.device.assignments a) := by
        rw [Bool.eq_iff_iff, List.any_eq_true, List.any_eq_true]
        apply exists_congr
        intro j
        apply and_congr_right
        intro hj
        have hne : i.id ≠ j.id := fun he => hl.1 (he ▸ List.mem_map_of_mem hj)
        rw [goesWith_filter hne]
      rw [hany]

def StoredDevice.restrict (s : StoredDevice) (keepInterface : Interface → Bool)
    (keepAssignment : Assignment → Bool) : StoredDevice where
  interfaces := s.interfaces.filter keepInterface
  assignments := s.assignments.filter keepAssignment
  names_nodup := s.names_nodup.sublist (List.filter_sublist.map _)
  interfaceIds_nodup := s.interfaceIds_nodup.sublist (List.filter_sublist.map _)
  assignmentIds_nodup := s.assignmentIds_nodup.sublist (List.filter_sublist.map _)
  interfaceIds_old i hi := s.interfaceIds_old i (List.mem_of_mem_filter hi)
  assignmentIds_old a ha := s.assignmentIds_old a (List.mem_of_mem_filter ha)

def synced (answers : Answers) (desired : List String) (s : StoredDevice) : StoredDevice :=
  s.restrict
    (fun i => !(answers.listInterfaces.isNone && isOrphan desired i &&
      applied (answers.deleteInterface i.id)))
    fun a => !(answers.listInterfaces.isNone &&
      s.interfaces.any (goesWith answers desired s.assignments a))

theorem deleteOrphanDeviceInterfaces_device (s : StoredDevice) :
    (deleteOrphanDeviceInterfaces answers desired { device := s.toDevice }).device =
      (synced answers desired s).toDevice := by
  rw [deleteOrphanDeviceInterfaces, synced, StoredDevice.restrict]
  cases answers.listInterfaces with
  | some message => simp
  | none =>
    obtain ⟨hinterfaces, hassignments, _⟩ := foldl_deleteOrphan answers desired
      s.interfaces s.interfaceIds_nodup { device := s.toDevice } s.assignmentIds_nodup
    apply Device.ext
    · refine hinterfaces.trans (List.filter_congr fun b hb => ?_)
      rw [Option.isNone_none, Bool.true_and]
      congr 1
      rw [Bool.eq_iff_iff, List.any_eq_true]
      constructor
      · rintro ⟨i, hi, hgone⟩
        simp only [Bool.and_eq_true, decide_eq_true_eq] at hgone
        obtain rfl := List.inj_on_of_nodup_map s.interfaceIds_nodup hi hb hgone.1.2.symm
        simp [hgone]
      · intro hgone
        simp only [Bool.and_eq_true] at hgone
        exact ⟨b, hb, by simp [hgone]⟩
    · simpa using hassignments

theorem deleteOrphanDeviceInterfaces_cleaned (s : StoredDevice) :
    (deleteOrphanDeviceInterfaces answers desired { device := s.toDevice }).cleanedInterfaces =
      [] := by
  rw [deleteOrphanDeviceInterfaces]
  split
  · rfl
  · exact (foldl_deleteOrphan _ _ _ s.interfaceIds_nodup _ s.assignmentIds_nodup).2.2

end Orphans

end Manus.InterfaceUpdate
