import Manus.Rbac.Removals

/-! # An administrator is always left

Calls are interleaved at their commits. An active administrator is left whatever
the order, as long as no administrator is taken away between the check and the
write of a call that takes away another one.
-/

namespace Manus.Rbac

open Tables

section Seeded

variable {s s' : Tables} {actor : Option ℕ} {rules : AccountRules}

theorem refuseIf_eq_ok {condition : Bool} {refused : Refused} :
    refuseIf condition refused = .ok () ↔ condition = false := by
  cases condition <;> simp [refuseIf]

theorem eq_of_roleId {r r' : Role} (hr : r ∈ s.roles) (hr' : r' ∈ s.roles) (h : r.id = r'.id) :
    r = r' :=
  List.inj_on_of_nodup_map s.roleIds hr hr' h

theorem eq_of_roleName {r r' : Role} (hr : r ∈ s.roles) (hr' : r' ∈ s.roles)
    (h : r.name = r'.name) : r = r' :=
  List.inj_on_of_nodup_map s.roleNames hr hr' h

theorem getRole_of_mem {role : Role} (h : role ∈ s.roles) : s.getRole role.id = some role :=
  find?_key_eq_some h rfl fun _ hr hid => eq_of_roleId hr h hid

theorem renameRole_adminSeeded {roleId : ℕ} {name : String} (h : AdminSeeded s)
    (hname : ∀ role ∈ s.roles, role.isSystem = true → role.id = roleId → name = role.name)
    (hs' : s.renameRole roleId name = .ok s') : AdminSeeded s' := by
  obtain ⟨role, hrole, hadmin, hsystem⟩ := h
  unfold renameRole at hs'
  dsimp only at hs'
  split at hs'
  · cases hs'
    refine ⟨_, List.mem_map_of_mem hrole, ?_, ?_⟩
    · split
      · rename_i hid
        exact (hname role hrole hsystem hid).trans hadmin
      · exact hadmin
    · split <;> exact hsystem
  · cases hs'

theorem updateRole_adminSeeded {roleId : ℕ} {name : Option String} (h : AdminSeeded s)
    (hs' : updateRole s actor roleId name = .ok s') : AdminSeeded s' := by
  unfold updateRole at hs'
  cases hfound : s.getRole roleId with
  | none =>
    rw [hfound] at hs'
    cases hs'
    exact h
  | some role =>
    rw [hfound] at hs'
    obtain ⟨⟨⟩, -, hs'⟩ := bind_eq_ok.mp hs'
    obtain ⟨⟨⟩, hkept, hs'⟩ := bind_eq_ok.mp hs'
    cases name with
    | none =>
      cases hs'
      exact h
    | some name =>
      refine renameRole_adminSeeded h (fun r hr hsystem hid => ?_) hs'
      have hr' : some r = some role := by rw [← hfound, ← hid, getRole_of_mem hr]
      cases hr'
      simpa [hsystem] using refuseIf_eq_ok.mp hkept

theorem deleteRole_adminSeeded {roleId : ℕ} (h : AdminSeeded s)
    (hs' : deleteRole s actor roleId = .ok s') : AdminSeeded s' := by
  obtain ⟨role, hrole, hadmin, hsystem⟩ := h
  obtain ⟨⟨⟩, hkept, hs'⟩ := bind_eq_ok.mp hs'
  obtain ⟨⟨⟩, -, hs'⟩ := bind_eq_ok.mp hs'
  cases hs'
  refine ⟨role, List.mem_filter.mpr ⟨hrole, ?_⟩, hadmin, hsystem⟩
  rw [decide_eq_true_iff]
  rintro rfl
  simp [refuseIf, getRole_of_mem hrole, hsystem] at hkept

/-- No call takes the admin role out of the system roles. -/
theorem run_adminSeeded {call : Call} (h : AdminSeeded s)
    (hs' : call.run s actor rules = .ok s') : AdminSeeded s' := by
  cases call with
  | createRole name isSystem =>
    obtain ⟨⟨⟩, -, hadd⟩ := bind_eq_ok.mp hs'
    obtain ⟨role, hrole, hadmin, hsystem⟩ := h
    unfold addRole at hadd
    split at hadd
    · cases hadd
    · cases hadd
      exact ⟨role, List.mem_append_left _ hrole, hadmin, hsystem⟩
  | updateRole roleId name => exact updateRole_adminSeeded h hs'
  | deleteRole roleId => exact deleteRole_adminSeeded h hs'
  | assignPermissionToRole roleId permissionId granted =>
    obtain ⟨⟨⟩, -, hs'⟩ := bind_eq_ok.mp hs'
    obtain ⟨⟨⟩, -, hs'⟩ := bind_eq_ok.mp hs'
    obtain ⟨⟨⟩, -, hs'⟩ := bind_eq_ok.mp hs'
    cases hs'
    exact h
  | removePermissionFromRole roleId permissionId =>
    obtain ⟨⟨⟩, -, hs'⟩ := bind_eq_ok.mp hs'
    cases hs'
    exact h
  | assignRoleToUser userId roleId =>
    obtain ⟨⟨⟩, -, hs'⟩ := bind_eq_ok.mp hs'
    split at hs'
    · cases hs'
    · obtain ⟨⟨⟩, -, hs'⟩ := bind_eq_ok.mp hs'
      obtain ⟨⟨⟩, -, hs'⟩ := bind_eq_ok.mp hs'
      obtain ⟨⟨⟩, -, hs'⟩ := bind_eq_ok.mp hs'
      cases hs'
      exact h
  | removeRoleFromUser userId roleId =>
    obtain ⟨⟨⟩, -, hs'⟩ := bind_eq_ok.mp hs'
    obtain ⟨⟨⟩, -, hs'⟩ := bind_eq_ok.mp hs'
    obtain ⟨⟨⟩, -, hs'⟩ := bind_eq_ok.mp hs'
    cases hs'
    exact h
  | assignPermissionToUser userId permissionId granted =>
    obtain ⟨⟨⟩, -, hs'⟩ := bind_eq_ok.mp hs'
    obtain ⟨⟨⟩, -, hs'⟩ := bind_eq_ok.mp hs'
    obtain ⟨⟨⟩, -, hs'⟩ := bind_eq_ok.mp hs'
    obtain ⟨⟨⟩, -, hs'⟩ := bind_eq_ok.mp hs'
    cases hs'
    exact h
  | removePermissionFromUser userId permissionId =>
    obtain ⟨⟨⟩, -, hs'⟩ := bind_eq_ok.mp hs'
    cases hs'
    exact h
  | updateUser userId username password isActive =>
    obtain ⟨⟨⟩, -, hs'⟩ := bind_eq_ok.mp hs'
    cases hs'
    exact h
  | deleteUser userId =>
    obtain ⟨⟨⟩, -, hs'⟩ := bind_eq_ok.mp hs'
    cases hs'
    exact h
  | setActive userId isActive =>
    obtain ⟨⟨⟩, -, hs'⟩ := bind_eq_ok.mp hs'
    obtain ⟨⟨⟩, -, hs'⟩ := bind_eq_ok.mp hs'
    cases hs'
    exact h

end Seeded

section Checks

variable {s : Tables} {u v : ℕ} {actor : Option ℕ} {rules : AccountRules} {removal : Removal}

theorem hasRole_iff {name : String} : s.hasRole u name = true ↔
    ∃ role ∈ s.roles, s.userRoles u role.id = true ∧ role.name = name := by
  simp only [Tables.hasRole, getUserRoles, List.any_eq_true, List.mem_filter, beq_iff_eq, and_assoc]

theorem activeAdmin_iff : s.activeAdmin u = true ↔
    (∃ user ∈ s.users, user.id = u ∧ user.isActive = true) ∧ s.hasRole u adminRoleName = true := by
  simp only [activeAdmin, isAdmin, Bool.and_eq_true, List.any_eq_true, beq_iff_eq]

/-- Whoever passes the check is no administrator, or not the last one. -/
theorem other_of_assertNotLastAdmin (hseed : AdminSeeded s) (hleft : ∃ v, s.activeAdmin v = true)
    (h : s.assertNotLastAdmin u = .ok ()) : ∃ v, v ≠ u ∧ s.activeAdmin v = true := by
  obtain ⟨admin, hadmin, hname, -⟩ := hseed
  have hfound : s.getRoleByName adminRoleName = some admin :=
    find?_key_eq_some hadmin hname fun _ hr hid => eq_of_roleName hr hadmin (hid.trans hname.symm)
  unfold assertNotLastAdmin at h
  simp only [hfound] at h
  split at h
  · rename_i hplain
    obtain ⟨v, hv⟩ := hleft
    refine ⟨v, ?_, hv⟩
    rintro rfl
    simp [(activeAdmin_iff.mp hv).2] at hplain
  · split at h
    · cases h
    · rename_i hsome
      rw [List.isEmpty_iff] at hsome
      obtain ⟨user, huser⟩ := List.exists_mem_of_ne_nil _ hsome
      simp only [getUsersWithRole, List.mem_filter, Bool.and_eq_true, Bool.not_true,
        Bool.false_or, decide_eq_true_eq] at huser
      obtain ⟨⟨hmem, hholds, hactive⟩, hother⟩ := huser
      refine ⟨user.id, hother, activeAdmin_iff.mpr ⟨⟨user, hmem, rfl, hactive⟩, ?_⟩⟩
      exact hasRole_iff.mpr ⟨admin, hadmin, hholds, hname⟩

theorem assertCanRemove_ok (h : s.assertCanRemove actor u = .ok ()) :
    s.assertNotLastAdmin u = .ok () := by
  unfold assertCanRemove at h
  split at h
  · cases h
  · obtain ⟨⟨⟩, -, h⟩ := bind_eq_ok.mp h
    exact h

theorem write_activeAdmin (hv : s.activeAdmin v = true) (hne : v ≠ removal.userId) :
    (removal.write s).activeAdmin v = true := by
  obtain ⟨⟨user, huser, rfl, hactive⟩, hrole⟩ := activeAdmin_iff.mp hv
  obtain ⟨role, hmem, hholds, hname⟩ := hasRole_iff.mp hrole
  have hrow : ∀ username isActive,
      user ∈ (s.updateUserRow removal.userId username isActive).users :=
    fun username isActive => List.mem_map.mpr ⟨user, huser, if_neg hne⟩
  rw [activeAdmin_iff, hasRole_iff]
  cases removal with
  | removeRoleFromUser userId roleId =>
    refine ⟨⟨user, huser, rfl, hactive⟩, role, hmem, ?_, hname⟩
    exact (if_neg fun he => hne he.1).trans hholds
  | updateUser userId username password =>
    exact ⟨⟨user, hrow _ _, rfl, hactive⟩, role, hmem, hholds, hname⟩
  | setActive userId => exact ⟨⟨user, hrow _ _, rfl, hactive⟩, role, hmem, hholds, hname⟩
  | deleteUser userId =>
    refine ⟨⟨user, List.mem_filter.mpr ⟨huser, ?_⟩, rfl, hactive⟩, role, hmem, ?_, hname⟩
    · exact decide_eq_true hne
    · exact (if_neg hne).trans hholds

theorem dropUserRole_activeAdmin {userId roleId : ℕ}
    (hother : ∀ role ∈ s.roles, role.id = roleId → role.name ≠ adminRoleName)
    (hv : s.activeAdmin v = true) : (s.dropUserRole userId roleId).activeAdmin v = true := by
  obtain ⟨hactive, hrole⟩ := activeAdmin_iff.mp hv
  obtain ⟨role, hmem, hholds, hname⟩ := hasRole_iff.mp hrole
  refine activeAdmin_iff.mpr ⟨hactive, hasRole_iff.mpr ⟨role, hmem, ?_, hname⟩⟩
  exact (if_neg fun he => hother role hmem he.2 hname).trans hholds

/-- After its check a call leaves another administrator, or it takes a role that matters not. -/
theorem other_of_check (hseed : AdminSeeded s) (hleft : ∃ v, s.activeAdmin v = true)
    (h : removal.check rules s actor = .ok ()) :
    (∃ v, v ≠ removal.userId ∧ s.activeAdmin v = true) ∨
      (∃ userId roleId, removal = .removeRoleFromUser userId roleId) ∧
        ∀ v, s.activeAdmin v = true → (removal.write s).activeAdmin v = true := by
  cases removal with
  | removeRoleFromUser userId roleId =>
    obtain ⟨⟨⟩, -, h⟩ := bind_eq_ok.mp h
    obtain ⟨⟨⟩, -, h⟩ := bind_eq_ok.mp h
    by_cases hother : ∀ role ∈ s.roles, role.id = roleId → role.name ≠ adminRoleName
    · exact .inr ⟨⟨userId, roleId, rfl⟩, fun v hv => dropUserRole_activeAdmin hother hv⟩
    · push Not at hother
      obtain ⟨role, hrole, rfl, hname⟩ := hother
      obtain ⟨admin, hadmin, hadminname, hsystem⟩ := hseed
      obtain rfl := eq_of_roleName hrole hadmin (hname.trans hadminname.symm)
      have hcheck : s.assertNotLastAdmin userId = .ok () := by
        simpa [onlyIf, getRole_of_mem hrole, hsystem, hname] using h
      exact .inl (other_of_assertNotLastAdmin ⟨role, hrole, hname, hsystem⟩ hleft hcheck)
  | updateUser userId username password =>
    obtain ⟨⟨⟩, -, h⟩ := bind_eq_ok.mp h
    obtain ⟨⟨⟩, hremove, -⟩ := bind_eq_ok.mp h
    exact .inl (other_of_assertNotLastAdmin hseed hleft (assertCanRemove_ok hremove))
  | setActive userId =>
    exact .inl (other_of_assertNotLastAdmin hseed hleft (assertCanRemove_ok h))
  | deleteUser userId =>
    exact .inl (other_of_assertNotLastAdmin hseed hleft (assertCanRemove_ok h))

end Checks

section Transactions

variable {s s' : Accounts} {removal : Removal} {pending : Pending}

theorem advance_last (h : s.isLast removal pending = true) :
    s.advance removal pending = some (s.write removal, none) := by
  cases pending with
  | credentials ids =>
    simp only [Accounts.isLast, Bool.and_eq_true, List.isEmpty_iff] at h
    simp only [Accounts.advance, h.1, h.2, Accounts.advanceSchedules]
  | schedules ids =>
    simp only [Accounts.isLast, List.isEmpty_iff] at h
    simp only [Accounts.advance, h, Accounts.advanceSchedules]

theorem commitSchedule_frame {id : ℕ} (h : s.commitSchedule removal id = some s') :
    s'.tables = s.tables ∧ s'.ongoing = s.ongoing := by
  unfold Accounts.commitSchedule at h
  split at h
  · split at h <;> cases h <;> exact ⟨rfl, rfl⟩
  · cases h

theorem deleteCredential_frame {id : ℕ} (h : s.deleteCredential id = some s') :
    s'.tables = s.tables ∧ s'.ongoing = s.ongoing := by
  unfold Accounts.deleteCredential at h
  split at h
  · cases h
    exact ⟨rfl, rfl⟩
  · cases h

theorem advanceSchedules_frame {ids : List ℕ} (hids : ids ≠ []) {next : Option Pending}
    (h : s.advanceSchedules removal ids = some (s', next)) :
    (s'.tables = s.tables ∧ s'.ongoing = s.ongoing) ∧ next ≠ none := by
  cases ids with
  | nil => exact absurd rfl hids
  | cons id ids =>
    obtain ⟨s₁, h₁, he⟩ := Option.map_eq_some_iff.mp h
    cases he
    exact ⟨commitSchedule_frame h₁, nofun⟩

theorem advance_frame (hlast : s.isLast removal pending = false) {next : Option Pending}
    (h : s.advance removal pending = some (s', next)) :
    (s'.tables = s.tables ∧ s'.ongoing = s.ongoing) ∧ next ≠ none := by
  cases pending with
  | credentials ids =>
    cases ids with
    | nil =>
      refine advanceSchedules_frame (fun hids => ?_) h
      simp [Accounts.isLast, hids] at hlast
    | cons id ids =>
      obtain ⟨s₁, h₁, he⟩ := Option.map_eq_some_iff.mp h
      cases he
      exact ⟨deleteCredential_frame h₁, nofun⟩
  | schedules ids =>
    refine advanceSchedules_frame (fun hids => ?_) h
    simp [Accounts.isLast, hids] at hlast

/-- An active administrator is there, and one that no call under way takes away. -/
structure AdminLeft (s : Accounts) : Prop where
  left : ∃ v, s.tables.activeAdmin v = true
  other : ∀ call ∈ s.ongoing, ∃ v, v ≠ call.removal.userId ∧ s.tables.activeAdmin v = true

theorem AdminLeft.commit (hs : AdminLeft s) (hlast : s.isLast removal pending = false)
    (hother : ∃ v, v ≠ removal.userId ∧ s.tables.activeAdmin v = true) :
    AdminLeft (s.proceed removal pending) := by
  unfold Accounts.proceed
  split
  · exact hs
  · rename_i s₁ hadvance
    exact absurd rfl (advance_frame hlast hadvance).2
  · rename_i s₁ next hadvance
    obtain ⟨⟨htables, hongoing⟩, -⟩ := advance_frame hlast hadvance
    refine ⟨by rw [htables]; exact hs.left, fun call hcall => ?_⟩
    rw [htables]
    rcases List.mem_append.mp hcall with hcall | hcall
    · exact hs.other call (hongoing ▸ hcall)
    · rw [List.mem_singleton.mp hcall]
      exact hother

/-- The write, when it takes no administrator away or nobody else is about to. -/
theorem AdminLeft.write (hs : AdminLeft s) (hlast : s.isLast removal pending = true)
    (hother : (∃ v, v ≠ removal.userId ∧ s.tables.activeAdmin v = true) ∨
      ∀ v, s.tables.activeAdmin v = true → (removal.write s.tables).activeAdmin v = true)
    (hfree : s.unhindered removal pending = true) : AdminLeft (s.proceed removal pending) := by
  rw [Accounts.proceed, advance_last hlast]
  by_cases hkeeps : ∀ v, s.tables.activeAdmin v = true →
      (removal.write s.tables).activeAdmin v = true
  · obtain ⟨v, hv⟩ := hs.left
    refine ⟨⟨v, hkeeps v hv⟩, fun call hcall => ?_⟩
    obtain ⟨v', hne, hv'⟩ := hs.other call hcall
    exact ⟨v', hne, hkeeps v' hv'⟩
  · obtain ⟨v, hne, hv⟩ := hother.resolve_right hkeeps
    have hv' := write_activeAdmin hv hne
    refine ⟨⟨v, hv'⟩, fun call hcall => ⟨v, ?_, hv'⟩⟩
    push Not at hkeeps
    obtain ⟨w, hw, hgone⟩ := hkeeps
    obtain rfl : w = removal.userId := by
      by_contra hwne
      exact hgone (write_activeAdmin hw hwne)
    simp only [Accounts.unhindered, hlast, hw, hgone, Bool.not_true, Bool.false_or,
      List.all_eq_true, Bool.or_eq_true, beq_iff_eq, Bool.not_eq_true'] at hfree
    rcases hfree call hcall with he | hno
    · rwa [he]
    · rintro rfl
      rw [hv] at hno
      cases hno

end Transactions

section Runs

variable {rules : AccountRules} {s s' : Accounts}

theorem AdminLeft.without (hs : AdminLeft s) (n : ℕ) : AdminLeft (s.without n) :=
  ⟨hs.left, fun call hcall => hs.other call (List.mem_of_mem_eraseIdx hcall)⟩

theorem AdminLeft.step {move : Move} (hs : AdminLeft s) (hfree : unhinderedMove rules s move = true)
    (h : step rules s move = some s') : AdminLeft s' := by
  cases move with
  | begin actor removal =>
    simp only [Rbac.step, unhinderedMove] at h hfree
    cases hcheck : removal.check rules s.tables actor with
    | error refused =>
      rw [hcheck] at h
      cases h
      exact hs
    | ok =>
      rw [hcheck] at h hfree
      cases h
      have hother := other_of_check s.adminSeeded hs.left hcheck
      cases hlast : s.isLast removal (s.firstPending removal) with
      | true => exact hs.write hlast (hother.imp_right And.right) hfree
      | false =>
        refine hs.commit hlast (hother.resolve_right ?_)
        rintro ⟨⟨userId, roleId, rfl⟩, -⟩
        cases hlast
  | resume n =>
    obtain ⟨call, hcall, rfl⟩ := Option.map_eq_some_iff.mp h
    have hother := hs.other call (List.mem_of_getElem? hcall)
    simp only [unhinderedMove, hcall, Option.all_some] at hfree
    cases hlast : (s.without n).isLast call.removal call.pending with
    | true => exact (hs.without n).write hlast (.inl hother) hfree
    | false => exact (hs.without n).commit hlast hother
  | fail n =>
    obtain ⟨call, -, rfl⟩ := Option.map_eq_some_iff.mp h
    exact hs.without n

/-- An active administrator is left after any interleaving in which administrators are not taken
away between the check and the write of a call that takes away another one. -/
theorem removals_leaveAdmin (rules : AccountRules) (s s' : Accounts) (moves : List Move)
    (hidle : s.ongoing = []) (hadmin : ∃ v, s.tables.activeAdmin v = true)
    (hrun : runSteps (step rules) s moves = some s')
    (hfree : along (step rules) (unhinderedMove rules) s moves = true) :
    ∃ v, s'.tables.activeAdmin v = true := by
  have hstart : AdminLeft s := ⟨hadmin, by simp [hidle]⟩
  have hend : AdminLeft s' :=
    runSteps_induction (fun s move s' hfree h hs => hs.step hfree h) hrun hfree hstart
  exact hend.left

def twoAdmins : Accounts where
  tables := {
    roles := [⟨1, "admin", true⟩]
    users := [⟨1, "alice", true⟩, ⟨2, "bob", true⟩]
    userRoles := fun _ roleId => roleId == 1
    nextRoleId := 2
    permissionIds := by decide
    permissionKeys := by decide
    roleIds := by decide
    roleIdsUsed := by decide
    roleNames := by decide
    userRolesUsed := fun _ roleId h => by rw [beq_iff_eq.mp h]; exact Nat.lt_succ_self 1 }
  schedules := [⟨10, 1, true⟩, ⟨11, 2, true⟩]
  adminSeeded := ⟨⟨1, "admin", true⟩, by decide, by decide, rfl⟩

/-- One after the other, the second deactivation is refused. -/
theorem deactivations_inTurn :
    ∃ s', runSteps (step anyAccount) twoAdmins [.begin (some 2) (.setActive 1), .resume 0,
        .begin none (.setActive 2)] = some s' ∧ ∃ v, s'.tables.activeAdmin v = true := by
  have hrun : (runSteps (step anyAccount) twoAdmins [.begin (some 2) (.setActive 1), .resume 0,
      .begin none (.setActive 2)]).isSome = true := by decide +kernel
  obtain ⟨s', hs'⟩ := Option.isSome_iff_exists.mp hrun
  exact ⟨s', hs', removals_leaveAdmin _ _ _ _ rfl ⟨1, by decide +kernel⟩ hs' (by decide +kernel)⟩

/-- Each of the two is deactivated between the check and the write of the other's deactivation. -/
theorem deactivations_crossed :
    (∃ v, twoAdmins.tables.activeAdmin v = true) ∧ twoAdmins.ongoing = [] ∧
      ∃ s', runSteps (step anyAccount) twoAdmins [.begin (some 2) (.setActive 1),
          .begin (some 1) (.setActive 2), .resume 0, .resume 0] = some s' ∧
        ∀ v, s'.tables.activeAdmin v = false := by
  refine ⟨⟨1, by decide +kernel⟩, rfl, ?_⟩
  have hrun : (runSteps (step anyAccount) twoAdmins [.begin (some 2) (.setActive 1),
      .begin (some 1) (.setActive 2), .resume 0, .resume 0]).any
        (fun s' => s'.tables.users.all fun user => !user.isActive) = true := by decide +kernel
  obtain ⟨s', hs', hinactive⟩ := (Option.any_eq_true _ _).mp hrun
  refine ⟨s', hs', fun v => Bool.eq_false_iff.mpr fun hv => ?_⟩
  obtain ⟨⟨user, huser, -, hactive⟩, -⟩ := activeAdmin_iff.mp hv
  have hno := List.all_eq_true.mp hinactive user huser
  simp [hactive] at hno

end Runs

end Manus.Rbac
