import Manus.Rbac.LastAdmin

/-! # Calls in turn

Calls that run one after the other leave the admin role and an active administrator,
whatever they are and whoever makes them.
-/

namespace Manus.Rbac

open Tables

variable {s s' : Tables} {v : ℕ} {actor : Option ℕ} {rules : AccountRules}

/-- The admin role is a system role, and an active user holds it. -/
structure Administered (s : Tables) : Prop where
  seeded : AdminSeeded s
  admin : ∃ v, s.activeAdmin v = true

/-- The active users, the roles with their names and who holds them: nothing of this is lost. -/
theorem activeAdmin_of_kept (hv : s.activeAdmin v = true)
    (husers : ∀ user ∈ s.users, user.isActive = true →
      ∃ user' ∈ s'.users, user'.id = user.id ∧ user'.isActive = true)
    (hroles : ∀ role ∈ s.roles, role.name = adminRoleName → s.userRoles v role.id = true →
      ∃ role' ∈ s'.roles, role'.name = adminRoleName ∧ s'.userRoles v role'.id = true) :
    s'.activeAdmin v = true := by
  obtain ⟨⟨user, huser, rfl, hactive⟩, hrole⟩ := activeAdmin_iff.mp hv
  obtain ⟨role, hmem, hholds, hname⟩ := hasRole_iff.mp hrole
  obtain ⟨user', huser', hid, hactive'⟩ := husers user huser hactive
  obtain ⟨role', hrole', hname', hholds'⟩ := hroles role hmem hname hholds
  exact activeAdmin_iff.mpr ⟨⟨user', huser', hid, hactive'⟩,
    hasRole_iff.mpr ⟨role', hrole', hholds', hname'⟩⟩

theorem updateUserRow_activeAdmin {userId : ℕ} {username : Option String} {isActive : Option Bool}
    (hactive : isActive ≠ some false) (hv : s.activeAdmin v = true) :
    (s.updateUserRow userId username isActive).activeAdmin v = true := by
  refine activeAdmin_of_kept hv (fun user huser huserActive => ?_) fun role hrole hname hholds =>
    ⟨role, hrole, hname, hholds⟩
  refine ⟨_, List.mem_map_of_mem huser, ?_⟩
  split
  · refine ⟨rfl, ?_⟩
    rcases isActive with _ | _ | _
    · exact huserActive
    · exact absurd rfl hactive
    · rfl
  · exact ⟨rfl, huserActive⟩

/-- A removal that goes through leaves an administrator. -/
theorem removal_leaves (removal : Removal) (h : Administered s)
    (hs' : removal.toCall.run s actor rules = .ok s') : ∃ v, s'.activeAdmin v = true := by
  rw [removal.toCall_run] at hs'
  obtain ⟨⟨⟩, hcheck, rfl⟩ := map_eq_ok.mp hs'
  rcases other_of_check h.seeded h.admin hcheck with ⟨v, hne, hv⟩ | ⟨-, hkept⟩
  · exact ⟨v, write_activeAdmin hv hne⟩
  · obtain ⟨v, hv⟩ := h.admin
    exact ⟨v, hkept v hv⟩

/-- The role that is called admin is the one of the seed. -/
theorem isSystem_of_admin {role : Role} (h : AdminSeeded s) (hrole : role ∈ s.roles)
    (hname : role.name = adminRoleName) : role.isSystem = true := by
  obtain ⟨admin, hadmin, hadminname, hsystem⟩ := h
  rwa [eq_of_roleName hrole hadmin (hname.trans hadminname.symm)]

theorem updateRole_activeAdmin {roleId : ℕ} {name : Option String} (h : AdminSeeded s)
    (hv : s.activeAdmin v = true) (hs' : updateRole s actor roleId name = .ok s') :
    s'.activeAdmin v = true := by
  unfold updateRole at hs'
  cases hfound : s.getRole roleId with
  | none =>
    rw [hfound] at hs'
    cases hs'
    exact hv
  | some found =>
    rw [hfound] at hs'
    obtain ⟨⟨⟩, -, hs'⟩ := bind_eq_ok.mp hs'
    obtain ⟨⟨⟩, hkept, hs'⟩ := bind_eq_ok.mp hs'
    cases name with
    | none =>
      cases hs'
      exact hv
    | some name =>
      unfold Tables.renameRole at hs'
      dsimp only at hs'
      split at hs'
      · cases hs'
        refine activeAdmin_of_kept hv (fun user huser hactive => ⟨user, huser, rfl, hactive⟩)
          fun role hrole hname hholds => ⟨_, List.mem_map_of_mem hrole, ?_⟩
        split
        · next hid =>
          have hsame : some role = some found := by rw [← hfound, ← hid, getRole_of_mem hrole]
          cases hsame
          have hsystem := isSystem_of_admin h hrole hname
          have hrenamed : name = found.name := by
            simpa [hsystem] using refuseIf_eq_ok.mp hkept
          exact ⟨hrenamed.trans hname, hholds⟩
        · exact ⟨hname, hholds⟩
      · cases hs'

theorem deleteRole_activeAdmin {roleId : ℕ} (h : AdminSeeded s) (hv : s.activeAdmin v = true)
    (hs' : deleteRole s actor roleId = .ok s') : s'.activeAdmin v = true := by
  obtain ⟨⟨⟩, hkept, hs'⟩ := bind_eq_ok.mp hs'
  obtain ⟨⟨⟩, -, hs'⟩ := bind_eq_ok.mp hs'
  cases hs'
  refine activeAdmin_of_kept hv (fun user huser hactive => ⟨user, huser, rfl, hactive⟩)
    fun role hrole hname hholds => ?_
  have hother : role.id ≠ roleId := by
    rintro rfl
    simp [refuseIf, getRole_of_mem hrole, isSystem_of_admin h hrole hname] at hkept
  exact ⟨role, List.mem_filter.mpr ⟨hrole, decide_eq_true hother⟩, hname,
    (if_neg hother).trans hholds⟩

theorem call_leaves {call : Call} (h : Administered s)
    (hs' : call.run s actor rules = .ok s') : ∃ v, s'.activeAdmin v = true := by
  obtain ⟨v, hv⟩ := h.admin
  cases call with
  | createRole name isSystem =>
    obtain ⟨⟨⟩, -, hadd⟩ := bind_eq_ok.mp hs'
    unfold addRole at hadd
    split at hadd
    · cases hadd
    · cases hadd
      exact ⟨v, activeAdmin_of_kept hv (fun user huser hactive => ⟨user, huser, rfl, hactive⟩)
        fun role hrole hname hholds => ⟨role, List.mem_append_left _ hrole, hname, hholds⟩⟩
  | updateRole roleId name => exact ⟨v, updateRole_activeAdmin h.seeded hv hs'⟩
  | deleteRole roleId => exact ⟨v, deleteRole_activeAdmin h.seeded hv hs'⟩
  | assignPermissionToRole roleId permissionId granted =>
    obtain ⟨⟨⟩, -, hs'⟩ := bind_eq_ok.mp hs'
    obtain ⟨⟨⟩, -, hs'⟩ := bind_eq_ok.mp hs'
    obtain ⟨⟨⟩, -, hs'⟩ := bind_eq_ok.mp hs'
    cases hs'
    exact ⟨v, hv⟩
  | removePermissionFromRole roleId permissionId =>
    obtain ⟨⟨⟩, -, hs'⟩ := bind_eq_ok.mp hs'
    cases hs'
    exact ⟨v, hv⟩
  | assignRoleToUser userId roleId =>
    obtain ⟨⟨⟩, -, hs'⟩ := bind_eq_ok.mp hs'
    split at hs'
    · cases hs'
    · obtain ⟨⟨⟩, -, hs'⟩ := bind_eq_ok.mp hs'
      obtain ⟨⟨⟩, -, hs'⟩ := bind_eq_ok.mp hs'
      obtain ⟨⟨⟩, -, hs'⟩ := bind_eq_ok.mp hs'
      cases hs'
      refine ⟨v, activeAdmin_of_kept hv (fun user huser hactive => ⟨user, huser, rfl, hactive⟩)
        fun role hrole hname hholds => ⟨role, hrole, hname, ?_⟩⟩
      show setLink _ _ _ _ _ _ = true
      unfold setLink
      split
      · rfl
      · exact hholds
  | removeRoleFromUser userId roleId =>
    exact removal_leaves (.removeRoleFromUser userId roleId) h hs'
  | assignPermissionToUser userId permissionId granted =>
    obtain ⟨⟨⟩, -, hs'⟩ := bind_eq_ok.mp hs'
    obtain ⟨⟨⟩, -, hs'⟩ := bind_eq_ok.mp hs'
    obtain ⟨⟨⟩, -, hs'⟩ := bind_eq_ok.mp hs'
    obtain ⟨⟨⟩, -, hs'⟩ := bind_eq_ok.mp hs'
    cases hs'
    exact ⟨v, hv⟩
  | removePermissionFromUser userId permissionId =>
    obtain ⟨⟨⟩, -, hs'⟩ := bind_eq_ok.mp hs'
    cases hs'
    exact ⟨v, hv⟩
  | updateUser userId username password isActive =>
    by_cases hactive : isActive = some false
    · subst hactive
      exact removal_leaves (.updateUser userId username password) h hs'
    · obtain ⟨⟨⟩, -, hs'⟩ := bind_eq_ok.mp hs'
      cases hs'
      exact ⟨v, updateUserRow_activeAdmin hactive hv⟩
  | deleteUser userId => exact removal_leaves (.deleteUser userId) h hs'
  | setActive userId isActive =>
    cases isActive with
    | false => exact removal_leaves (.setActive userId) h hs'
    | true =>
      obtain ⟨⟨⟩, -, hs'⟩ := bind_eq_ok.mp hs'
      obtain ⟨⟨⟩, -, hs'⟩ := bind_eq_ok.mp hs'
      cases hs'
      exact ⟨v, updateUserRow_activeAdmin (by simp) hv⟩

/-- The tables after calls that run one after the other; one that is refused changes nothing. -/
def inTurn (rules : AccountRules) (s : Tables) (calls : List (Option ℕ × Call)) : Tables :=
  calls.foldl (fun s c => (c.2.run s c.1 rules).toOption.getD s) s

/-- Whoever makes them, calls that run one after the other leave the admin role a system role
and an active user who holds it. -/
theorem inTurn_administered (rules : AccountRules) (s : Tables) (calls : List (Option ℕ × Call))
    (h : Administered s) : Administered (inTurn rules s calls) := by
  unfold inTurn
  induction calls generalizing s with
  | nil => exact h
  | cons c calls ih =>
    rw [List.foldl_cons]
    refine ih _ ?_
    cases hrun : c.2.run s c.1 rules with
    | error refused => exact h
    | ok s' => exact ⟨run_adminSeeded h.seeded hrun, call_leaves h hrun⟩

/-- Two administrators go one after the other: the second one stays. -/
theorem inTurn_twoAdmins : Administered (inTurn anyAccount twoAdmins.tables
    [(some 2, .setActive 1 false), (none, .updateRole 1 (some "user")), (none, .deleteUser 2)]) :=
  inTurn_administered _ _ _ ⟨twoAdmins.adminSeeded, 1, by decide +kernel⟩

end Manus.Rbac
