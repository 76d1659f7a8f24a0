import Manus.Context.Guards
import Manus.Context.Merge
import Manus.Lib.Except
import Manus.Lib.Table
import Mathlib.Data.Finset.Max
import Mathlib.Data.Prod.Lex
import Mathlib.Data.String.Basic

/-! # Roles and permissions

A user holds permissions through roles, and an override of the user's own beats
them in both directions. The services check what an actor may change before they
write; an administrator may change everything.
-/

namespace Manus.Rbac

structure Permission where
  id : ℕ
  resource : String
  action : String
  deriving DecidableEq, Repr

def Permission.key (p : Permission) : String × String := (p.resource, p.action)

structure Role where
  id : ℕ
  name : String
  isSystem : Bool := false
  deriving DecidableEq, Repr

structure User where
  id : ℕ
  username : String
  isActive : Bool := true
  deriving DecidableEq, Repr

/-- The tables, with their unique columns. A row that links two others is a value of a function of
their ids. -/
structure Tables where
  permissions : List Permission := []
  roles : List Role := []
  users : List User := []
  rolePermissions : ℕ → ℕ → Option Bool := fun _ _ => none
  userRoles : ℕ → ℕ → Bool := fun _ _ => false
  userPermissions : ℕ → ℕ → Option Bool := fun _ _ => none
  nextRoleId : ℕ := 1
  permissionIds : (permissions.map Permission.id).Nodup
  permissionKeys : (permissions.map Permission.key).Nodup
  roleIds : (roles.map Role.id).Nodup
  roleIdsUsed : ∀ role ∈ roles, role.id < nextRoleId
  roleNames : (roles.map Role.name).Nodup
  userRolesUsed : ∀ userId roleId, userRoles userId roleId = true → roleId < nextRoleId

/-- Why a call is refused; the database refuses rows that break a constraint. -/
inductive Refused where
  | accessDenied (message : String)
  | conflict (message : String)
  | invalid (message : String)
  | integrity
  deriving DecidableEq, Repr

/-- What the account rules of the surroundings say. -/
structure AccountRules where
  lower : String → String
  strip : String → String
  validatePassword : String → Option String → Except String Unit

/-- Rules under which every password will do. -/
def anyAccount : AccountRules := ⟨id, id, fun _ _ => .ok ()⟩

section Protected

def adminRoleName : String := "admin"

def protectedResources : List String := ["rbac.", "users", "system.", "secret_manager."]

def protectedSourceActions : List String := ["write", "delete"]

def protectedGitActions : List String := ["write", "delete"]

def protectedWorkflowActions : List String := ["release_ai"]

/-- `text.rstrip(".")`. -/
def rstripDots (text : String) : String :=
  String.ofList (text.toList.reverse.dropWhile (· == '.')).reverse

/-- Permissions that only an administrator hands out. -/
def isProtectedKey (key : String × String) : Bool :=
  (key.1 == "workflows" && decide (key.2 ∈ protectedWorkflowActions)) ||
    (startsWith key.1 "sources." && decide (key.2 ∈ protectedSourceActions)) ||
    (key.1 == "git.repositories" && decide (key.2 ∈ protectedGitActions)) ||
    protectedResources.any fun resource => key.1 == rstripDots resource || startsWith key.1 resource

def isProtected (p : Permission) : Bool := isProtectedKey p.key

end Protected

namespace Tables

section Reads

variable (s : Tables)

def getPermission (resource action : String) : Option Permission :=
  s.permissions.find? fun p => p.key == (resource, action)

def getPermissionById (permissionId : ℕ) : Option Permission :=
  s.permissions.find? fun p => p.id == permissionId

def getRole (roleId : ℕ) : Option Role := s.roles.find? fun role => role.id == roleId

def getRoleByName (name : String) : Option Role := s.roles.find? fun role => role.name == name

def getById (userId : ℕ) : Option User := s.users.find? fun user => user.id == userId

def getRolePermissions (roleId : ℕ) : List Permission :=
  s.permissions.filter fun p => s.rolePermissions roleId p.id == some true

def getUserRoles (userId : ℕ) : List Role := s.roles.filter fun role => s.userRoles userId role.id

def getUsersWithRole (roleId : ℕ) (activeOnly : Bool) : List User :=
  s.users.filter fun user => s.userRoles user.id roleId && (!activeOnly || user.isActive)

def userHasPermissionViaRoles (userId permissionId : ℕ) : Bool :=
  (s.getUserRoles userId).any fun role => s.rolePermissions role.id permissionId == some true

def getUserPermissionOverridesWithStatus (userId : ℕ) : List (Permission × Bool) :=
  s.permissions.filterMap fun p => (s.userPermissions userId p.id).map fun granted => (p, granted)

def hasRole (userId : ℕ) (name : String) : Bool :=
  (s.getUserRoles userId).any fun role => role.name == name

def hasPermission (userId : ℕ) (resource action : String) : Bool :=
  match s.getPermission resource action with
  | none => false
  | some p =>
    match s.userPermissions userId p.id with
    | some granted => granted
    | none => s.userHasPermissionViaRoles userId p.id

/-- What a user may do: what the roles grant, with the overrides on top. -/
def getEffectivePermissions (userId : ℕ) : Finset (String × String) :=
  (s.getUserPermissionOverridesWithStatus userId).foldl
    (fun merged p => if p.2 then insert p.1.key merged else merged.erase p.1.key)
    ((s.getUserRoles userId).flatMap fun role => (s.getRolePermissions role.id).map
      Permission.key).toFinset

def isAdmin : Option ℕ → Bool
  | none => false
  | some userId => s.hasRole userId adminRoleName

end Reads

section Guards

variable (s : Tables) (actor : Option ℕ)

def requireAdminActor : Except Refused Unit :=
  if actor.isNone || s.isAdmin actor then .ok ()
  else .error (.accessDenied "Admin role required to modify system roles")

def assertNotSelf (target : ℕ) : Except Refused Unit :=
  if actor = some target then
    .error (.accessDenied "You cannot change your own roles or permissions")
  else .ok ()

/-- Only an administrator changes an administrator. -/
def mayTouchTarget (target : ℕ) : Except Refused Unit :=
  if actor.isNone || s.isAdmin actor then .ok ()
  else if s.isAdmin (some target) then
    .error (.accessDenied "Admin role required to modify an administrator")
  else .ok ()

/-- What an actor hands out, the actor holds, and it is not protected. -/
def assertActorHolds (permissions : List Permission) : Except Refused Unit :=
  match actor with
  | none => .ok ()
  | some a =>
    if s.isAdmin actor then .ok ()
    else permissions.forM fun p =>
      if isProtected p then
        .error (.accessDenied ("Admin role required to grant " ++ p.resource ++ ":" ++ p.action))
      else if s.hasPermission a p.resource p.action then .ok ()
      else .error (.accessDenied ("You cannot grant " ++ p.resource ++ ":" ++ p.action ++
        " because you do not hold it"))

/-- Who sets the password of a user, or renames one, holds whatever the user holds. -/
def assertMayTakeOver (target : ℕ) : Except Refused Unit :=
  match actor with
  | none => .ok ()
  | some a =>
    if a = target ∨ s.isAdmin actor = true then .ok ()
    else
      let tooMuch := (s.getEffectivePermissions target).filter fun key =>
        isProtectedKey key || !s.hasPermission a key.1 key.2
      match (tooMuch.image toLex).min with
      | none => .ok ()
      | some key => .error (.accessDenied
          ("Admin role required to reset the password or rename a user who holds " ++
            (ofLex key).1 ++ ":" ++ (ofLex key).2))

/-- An active administrator other than the given user is left. -/
def assertNotLastAdmin (userId : ℕ) : Except Refused Unit :=
  match s.getRoleByName adminRoleName with
  | none => .ok ()
  | some role =>
    if !s.hasRole userId adminRoleName then .ok ()
    else if ((s.getUsersWithRole role.id true).filter fun user => user.id ≠ userId).isEmpty then
      .error (.accessDenied "The last administrator cannot be removed")
    else .ok ()

def assertCanRemove (target : ℕ) : Except Refused Unit :=
  if actor = some target then
    .error (.accessDenied "You cannot delete or deactivate your own account")
  else do
    s.mayTouchTarget actor target
    s.assertNotLastAdmin target

end Guards

section Writes

variable {γ : Type}

/-- The row that links two others. -/
def setLink (rows : ℕ → ℕ → γ) (a b : ℕ) (row : γ) : ℕ → ℕ → γ :=
  fun x y => if x = a ∧ y = b then row else rows x y

variable (s : Tables)

def setRolePermission (roleId permissionId : ℕ) (row : Option Bool) : Tables :=
  { s with rolePermissions := setLink s.rolePermissions roleId permissionId row }

def addUserRole (userId : ℕ) (role : Role) (h : role ∈ s.roles) : Tables :=
  { s with
    userRoles := setLink s.userRoles userId role.id true
    userRolesUsed := by
      intro u r hr
      unfold setLink at hr
      split at hr
      · rename_i he
        rw [he.2]
        exact s.roleIdsUsed role h
      · exact s.userRolesUsed u r hr }

def dropUserRole (userId roleId : ℕ) : Tables :=
  { s with
    userRoles := setLink s.userRoles userId roleId false
    userRolesUsed := by
      intro u r hr
      unfold setLink at hr
      split at hr
      · cases hr
      · exact s.userRolesUsed u r hr }

def setUserPermission (userId permissionId : ℕ) (row : Option Bool) : Tables :=
  { s with userPermissions := setLink s.userPermissions userId permissionId row }

def addRole (name : String) (isSystem : Bool) : Except Refused Tables :=
  if h : name ∈ s.roles.map Role.name then .error .integrity
  else .ok { s with
    roles := s.roles ++ [⟨s.nextRoleId, name, isSystem⟩]
    nextRoleId := s.nextRoleId + 1
    roleIds := by
      rw [List.map_append, List.nodup_append]
      refine ⟨s.roleIds, List.nodup_singleton _, fun a ha b hb he => ?_⟩
      obtain ⟨role, hrole, rfl⟩ := List.mem_map.mp ha
      obtain rfl := List.mem_singleton.mp hb
      exact absurd he (Nat.ne_of_lt (s.roleIdsUsed role hrole))
    roleIdsUsed := by
      intro role hrole
      rcases List.mem_append.mp hrole with hrole | hrole
      · exact Nat.lt_succ_of_lt (s.roleIdsUsed role hrole)
      · obtain rfl := List.mem_singleton.mp hrole
        exact Nat.lt_succ_self _
    roleNames := by
      rw [List.map_append, List.nodup_append]
      refine ⟨s.roleNames, List.nodup_singleton _, fun a ha b hb he => ?_⟩
      obtain rfl := List.mem_singleton.mp hb
      exact h (he ▸ ha)
    userRolesUsed := fun u r hr => Nat.lt_succ_of_lt (s.userRolesUsed u r hr) }

/-- Roles under new names, as long as these stay unique. -/
def renameRole (roleId : ℕ) (name : String) : Except Refused Tables :=
  let roles := s.roles.map fun role => if role.id = roleId then { role with name } else role
  if h : (roles.map Role.name).Nodup then .ok { s with
    roles
    roleIds := by
      have hids : roles.map Role.id = s.roles.map Role.id := by
        rw [List.map_map]
        refine List.map_congr_left fun role _ => ?_
        rw [Function.comp_apply]
        split <;> rfl
      rw [hids]
      exact s.roleIds
    roleIdsUsed := by
      intro role hrole
      obtain ⟨role', hmem, rfl⟩ := List.mem_map.mp hrole
      have hid := s.roleIdsUsed role' hmem
      split <;> exact hid
    roleNames := h }
  else .error .integrity

def dropRole (roleId : ℕ) : Tables :=
  { s with
    roles := s.roles.filter fun role => role.id ≠ roleId
    rolePermissions := fun r p => if r = roleId then none else s.rolePermissions r p
    userRoles := fun u r => if r = roleId then false else s.userRoles u r
    roleIds := s.roleIds.sublist (List.filter_sublist.map _)
    roleIdsUsed := fun role hrole => s.roleIdsUsed role (List.mem_filter.mp hrole).1
    roleNames := s.roleNames.sublist (List.filter_sublist.map _)
    userRolesUsed := by
      intro u r hr
      split at hr
      · cases hr
      · exact s.userRolesUsed u r hr }

def dropUser (userId : ℕ) : Tables :=
  { s with
    users := s.users.filter fun user => user.id ≠ userId
    userRoles := fun u r => if u = userId then false else s.userRoles u r
    userPermissions := fun u p => if u = userId then none else s.userPermissions u p
    userRolesUsed := by
      intro u r hr
      split at hr
      · cases hr
      · exact s.userRolesUsed u r hr }

def updateUserRow (userId : ℕ) (username : Option String) (isActive : Option Bool) : Tables :=
  { s with users := s.users.map fun user => if user.id = userId then
      { user with username := username.getD user.username, isActive := isActive.getD user.isActive }
    else user }

end Writes

end Tables

section Calls

open Tables

def onlyIf (condition : Bool) (check : Except Refused Unit) : Except Refused Unit :=
  if condition then check else .ok ()

def refuseIf (condition : Bool) (refused : Refused) : Except Refused Unit :=
  if condition then .error refused else .ok ()

variable (s : Tables) (actor : Option ℕ)

/-- A system role is changed by an administrator only. -/
def guardSystemRole (roleId : ℕ) : Except Refused Unit :=
  onlyIf ((s.getRole roleId).any Role.isSystem) (s.requireAdminActor actor)

def createRole (name : String) (isSystem : Bool) : Except Refused Tables := do
  onlyIf isSystem (s.requireAdminActor actor)
  s.addRole name isSystem

def updateRole (roleId : ℕ) (name : Option String) : Except Refused Tables :=
  match s.getRole roleId with
  | none => .ok s
  | some role => do
    onlyIf role.isSystem (s.requireAdminActor actor)
    refuseIf (role.isSystem && name.any fun name => name ≠ role.name)
      (.accessDenied "System roles cannot be renamed")
    match name with
    | none => .ok s
    | some name => s.renameRole roleId name

def deleteRole (roleId : ℕ) : Except Refused Tables := do
  refuseIf ((s.getRole roleId).any Role.isSystem) (.conflict "System roles cannot be deleted")
  refuseIf (actor.isSome && !s.isAdmin actor &&
      (s.getUsersWithRole roleId false).any fun holder => s.isAdmin (some holder.id))
    (.accessDenied "Admin role required to delete a role held by an administrator")
  return s.dropRole roleId

def assignPermissionToRole (roleId permissionId : ℕ) (granted : Bool) : Except Refused Tables := do
  guardSystemRole s actor roleId
  onlyIf granted (s.assertActorHolds actor (s.getPermissionById permissionId).toList)
  refuseIf ((s.getRole roleId).isNone || (s.getPermissionById permissionId).isNone) .integrity
  return s.setRolePermission roleId permissionId (some granted)

def removePermissionFromRole (roleId permissionId : ℕ) : Except Refused Tables := do
  guardSystemRole s actor roleId
  return s.setRolePermission roleId permissionId none

/-- Nobody changes their own roles and permissions, and only an administrator those of one. -/
def guardTarget (userId : ℕ) : Except Refused Unit := do
  assertNotSelf actor userId
  s.mayTouchTarget actor userId

def assignRoleToUser (userId roleId : ℕ) : Except Refused Tables := do
  guardTarget s actor userId
  match h : s.getRole roleId with
  | none => .error .integrity
  | some role => do
    onlyIf role.isSystem (s.requireAdminActor actor)
    onlyIf (!role.isSystem) (s.assertActorHolds actor (s.getRolePermissions role.id))
    refuseIf (s.getById userId).isNone .integrity
    return s.addUserRole userId role (List.mem_of_find?_eq_some h)

def removeRoleFromUser (userId roleId : ℕ) : Except Refused Tables := do
  guardTarget s actor userId
  guardSystemRole s actor roleId
  onlyIf ((s.getRole roleId).any fun role => role.isSystem && role.name == adminRoleName)
    (s.assertNotLastAdmin userId)
  return s.dropUserRole userId roleId

def assignPermissionToUser (userId permissionId : ℕ) (granted : Bool) : Except Refused Tables := do
  guardTarget s actor userId
  onlyIf granted (s.assertActorHolds actor (s.getPermissionById permissionId).toList)
  onlyIf (!granted && (s.getPermissionById permissionId).any isProtected)
    (s.requireAdminActor actor)
  refuseIf ((s.getById userId).isNone || (s.getPermissionById permissionId).isNone) .integrity
  return s.setUserPermission userId permissionId (some granted)

def removePermissionFromUser (userId permissionId : ℕ) : Except Refused Tables := do
  guardTarget s actor userId
  return s.setUserPermission userId permissionId none

/-- Usernames are unique up to case. -/
def assertUsernameFree (rules : AccountRules) (username : String) (exceptUserId : ℕ) :
    Except Refused Unit :=
  refuseIf ((s.users.find? fun user =>
      rules.lower user.username == rules.lower (rules.strip username)).any fun user =>
        user.id ≠ exceptUserId)
    (.conflict "Username already exists")

/-- The checks of an update of a user, before anything is written. -/
def guardUpdateUser (rules : AccountRules) (userId : ℕ) (username password : Option String)
    (isActive : Option Bool) : Except Refused Unit := do
  s.mayTouchTarget actor userId
  onlyIf (isActive == some false) (s.assertCanRemove actor userId)
  onlyIf username.isSome (assertUsernameFree s rules (username.getD "") userId)
  refuseIf ((password.isSome || username.isSome) && actor == some userId)
    (.accessDenied ("You cannot change your own password or username here; " ++
      "change your password via the change-password dialog " ++
      "(an administrator renames accounts)"))
  onlyIf (password.isSome || username.isSome) (s.assertMayTakeOver actor userId)
  onlyIf password.isSome ((rules.validatePassword (password.getD "")
    ((username.filter (· ≠ "")).or ((s.getById userId).map User.username))).mapError .invalid)

def updateUser (rules : AccountRules) (userId : ℕ) (username password : Option String)
    (isActive : Option Bool) : Except Refused Tables := do
  guardUpdateUser s actor rules userId username password isActive
  return s.updateUserRow userId username isActive

def deleteUser (userId : ℕ) : Except Refused Tables := do
  s.assertCanRemove actor userId
  return s.dropUser userId

/-- An account is taken out of use, or back into it. -/
def setActive (userId : ℕ) (isActive : Bool) : Except Refused Tables := do
  onlyIf isActive (s.mayTouchTarget actor userId)
  onlyIf (!isActive) (s.assertCanRemove actor userId)
  return s.updateUserRow userId none (some isActive)

inductive Call where
  | createRole (name : String) (isSystem : Bool)
  | updateRole (roleId : ℕ) (name : Option String)
  | deleteRole (roleId : ℕ)
  | assignPermissionToRole (roleId permissionId : ℕ) (granted : Bool)
  | removePermissionFromRole (roleId permissionId : ℕ)
  | assignRoleToUser (userId roleId : ℕ)
  | removeRoleFromUser (userId roleId : ℕ)
  | assignPermissionToUser (userId permissionId : ℕ) (granted : Bool)
  | removePermissionFromUser (userId permissionId : ℕ)
  | updateUser (userId : ℕ) (username password : Option String) (isActive : Option Bool)
  | deleteUser (userId : ℕ)
  | setActive (userId : ℕ) (isActive : Bool)
  deriving DecidableEq, Repr

def Call.run (rules : AccountRules) : Call → Except Refused Tables
  | .createRole name isSystem => Rbac.createRole s actor name isSystem
  | .updateRole roleId name => Rbac.updateRole s actor roleId name
  | .deleteRole roleId => Rbac.deleteRole s actor roleId
  | .assignPermissionToRole roleId permissionId granted =>
    Rbac.assignPermissionToRole s actor roleId permissionId granted
  | .removePermissionFromRole roleId permissionId =>
    Rbac.removePermissionFromRole s actor roleId permissionId
  | .assignRoleToUser userId roleId => Rbac.assignRoleToUser s actor userId roleId
  | .removeRoleFromUser userId roleId => Rbac.removeRoleFromUser s actor userId roleId
  | .assignPermissionToUser userId permissionId granted =>
    Rbac.assignPermissionToUser s actor userId permissionId granted
  | .removePermissionFromUser userId permissionId =>
    Rbac.removePermissionFromUser s actor userId permissionId
  | .updateUser userId username password isActive =>
    Rbac.updateUser s actor rules userId username password isActive
  | .deleteUser userId => Rbac.deleteUser s actor userId
  | .setActive userId isActive => Rbac.setActive s actor userId isActive

/-- The tables after a call of a user; a call that is refused changes nothing. -/
def Call.after (rules : AccountRules) (s : Tables) (actor : ℕ) (call : Call) : Tables :=
  match call.run s (some actor) rules with
  | .ok s' => s'
  | .error _ => s

end Calls

end Manus.Rbac
