import Manus.Lib.Steps
import Manus.Rbac.Service

/-! # Removing users from service

A call that may take an administrator away checks, under a lock on the admin role,
that another active one is left. The lock goes with the next commit. A call that
takes the schedules or the private credentials of the user away as well commits
these row by row, after the check and before its own write.
-/

namespace Manus.Rbac

open Tables

/-- The seed makes the admin role a system role. -/
def AdminSeeded (s : Tables) : Prop :=
  ∃ role ∈ s.roles, role.name = adminRoleName ∧ role.isSystem = true

/-- An active user who holds the admin role. -/
def Tables.activeAdmin (s : Tables) (userId : ℕ) : Bool :=
  (s.users.any fun user => user.id == userId && user.isActive) && s.isAdmin (some userId)

structure WorkflowSchedule where
  id : ℕ
  createdById : ℕ
  enabled : Bool := true
  deriving DecidableEq, Repr

structure Credential where
  id : ℕ
  ownerUserId : ℕ
  isPrivate : Bool
  deriving DecidableEq, Repr

/-- The calls that take a user, or a role of a user, out of service. -/
inductive Removal where
  | removeRoleFromUser (userId roleId : ℕ)
  | updateUser (userId : ℕ) (username password : Option String)
  | setActive (userId : ℕ)
  | deleteUser (userId : ℕ)
  deriving DecidableEq, Repr

namespace Removal

def userId : Removal → ℕ
  | removeRoleFromUser userId _ => userId
  | updateUser userId _ _ => userId
  | setActive userId => userId
  | deleteUser userId => userId

def toCall : Removal → Call
  | removeRoleFromUser userId roleId => .removeRoleFromUser userId roleId
  | updateUser userId username password => .updateUser userId username password (some false)
  | setActive userId => .setActive userId false
  | deleteUser userId => .deleteUser userId

def check (rules : AccountRules) (s : Tables) (actor : Option ℕ) : Removal → Except Refused Unit
  | removeRoleFromUser userId roleId => do
    guardTarget s actor userId
    guardSystemRole s actor roleId
    onlyIf ((s.getRole roleId).any fun role => role.isSystem && role.name == adminRoleName)
      (s.assertNotLastAdmin userId)
  | updateUser userId username password =>
    guardUpdateUser s actor rules userId username password (some false)
  | setActive userId => s.assertCanRemove actor userId
  | deleteUser userId => s.assertCanRemove actor userId

def write (s : Tables) : Removal → Tables
  | removeRoleFromUser userId roleId => s.dropUserRole userId roleId
  | updateUser userId username _ => s.updateUserRow userId username (some false)
  | setActive userId => s.updateUserRow userId none (some false)
  | deleteUser userId => s.dropUser userId

/-- On its own a call is its check and then its write. -/
theorem toCall_run (rules : AccountRules) (s : Tables) (actor : Option ℕ) (removal : Removal) :
    removal.toCall.run s actor rules =
      (removal.check rules s actor).map fun _ => removal.write s := by
  cases removal with
  | removeRoleFromUser userId roleId =>
    change (guardTarget s actor userId >>= fun _ => guardSystemRole s actor roleId >>= fun _ =>
      _ >>= fun _ => pure _) = Except.map _ (guardTarget s actor userId >>= fun _ =>
        guardSystemRole s actor roleId >>= fun _ => _)
    cases guardTarget s actor userId <;> cases guardSystemRole s actor roleId <;> rfl
  | updateUser userId username password => rfl
  | setActive userId => rfl
  | deleteUser userId => rfl

end Removal

/-- The rows that a call commits, one by one, before it writes. -/
inductive Pending where
  | credentials (ids : List ℕ)
  | schedules (ids : List ℕ)
  deriving DecidableEq, Repr

/-- A call between two of its commits. -/
structure Ongoing where
  removal : Removal
  pending : Pending
  deriving DecidableEq, Repr

structure Accounts where
  tables : Tables
  schedules : List WorkflowSchedule := []
  credentials : List Credential := []
  ongoing : List Ongoing := []
  adminSeeded : AdminSeeded tables

namespace Accounts

variable (s : Accounts)

def listByCreator (userId : ℕ) : List ℕ :=
  (s.schedules.filter fun schedule => schedule.createdById == userId).map WorkflowSchedule.id

def listPrivateOwnedBy (userId : ℕ) : List ℕ :=
  (s.credentials.filter fun c => c.ownerUserId == userId && c.isPrivate).map Credential.id

def write (removal : Removal) : Accounts :=
  { s with
    tables := removal.write s.tables
    adminSeeded := by cases removal <;> exact s.adminSeeded }

/-- A schedule goes with its user, or is disabled. A row that is gone fails the call. -/
def commitSchedule (removal : Removal) (id : ℕ) : Option Accounts :=
  if s.schedules.any fun schedule => schedule.id == id then
    match removal with
    | .deleteUser _ => some { s with schedules := s.schedules.filter fun row => row.id ≠ id }
    | _ => some { s with schedules := s.schedules.map fun row =>
        if row.id = id then { row with enabled := false } else row }
  else none

def deleteCredential (id : ℕ) : Option Accounts :=
  if s.credentials.any fun c => c.id == id then
    some { s with credentials := s.credentials.filter fun c => c.id ≠ id }
  else none

def advanceSchedules (removal : Removal) : List ℕ → Option (Accounts × Option Pending)
  | [] => some (s.write removal, none)
  | id :: ids => (s.commitSchedule removal id).map fun s' => (s', some (.schedules ids))

/-- One transaction of a call, with what is left to do after it. -/
def advance (removal : Removal) : Pending → Option (Accounts × Option Pending)
  | .credentials [] => s.advanceSchedules removal (s.listByCreator removal.userId)
  | .credentials (id :: ids) => (s.deleteCredential id).map fun s' => (s', some (.credentials ids))
  | .schedules ids => s.advanceSchedules removal ids

/-- What a call commits first, when the user is there. -/
def firstPending (removal : Removal) : Pending :=
  match removal, (s.tables.getById removal.userId).isSome with
  | .updateUser userId _ _, true => .schedules (s.listByCreator userId)
  | .setActive userId, true => .schedules (s.listByCreator userId)
  | .deleteUser userId, true => .credentials (s.listPrivateOwnedBy userId)
  | _, _ => .schedules []

/-- The accounts after a transaction of a call; one that fails is rolled back and ends the call. -/
def proceed (removal : Removal) (pending : Pending) : Accounts :=
  match s.advance removal pending with
  | none => s
  | some (s', none) => s'
  | some (s', some pending') => { s' with ongoing := s'.ongoing ++ [⟨removal, pending'⟩] }

/-- The accounts without a call that is under way. -/
def without (n : ℕ) : Accounts := { s with ongoing := s.ongoing.eraseIdx n }

end Accounts

/-- A call begins with the check, goes on after a commit, or fails between two. -/
inductive Move where
  | begin (actor : Option ℕ) (removal : Removal)
  | resume (n : ℕ)
  | fail (n : ℕ)
  deriving DecidableEq, Repr

def step (rules : AccountRules) (s : Accounts) : Move → Option Accounts
  | .begin actor removal =>
    match removal.check rules s.tables actor with
    | .error _ => some s
    | .ok _ => some (s.proceed removal (s.firstPending removal))
  | .resume n => s.ongoing[n]?.map fun call => (s.without n).proceed call.removal call.pending
  | .fail n => s.ongoing[n]?.map fun _ => s.without n

/-- Nothing is left to commit before the write. -/
def Accounts.isLast (s : Accounts) (removal : Removal) : Pending → Bool
  | .credentials ids => ids.isEmpty && (s.listByCreator removal.userId).isEmpty
  | .schedules ids => ids.isEmpty

/-- A write that takes an active administrator away happens while no other call that has made its
check is about to take another one away. -/
def Accounts.unhindered (s : Accounts) (removal : Removal) (pending : Pending) : Bool :=
  !s.isLast removal pending || !s.tables.activeAdmin removal.userId ||
    (removal.write s.tables).activeAdmin removal.userId ||
    s.ongoing.all fun call => call.removal.userId == removal.userId ||
      !s.tables.activeAdmin call.removal.userId

def unhinderedMove (rules : AccountRules) (s : Accounts) : Move → Bool
  | .begin actor removal =>
    match removal.check rules s.tables actor with
    | .error _ => true
    | .ok _ => s.unhindered removal (s.firstPending removal)
  | .resume n => s.ongoing[n]?.all fun call => (s.without n).unhindered call.removal call.pending
  | .fail _ => true

end Manus.Rbac
