import Manus.Rbac.Service

/-! # What actors hand out

What a user holds is decided permission by permission: by the override of the
user, or else by the roles. A call of an actor who is no administrator adds to
what users hold only what the actor holds and what is not protected, with one
exception: taking back a denial brings back whatever the roles grant.
-/

namespace Manus.Rbac

open Tables

section Holding

variable {s : Tables} {u : ℕ} {p : Permission} {key : String × String}

def GrantedByRole (s : Tables) (u permissionId : ℕ) : Prop :=
  ∃ role ∈ s.roles, s.userRoles u role.id = true ∧
    s.rolePermissions role.id permissionId = some true

def Holds (s : Tables) (u : ℕ) (p : Permission) : Prop :=
  s.userPermissions u p.id = some true ∨
    s.userPermissions u p.id = none ∧ GrantedByRole s u p.id

theorem userHasPermissionViaRoles_iff {permissionId : ℕ} :
    s.userHasPermissionViaRoles u permissionId = true ↔ GrantedByRole s u permissionId := by
  simp [userHasPermissionViaRoles, getUserRoles, GrantedByRole]

theorem eq_of_key {q : Permission} (hp : p ∈ s.permissions) (hq : q ∈ s.permissions)
    (h : p.key = q.key) : p = q :=
  List.inj_on_of_nodup_map s.permissionKeys hp hq h

theorem eq_of_permissionId {q : Permission} (hp : p ∈ s.permissions) (hq : q ∈ s.permissions)
    (h : p.id = q.id) : p = q :=
  List.inj_on_of_nodup_map s.permissionIds hp hq h

theorem getPermission_of_mem (hp : p ∈ s.permissions) :
    s.getPermission p.resource p.action = some p :=
  find?_key_eq_some hp rfl fun _ hq hkey => eq_of_key hq hp hkey

theorem hasPermission_iff (hp : p ∈ s.permissions) :
    s.hasPermission u p.resource p.action = true ↔ Holds s u p := by
  unfold hasPermission Holds
  simp only [getPermission_of_mem hp]
  cases s.userPermissions u p.id with
  | none => simp [userHasPermissionViaRoles_iff]
  | some granted => simp

/-- Overrides on top of what was there: the last word about a key is its override's. -/
theorem mem_foldl_overrides {l : List (Permission × Bool)} {merged : Finset (String × String)}
    (h : (l.map fun q => q.1.key).Nodup) :
    key ∈ l.foldl (fun merged q => if q.2 then insert q.1.key merged else merged.erase q.1.key)
      merged ↔ (∃ q ∈ l, q.1.key = key ∧ q.2 = true) ∨
        key ∈ merged ∧ ∀ q ∈ l, q.1.key ≠ key := by
  induction l generalizing merged with
  | nil => simp
  | cons q l ih =>
    rw [List.map_cons, List.nodup_cons] at h
    rw [List.foldl_cons, ih h.2]
    have hrest : q.1.key = key → ∀ q' ∈ l, q'.1.key ≠ key := by
      rintro rfl q' hq' he
      exact h.1 (he ▸ List.mem_map_of_mem (f := fun q : Permission × Bool => q.1.key) hq')
    by_cases hkey : q.1.key = key
    · have hnone : ¬ ∃ q' ∈ l, q'.1.key = key ∧ q'.2 = true :=
        fun ⟨q', hq', he, _⟩ => hrest hkey q' hq' he
      cases hq : q.2 with
      | true =>
        simp only [hkey, if_true, Finset.mem_insert_self, true_and, hnone, false_or]
        exact ⟨fun _ => .inl ⟨q, List.mem_cons_self, hkey, hq⟩, fun _ => hrest hkey⟩
      | false =>
        simp only [hkey, Bool.false_eq_true, if_false, Finset.mem_erase, ne_eq, not_true_eq_false,
          false_and, hnone, or_self, false_iff, not_or]
        refine ⟨?_, fun hall => hall.2 q List.mem_cons_self hkey⟩
        rintro ⟨q', hq', he, ht⟩
        rcases List.mem_cons.mp hq' with rfl | hq'
        · simp [hq] at ht
        · exact hnone ⟨q', hq', he, ht⟩
    · have hne : key ≠ q.1.key := fun he => hkey he.symm
      cases q.2 <;> simp [hkey, hne]

/-- The effective permissions of a user are the ones they hold. -/
theorem mem_getEffectivePermissions :
    key ∈ s.getEffectivePermissions u ↔ ∃ p ∈ s.permissions, p.key = key ∧ Holds s u p := by
  have hkeys : ((s.getUserPermissionOverridesWithStatus u).map fun q => q.1.key).Nodup := by
    refine s.permissionKeys.sublist ?_
    unfold getUserPermissionOverridesWithStatus
    rw [List.map_filterMap]
    induction s.permissions with
    | nil => exact List.Sublist.slnil
    | cons p permissions ih =>
      cases hrow : s.userPermissions u p.id with
      | none =>
        rw [List.filterMap_cons_none (by simp [hrow]), List.map_cons]
        exact ih.cons _
      | some granted =>
        rw [List.filterMap_cons_some (b := p.key) (by simp [hrow]), List.map_cons]
        exact ih.cons_cons _
  have hover : ∀ q : Permission × Bool, q ∈ s.getUserPermissionOverridesWithStatus u ↔
      q.1 ∈ s.permissions ∧ s.userPermissions u q.1.id = some q.2 := by
    rintro ⟨p, granted⟩
    simp only [getUserPermissionOverridesWithStatus, List.mem_filterMap, Option.map_eq_some_iff,
      Prod.mk.injEq]
    constructor
    · rintro ⟨p', hp', granted', hrow, rfl, rfl⟩
      exact ⟨hp', hrow⟩
    · rintro ⟨hp, hrow⟩
      exact ⟨p, hp, granted, hrow, rfl, rfl⟩
  have hroles : key ∈ ((s.getUserRoles u).flatMap fun role => (s.getRolePermissions role.id).map
      Permission.key).toFinset ↔ ∃ p ∈ s.permissions, p.key = key ∧ GrantedByRole s u p.id := by
    simp only [List.mem_toFinset, List.mem_flatMap, getUserRoles, List.mem_filter, List.mem_map,
      getRolePermissions, beq_iff_eq, GrantedByRole]
    constructor
    · rintro ⟨role, ⟨hrole, hu⟩, p, ⟨hp, hgrant⟩, he⟩
      exact ⟨p, hp, he, role, hrole, hu, hgrant⟩
    · rintro ⟨p, hp, he, role, hrole, hu, hgrant⟩
      exact ⟨role, ⟨hrole, hu⟩, p, ⟨hp, hgrant⟩, he⟩
  unfold getEffectivePermissions
  rw [mem_foldl_overrides hkeys, hroles]
  constructor
  · rintro (⟨q, hq, he, ht⟩ | ⟨⟨p, hp, he, hgrant⟩, hnone⟩)
    · obtain ⟨hmem, hrow⟩ := (hover q).mp hq
      exact ⟨q.1, hmem, he, .inl (ht ▸ hrow)⟩
    · refine ⟨p, hp, he, .inr ⟨?_, hgrant⟩⟩
      cases hrow : s.userPermissions u p.id with
      | none => rfl
      | some granted => exact absurd he (hnone (p, granted) ((hover _).mpr ⟨hp, hrow⟩))
  · rintro ⟨p, hp, he, hrow | ⟨hrow, hgrant⟩⟩
    · exact .inl ⟨(p, true), (hover _).mpr ⟨hp, hrow⟩, he, rfl⟩
    · refine .inr ⟨⟨p, hp, he, hgrant⟩, fun q hq he' => ?_⟩
      obtain ⟨hmem, hrow'⟩ := (hover q).mp hq
      rw [eq_of_key hmem hp (he'.trans he.symm), hrow] at hrow'
      cases hrow'

end Holding

section Writes

variable {s : Tables} {u : ℕ} {p : Permission}

theorem holds_setRolePermission {roleId permissionId : ℕ} {row : Option Bool}
    (h : Holds (s.setRolePermission roleId permissionId row) u p) :
    Holds s u p ∨ row = some true ∧ p.id = permissionId := by
  by_cases hnew : row = some true ∧ p.id = permissionId
  · exact .inr hnew
  · refine .inl (h.imp_right fun ⟨hnone, role, hrole, hu, hgrant⟩ => ⟨hnone, role, hrole, hu, ?_⟩)
    simp only [setRolePermission, setLink] at hgrant
    split at hgrant
    · rename_i he
      exact absurd ⟨hgrant, he.2⟩ hnew
    · exact hgrant

theorem holds_addUserRole {userId : ℕ} {role : Role} (hrole : role ∈ s.roles)
    (h : Holds (s.addUserRole userId role hrole) u p) :
    Holds s u p ∨ s.rolePermissions role.id p.id = some true := by
  by_cases hnew : s.rolePermissions role.id p.id = some true
  · exact .inr hnew
  · refine .inl (h.imp_right fun ⟨hnone, role', hrole', hu, hgrant⟩ =>
      ⟨hnone, role', hrole', ?_, hgrant⟩)
    simp only [addUserRole, setLink] at hu
    split at hu
    · rename_i he
      rw [he.2] at hgrant
      exact absurd hgrant hnew
    · exact hu

theorem holds_dropUserRole {userId roleId : ℕ} (h : Holds (s.dropUserRole userId roleId) u p) :
    Holds s u p := by
  refine h.imp_right fun ⟨hnone, role, hrole, hu, hgrant⟩ => ⟨hnone, role, hrole, ?_, hgrant⟩
  simp only [dropUserRole, setLink] at hu
  split at hu
  · cases hu
  · exact hu

theorem holds_dropRole {roleId : ℕ} (h : Holds (s.dropRole roleId) u p) : Holds s u p := by
  refine h.imp_right fun ⟨hnone, role, hrole, hu, hgrant⟩ =>
    ⟨hnone, role, (List.mem_filter.mp hrole).1, ?_, ?_⟩
  · simp only [dropRole] at hu
    split at hu
    · cases hu
    · exact hu
  · simp only [dropRole] at hgrant
    split at hgrant
    · cases hgrant
    · exact hgrant

theorem holds_dropUser {userId : ℕ} (h : Holds (s.dropUser userId) u p) : Holds s u p := by
  by_cases hu : u = userId
  · rcases h with hrow | ⟨-, role, -, hrole, -⟩
    · simp [dropUser, hu] at hrow
    · simp [dropUser, hu] at hrole
  · refine h.imp (fun hrow => ?_) fun ⟨hnone, role, hrole, hur, hgrant⟩ =>
      ⟨?_, role, hrole, ?_, hgrant⟩
    · simpa [dropUser, hu] using hrow
    · simpa [dropUser, hu] using hnone
    · simpa [dropUser, hu] using hur

theorem holds_addRole {name : String} {isSystem : Bool} {s' : Tables}
    (hs' : s.addRole name isSystem = .ok s') (h : Holds s' u p) : Holds s u p := by
  unfold addRole at hs'
  split at hs'
  · cases hs'
  · cases hs'
    refine h.imp_right fun ⟨hnone, role, hrole, hu, hgrant⟩ => ⟨hnone, role, ?_, hu, hgrant⟩
    rcases List.mem_append.mp hrole with hrole | hrole
    · exact hrole
    · obtain rfl := List.mem_singleton.mp hrole
      exact absurd (s.userRolesUsed u _ hu) (Nat.lt_irrefl _)

theorem holds_renameRole {roleId : ℕ} {name : String} {s' : Tables}
    (hs' : s.renameRole roleId name = .ok s') (h : Holds s' u p) : Holds s u p := by
  unfold renameRole at hs'
  dsimp only at hs'
  split at hs'
  · cases hs'
    refine h.imp_right fun ⟨hnone, role, hrole, hu, hgrant⟩ => ⟨hnone, ?_⟩
    obtain ⟨role', hrole', rfl⟩ := List.mem_map.mp hrole
    refine ⟨role', hrole', ?_⟩
    split at hu <;> split at hgrant <;> exact ⟨hu, hgrant⟩
  · cases hs'

theorem holds_setUserPermission {userId permissionId : ℕ} {row : Option Bool}
    (h : Holds (s.setUserPermission userId permissionId row) u p) :
    Holds s u p ∨ u = userId ∧ p.id = permissionId ∧ (row = some true ∨ row = none ∧
      s.userPermissions userId permissionId = some false ∧
        GrantedByRole s userId permissionId) := by
  by_cases he : u = userId ∧ p.id = permissionId
  · obtain ⟨rfl, rfl⟩ := he
    unfold Holds at h
    simp only [setUserPermission, setLink, and_self, if_true] at h
    rcases h with hrow | ⟨hrow, hgrant⟩
    · exact .inr ⟨rfl, rfl, .inl hrow⟩
    · cases hold : s.userPermissions u p.id with
      | none => exact .inl (.inr ⟨hold, hgrant⟩)
      | some granted =>
        cases granted with
        | true => exact .inl (.inl hold)
        | false => exact .inr ⟨rfl, rfl, .inr ⟨hrow, rfl, hgrant⟩⟩
  · unfold Holds at h
    simp only [setUserPermission, setLink, if_neg he] at h
    exact .inl h

end Writes

section Guards

theorem onlyIf_eq_ok {condition : Bool} {check : Except Refused Unit} :
    onlyIf condition check = .ok () ↔ (condition = true → check = .ok ()) := by
  cases condition <;> simp [onlyIf]

variable {s s' : Tables} {a : ℕ} (ha : s.isAdmin (some a) = false)

include ha

theorem requireAdminActor_refuses : s.requireAdminActor (some a) ≠ .ok () := by
  simp [requireAdminActor, ha]

theorem assertActorHolds_eq_ok {permissions : List Permission} :
    s.assertActorHolds (some a) permissions = .ok () ↔ ∀ p ∈ permissions,
      isProtected p = false ∧ s.hasPermission a p.resource p.action = true := by
  unfold assertActorHolds
  simp only [ha, Bool.false_eq_true, if_false, List.forM_eq_forM]
  induction permissions with
  | nil => simp [List.forM_nil, pure, Except.pure]
  | cons p permissions ih =>
    rw [List.forM_cons, bind_eq_ok, List.forall_mem_cons, ← ih]
    cases isProtected p <;> cases s.hasPermission a p.resource p.action <;> simp

theorem mayTouchTarget_eq_ok {target : ℕ} :
    s.mayTouchTarget (some a) target = .ok () ↔ s.isAdmin (some target) = false := by
  simp only [mayTouchTarget, ha, Option.isNone_some, Bool.or_self, Bool.false_eq_true, if_false]
  cases s.isAdmin (some target) <;> simp

end Guards

section Calls

variable {s s' : Tables} {a u : ℕ} {rules : AccountRules}

/-- The call takes back the denial of something that a role of the user grants. -/
def TakesBackDenial (s : Tables) (a : ℕ) (call : Call) (u : ℕ) (p : Permission) : Prop :=
  call = .removePermissionFromUser u p.id ∧ a ≠ u ∧ s.isAdmin (some u) = false ∧
    s.userPermissions u p.id = some false ∧ GrantedByRole s u p.id

/-- What is new is the actor's own and not protected, or a denial was taken back. -/
def Gives (s : Tables) (a : ℕ) (call : Call) (s' : Tables) : Prop :=
  s'.permissions = s.permissions ∧ ∀ u, ∀ p ∈ s.permissions, Holds s' u p →
    Holds s u p ∨ (isProtected p = false ∧ Holds s a p) ∨ TakesBackDenial s a call u p

theorem Gives.nothing {call : Call} (hp : s'.permissions = s.permissions)
    (h : ∀ {u p}, Holds s' u p → Holds s u p) : Gives s a call s' :=
  ⟨hp, fun _ _ _ hholds => .inl (h hholds)⟩

theorem createRole_gives {name : String} {isSystem : Bool}
    (h : createRole s (some a) name isSystem = .ok s') :
    Gives s a (.createRole name isSystem) s' := by
  obtain ⟨-, -, hadd⟩ := bind_eq_ok.mp h
  have hperms : s'.permissions = s.permissions := by
    unfold addRole at hadd
    split at hadd
    · cases hadd
    · cases hadd
      rfl
  exact .nothing hperms (holds_addRole hadd)

theorem renameRole_gives {roleId : ℕ} {name : String} {call : Call}
    (h : s.renameRole roleId name = .ok s') : Gives s a call s' := by
  have hperms : s'.permissions = s.permissions := by
    unfold renameRole at h
    dsimp only at h
    split at h
    · cases h
      rfl
    · cases h
  exact .nothing hperms (holds_renameRole h)

theorem updateRole_gives {roleId : ℕ} {name : Option String}
    (h : updateRole s (some a) roleId name = .ok s') :
    Gives s a (.updateRole roleId name) s' := by
  unfold updateRole at h
  cases hrole : s.getRole roleId with
  | none =>
    rw [hrole] at h
    cases h
    exact .nothing rfl id
  | some role =>
    rw [hrole] at h
    obtain ⟨-, -, h⟩ := bind_eq_ok.mp h
    obtain ⟨-, -, hname⟩ := bind_eq_ok.mp h
    cases name with
    | none =>
      cases hname
      exact .nothing rfl id
    | some name => exact renameRole_gives hname

theorem deleteRole_gives {roleId : ℕ} (h : deleteRole s (some a) roleId = .ok s') :
    Gives s a (.deleteRole roleId) s' := by
  obtain ⟨-, -, h⟩ := bind_eq_ok.mp h
  obtain ⟨-, -, h⟩ := bind_eq_ok.mp h
  cases h
  exact .nothing rfl holds_dropRole

theorem held_of_assertActorHolds (ha : s.isAdmin (some a) = false) {permissions : List Permission}
    (h : s.assertActorHolds (some a) permissions = .ok ()) {p : Permission}
    (hp : p ∈ s.permissions) (hmem : p ∈ permissions) : isProtected p = false ∧ Holds s a p := by
  obtain ⟨hprotected, hheld⟩ := (assertActorHolds_eq_ok ha).mp h p hmem
  exact ⟨hprotected, (hasPermission_iff hp).mp hheld⟩

theorem mem_getPermissionById {p : Permission} (hp : p ∈ s.permissions) {permissionId : ℕ}
    (h : p.id = permissionId) : p ∈ (s.getPermissionById permissionId).toList := by
  rw [getPermissionById, find?_key_eq_some hp h fun q hq hid =>
    eq_of_permissionId hq hp (hid.trans h.symm)]
  exact Option.mem_toList.mpr rfl

theorem assignPermissionToRole_gives (ha : s.isAdmin (some a) = false) {roleId permissionId : ℕ}
    {granted : Bool} (h : assignPermissionToRole s (some a) roleId permissionId granted = .ok s') :
    Gives s a (.assignPermissionToRole roleId permissionId granted) s' := by
  obtain ⟨-, -, h⟩ := bind_eq_ok.mp h
  obtain ⟨⟨⟩, hholds, h⟩ := bind_eq_ok.mp h
  obtain ⟨-, -, h⟩ := bind_eq_ok.mp h
  cases h
  refine ⟨rfl, fun u p hp hnew => ?_⟩
  rcases holds_setRolePermission hnew with hold | ⟨hrow, hid⟩
  · exact .inl hold
  · exact .inr (.inl (held_of_assertActorHolds ha
      (onlyIf_eq_ok.mp hholds (Option.some.inj hrow)) hp (mem_getPermissionById hp hid)))

theorem removePermissionFromRole_gives {roleId permissionId : ℕ}
    (h : removePermissionFromRole s (some a) roleId permissionId = .ok s') :
    Gives s a (.removePermissionFromRole roleId permissionId) s' := by
  obtain ⟨-, -, h⟩ := bind_eq_ok.mp h
  cases h
  refine .nothing rfl fun hnew => ?_
  exact (holds_setRolePermission hnew).resolve_right fun hrow => nomatch hrow.1

theorem assignRoleToUser_gives (ha : s.isAdmin (some a) = false) {userId roleId : ℕ}
    (h : assignRoleToUser s (some a) userId roleId = .ok s') :
    Gives s a (.assignRoleToUser userId roleId) s' := by
  obtain ⟨-, -, h⟩ := bind_eq_ok.mp h
  split at h
  · cases h
  · rename_i role hrole
    obtain ⟨⟨⟩, hsystem, h⟩ := bind_eq_ok.mp h
    obtain ⟨⟨⟩, hholds, h⟩ := bind_eq_ok.mp h
    obtain ⟨-, -, h⟩ := bind_eq_ok.mp h
    cases h
    refine ⟨rfl, fun u p hp hnew => ?_⟩
    rcases holds_addUserRole _ hnew with hold | hgrant
    · exact .inl hold
    · have hplain : role.isSystem = false := by
        cases hsys : role.isSystem with
        | false => rfl
        | true => exact absurd (onlyIf_eq_ok.mp hsystem hsys) (requireAdminActor_refuses ha)
      refine .inr (.inl (held_of_assertActorHolds ha
        (onlyIf_eq_ok.mp hholds (by simp [hplain])) hp ?_))
      exact List.mem_filter.mpr ⟨hp, by simp [hgrant]⟩

theorem removeRoleFromUser_gives {userId roleId : ℕ}
    (h : removeRoleFromUser s (some a) userId roleId = .ok s') :
    Gives s a (.removeRoleFromUser userId roleId) s' := by
  obtain ⟨-, -, h⟩ := bind_eq_ok.mp h
  obtain ⟨-, -, h⟩ := bind_eq_ok.mp h
  obtain ⟨-, -, h⟩ := bind_eq_ok.mp h
  cases h
  exact .nothing rfl holds_dropUserRole

theorem assignPermissionToUser_gives (ha : s.isAdmin (some a) = false) {userId permissionId : ℕ}
    {granted : Bool} (h : assignPermissionToUser s (some a) userId permissionId granted = .ok s') :
    Gives s a (.assignPermissionToUser userId permissionId granted) s' := by
  obtain ⟨-, -, h⟩ := bind_eq_ok.mp h
  obtain ⟨⟨⟩, hholds, h⟩ := bind_eq_ok.mp h
  obtain ⟨-, -, h⟩ := bind_eq_ok.mp h
  obtain ⟨-, -, h⟩ := bind_eq_ok.mp h
  cases h
  refine ⟨rfl, fun u p hp hnew => ?_⟩
  rcases holds_setUserPermission hnew with hold | ⟨-, hid, hrow | ⟨hrow, -⟩⟩
  · exact .inl hold
  · exact .inr (.inl (held_of_assertActorHolds ha
      (onlyIf_eq_ok.mp hholds (Option.some.inj hrow)) hp (mem_getPermissionById hp hid)))
  · cases hrow

theorem guardTarget_eq_ok (ha : s.isAdmin (some a) = false) {userId : ℕ} :
    guardTarget s (some a) userId = .ok () ↔ a ≠ userId ∧ s.isAdmin (some userId) = false := by
  unfold guardTarget
  rw [bind_eq_ok]
  constructor
  · rintro ⟨⟨⟩, hself, htouch⟩
    refine ⟨?_, (mayTouchTarget_eq_ok ha).mp htouch⟩
    rintro rfl
    simp [assertNotSelf] at hself
  · rintro ⟨hself, htouch⟩
    exact ⟨(), by simp [assertNotSelf, hself], (mayTouchTarget_eq_ok ha).mpr htouch⟩

theorem removePermissionFromUser_gives (ha : s.isAdmin (some a) = false)
    {userId permissionId : ℕ}
    (h : removePermissionFromUser s (some a) userId permissionId = .ok s') :
    Gives s a (.removePermissionFromUser userId permissionId) s' := by
  obtain ⟨⟨⟩, hguard, h⟩ := bind_eq_ok.mp h
  cases h
  obtain ⟨hself, htarget⟩ := (guardTarget_eq_ok ha).mp hguard
  refine ⟨rfl, fun u p hp hnew => ?_⟩
  rcases holds_setUserPermission hnew with hold | ⟨rfl, rfl, hrow | ⟨-, hdenied, hgrant⟩⟩
  · exact .inl hold
  · cases hrow
  · exact .inr (.inr ⟨rfl, hself, htarget, hdenied, hgrant⟩)

theorem call_gives (ha : s.isAdmin (some a) = false) {call : Call}
    (h : call.run s (some a) rules = .ok s') : Gives s a call s' := by
  cases call with
  | createRole name isSystem => exact createRole_gives h
  | updateRole roleId name => exact updateRole_gives h
  | deleteRole roleId => exact deleteRole_gives h
  | assignPermissionToRole roleId permissionId granted => exact assignPermissionToRole_gives ha h
  | removePermissionFromRole roleId permissionId => exact removePermissionFromRole_gives h
  | assignRoleToUser userId roleId => exact assignRoleToUser_gives ha h
  | removeRoleFromUser userId roleId => exact removeRoleFromUser_gives h
  | assignPermissionToUser userId permissionId granted => exact assignPermissionToUser_gives ha h
  | removePermissionFromUser userId permissionId => exact removePermissionFromUser_gives ha h
  | updateUser userId username password isActive =>
    obtain ⟨-, -, h⟩ := bind_eq_ok.mp h
    cases h
    exact .nothing rfl id
  | deleteUser userId =>
    obtain ⟨-, -, h⟩ := bind_eq_ok.mp h
    cases h
    exact .nothing rfl holds_dropUser
  | setActive userId isActive =>
    obtain ⟨-, -, h⟩ := bind_eq_ok.mp h
    obtain ⟨-, -, h⟩ := bind_eq_ok.mp h
    cases h
    exact .nothing rfl id

end Calls

section Runs

variable {s : Tables} {a : ℕ} {rules : AccountRules}

/-- Whatever a call adds to what a user may do is not protected, and the actor holds it. -/
def AddsOwnUnprotected (rules : AccountRules) (s : Tables) (a : ℕ) (call : Call) : Prop :=
  ∀ u, ∀ key ∈ (call.after rules s a).getEffectivePermissions u,
    key ∉ s.getEffectivePermissions u →
      isProtectedKey key = false ∧ s.hasPermission a key.1 key.2 = true

/-- Denials that are taken back are of permissions that the actor could hand out. -/
def TakesBackOwnUnprotected (s : Tables) (a : ℕ) (call : Call) : Prop :=
  ∀ u, ∀ p ∈ s.permissions, TakesBackDenial s a call u p →
    isProtected p = false ∧ s.hasPermission a p.resource p.action = true

theorem key_mem_getEffectivePermissions {u : ℕ} {p : Permission} (hp : p ∈ s.permissions) :
    p.key ∈ s.getEffectivePermissions u ↔ Holds s u p := by
  rw [mem_getEffectivePermissions]
  constructor
  · rintro ⟨q, hq, he, hholds⟩
    rwa [eq_of_key hq hp he] at hholds
  · exact fun hholds => ⟨p, hp, rfl, hholds⟩

theorem after_of_takesBackDenial (ha : s.isAdmin (some a) = false) {call : Call} {u : ℕ}
    {p : Permission} (h : TakesBackDenial s a call u p) :
    call.after rules s a = s.setUserPermission u p.id none := by
  obtain ⟨rfl, hself, htarget, -, -⟩ := h
  have hrun : removePermissionFromUser s (some a) u p.id = .ok (s.setUserPermission u p.id none) :=
    bind_eq_ok.mpr ⟨(), (guardTarget_eq_ok ha).mpr ⟨hself, htarget⟩, rfl⟩
  simp only [Call.after, Call.run, hrun]

theorem addsOwnUnprotected_iff (ha : s.isAdmin (some a) = false) (call : Call) :
    AddsOwnUnprotected rules s a call ↔ TakesBackOwnUnprotected s a call := by
  constructor
  · intro h u p hp hback
    have hafter : call.after rules s a = s.setUserPermission u p.id none :=
      after_of_takesBackDenial ha hback
    obtain ⟨-, -, -, hdenied, hgrant⟩ := hback
    refine h u p.key ?_ ?_
    · rw [hafter]
      refine mem_getEffectivePermissions.mpr ⟨p, hp, rfl, .inr ⟨?_, hgrant⟩⟩
      simp [setUserPermission, setLink]
    · rw [key_mem_getEffectivePermissions hp]
      rintro (hrow | ⟨hrow, -⟩) <;> rw [hdenied] at hrow <;> cases hrow
  · intro h u key hnew hold
    unfold Call.after at hnew
    cases hrun : call.run s (some a) rules with
    | error refused =>
      rw [hrun] at hnew
      exact absurd hnew hold
    | ok s' =>
      rw [hrun] at hnew
      obtain ⟨hperms, hgives⟩ := call_gives ha hrun
      obtain ⟨p, hp, rfl, hholds⟩ := mem_getEffectivePermissions.mp hnew
      rw [hperms] at hp
      rw [key_mem_getEffectivePermissions hp] at hold
      rcases hgives u p hp hholds with hbefore | ⟨hprotected, hheld⟩ | hback
      · exact absurd hbefore hold
      · exact ⟨hprotected, (hasPermission_iff hp).mpr hheld⟩
      · exact h u p hp hback

/-- Every call of a sequence has the property, on the tables that it is made on. -/
def EachCall (rules : AccountRules) (P : Tables → ℕ → Call → Prop) :
    Tables → List (ℕ × Call) → Prop
  | _, [] => True
  | s, (a, call) :: calls => P s a call ∧ EachCall rules P (call.after rules s a) calls

def ByNonAdmin (s : Tables) (a : ℕ) (_ : Call) : Prop := s.isAdmin (some a) = false

/-- Calls of actors without the admin role hand out what is not protected and what the actor of the
call holds, exactly when this is so of the denials that they take back. -/
theorem nonAdminCalls_addOwnUnprotected_iff (rules : AccountRules) (s : Tables)
    (calls : List (ℕ × Call)) (h : EachCall rules ByNonAdmin s calls) :
    EachCall rules (AddsOwnUnprotected rules) s calls ↔
      EachCall rules TakesBackOwnUnprotected s calls := by
  induction calls generalizing s with
  | nil => exact Iff.rfl
  | cons step calls ih =>
    obtain ⟨hnonadmin, hrest⟩ := h
    exact and_congr (addsOwnUnprotected_iff hnonadmin step.2) (ih _ hrest)

/-- An operator is denied two permissions that their role grants. The helpdesk holds one of them. -/
def deniedTables : Tables where
  permissions := [⟨1, "users", "write"⟩, ⟨2, "workflows", "read"⟩]
  roles := [⟨1, "operators", false⟩]
  users := [⟨1, "helpdesk", true⟩, ⟨2, "operator", true⟩]
  rolePermissions := fun roleId _ => if roleId = 1 then some true else none
  userRoles := fun userId roleId => userId == 2 && roleId == 1
  userPermissions := fun userId permissionId =>
    if userId = 2 then some false else if permissionId = 2 then some true else none
  nextRoleId := 2
  permissionIds := by decide
  permissionKeys := by decide
  roleIds := by decide
  roleIdsUsed := by decide
  roleNames := by decide
  userRolesUsed := by
    intro userId roleId h
    simp only [Bool.and_eq_true, beq_iff_eq] at h
    rw [h.2]
    exact Nat.lt_succ_self 1

theorem readDenial_takenBack :
    EachCall anyAccount ByNonAdmin deniedTables [(1, .removePermissionFromUser 2 2)] ∧
      EachCall anyAccount (AddsOwnUnprotected anyAccount) deniedTables
        [(1, .removePermissionFromUser 2 2)] := by
  have hnonadmin : EachCall anyAccount ByNonAdmin deniedTables
      [(1, .removePermissionFromUser 2 2)] := ⟨by unfold ByNonAdmin; decide +kernel, trivial⟩
  refine ⟨hnonadmin, (nonAdminCalls_addOwnUnprotected_iff _ _ _ hnonadmin).mpr ⟨?_, trivial⟩⟩
  rintro u p hp ⟨hcall, -⟩
  obtain ⟨-, hid⟩ := Call.removePermissionFromUser.inj hcall
  have hread : p = ⟨2, "workflows", "read"⟩ := by
    simp only [deniedTables, List.mem_cons, List.not_mem_nil, or_false] at hp
    rcases hp with rfl | rfl
    · cases hid
    · rfl
  rw [hread]
  exact ⟨by decide +kernel, by decide +kernel⟩

/-- Taking back the denial of a protected permission hands it out. -/
theorem writeDenial_takenBack :
    EachCall anyAccount ByNonAdmin deniedTables [(1, .removePermissionFromUser 2 1)] ∧
      ¬ EachCall anyAccount (AddsOwnUnprotected anyAccount) deniedTables
        [(1, .removePermissionFromUser 2 1)] := by
  refine ⟨⟨by unfold ByNonAdmin; decide +kernel, trivial⟩, fun h => ?_⟩
  have hgained := h.1 2 ("users", "write") (by decide +kernel) (by decide +kernel)
  have hprotected : isProtectedKey ("users", "write") = true := by decide +kernel
  rw [hprotected] at hgained
  cases hgained.1

end Runs

section TakeOver

variable {s s' : Tables} {a userId : ℕ} {rules : AccountRules} {username password : Option String}
  {isActive : Option Bool}

/-- Who may take a user over holds whatever the permission check grants that user. -/
theorem hasPermission_of_mayTakeOver (ha : s.isAdmin (some a) = false) (hne : a ≠ userId)
    (h : s.assertMayTakeOver (some a) userId = .ok ()) {resource action : String}
    (hholds : s.hasPermission userId resource action = true) :
    isProtectedKey (resource, action) = false ∧ s.hasPermission a resource action = true := by
  have hmem : (resource, action) ∈ s.getEffectivePermissions userId := by
    unfold hasPermission at hholds
    cases hfound : s.getPermission resource action with
    | none =>
      rw [hfound] at hholds
      cases hholds
    | some p =>
      have hp := List.mem_of_find?_eq_some hfound
      have hkey := List.find?_some hfound
      simp only [beq_iff_eq] at hkey
      obtain ⟨rfl, rfl⟩ := hkey
      refine (key_mem_getEffectivePermissions hp).mpr ((hasPermission_iff hp).mp ?_)
      rwa [hasPermission]
  unfold assertMayTakeOver at h
  simp only [hne, ha, false_or, Bool.false_eq_true, if_false] at h
  split at h
  · next hnone =>
    have hempty := Finset.image_eq_empty.mp (Finset.min_eq_top.mp hnone)
    simpa using Finset.filter_eq_empty_iff.mp hempty hmem
  · cases h

/-- Whoever sets the password of a user or renames one without being an administrator gains
nothing by it: the user is no administrator, and may do nothing that the actor may not. -/
theorem takeOver_gains_nothing (ha : s.isAdmin (some a) = false)
    (hgiven : (password.isSome || username.isSome) = true)
    (h : updateUser s (some a) rules userId username password isActive = .ok s') :
    a ≠ userId ∧ s.isAdmin (some userId) = false ∧
      ∀ resource action, s.hasPermission userId resource action = true →
        isProtectedKey (resource, action) = false ∧ s.hasPermission a resource action = true := by
  obtain ⟨⟨⟩, h, -⟩ := bind_eq_ok.mp h
  obtain ⟨⟨⟩, htouch, h⟩ := bind_eq_ok.mp h
  obtain ⟨⟨⟩, -, h⟩ := bind_eq_ok.mp h
  obtain ⟨⟨⟩, -, h⟩ := bind_eq_ok.mp h
  obtain ⟨⟨⟩, hself, h⟩ := bind_eq_ok.mp h
  obtain ⟨⟨⟩, htake, -⟩ := bind_eq_ok.mp h
  have hne : a ≠ userId := by
    rintro rfl
    simp [refuseIf, hgiven] at hself
  have htarget : s.isAdmin (some userId) = false := by
    cases hadmin : s.isAdmin (some userId) with
    | false => rfl
    | true => simp [mayTouchTarget, ha, hadmin] at htouch
  exact ⟨hne, htarget, fun _ _ =>
    hasPermission_of_mayTakeOver ha hne (onlyIf_eq_ok.mp htake hgiven)⟩

/-- The helpdesk renames the operator, who may read workflows and nothing else. -/
theorem operator_renamed :
    let s := deniedTables.setUserPermission 2 2 none
    s.hasPermission 2 "workflows" "read" = true ∧ s.hasPermission 1 "workflows" "read" = true := by
  intro s
  have hok : (updateUser s (some 1) anyAccount 2 (some "clerk") none none).isOk = true := by
    decide +kernel
  obtain ⟨s', hs'⟩ := isOk_iff.mp hok
  have hread : s.hasPermission 2 "workflows" "read" = true := by decide +kernel
  exact ⟨hread, ((takeOver_gains_nothing (by decide +kernel) rfl hs').2.2 _ _ hread).2⟩

end TakeOver

end Manus.Rbac
