import Mathlib.Data.Finset.Basic
import Mathlib.Data.List.Sort
import Sandbox.Api.AccessToken
import Sandbox.Interleave.Pool
import Sandbox.Tables.Unique

/-!
# The State of a Service's API

A service keeps its own database: who its members are, in which role, which
permissions are granted or denied to single members, and its data. Every row
belongs to a tenant. Who may enter at all is kept by the authorization
server, which the service asks to register or to remove a user.

A repository's transaction is one action on this state. A transaction that
violates a constraint fails and changes nothing.

The authorization server's answers come from outside. `directory` are the
users it has, which a registration consults: an address that is known gives
the user that has it, and only another address gives a new one.

## Main definitions

* `Member`, `PermissionOverride`, `EndUser`: The rows.
* `ServiceDefinition`, `resolvePermissions`: The roles of a service and what
  they permit.
* `ApiState`, `ApiProg`: The database and the programs on it.
* `Members`, `EndUsers`: The repositories.
* `invite`, `revoke`: The authorization server's answers.

## Theorems

* `mem_resolvePermissions`: What is permitted.
* `Members.filter_replaceRows`: What a replacement leaves of the overrides.
* `invite_eq`: What a registration does.
-/

namespace Sandbox.Api

open Interleave

section Definition

inductive MemberStatus
  | active
  | disabled
  deriving DecidableEq, Repr

/-- A user of a tenant, in a role of the service. -/
structure Member where
  tenantId : String
  userId : String
  email : Option String
  name : Option String
  role : String
  status : MemberStatus
  deriving DecidableEq, Repr

inductive PermissionEffect
  | allow
  | deny
  deriving DecidableEq, Repr

structure PermissionOverride where
  permission : String
  effect : PermissionEffect
  deriving DecidableEq, Repr

/-- The roles of a service and what they permit. A role that is not there
    permits nothing. -/
structure ServiceDefinition where
  roles : List String
  defaultRole : String
  permissions : List String
  rolePermissions : String → List String

/-- The permissions that every service has. -/
def memberPermissions : List String := ["members:read", "members:invite", "members:manage"]

def allPermissions (definition : ServiceDefinition) : List String :=
  definition.permissions ++ memberPermissions

def isRole (definition : ServiceDefinition) (value : String) : Bool :=
  value ∈ definition.roles

def isPermission (definition : ServiceDefinition) (value : String) : Bool :=
  value ∈ allPermissions definition

/-- What a role permits with the overrides applied. A denial is stronger than
    a grant, and grants of unknown permissions are ignored. -/
def resolvePermissions (definition : ServiceDefinition) (role : String)
    (overrides : List PermissionOverride) : Finset String :=
  let granted := overrides.foldl (fun granted override =>
    if override.effect = .allow ∧ isPermission definition override.permission then
      insert override.permission granted
    else granted) (definition.rolePermissions role).toFinset
  overrides.foldl (fun granted override =>
    if override.effect = .deny then granted.erase override.permission else granted) granted

/-- What is permitted is granted by the role or an override, and not denied. -/
theorem mem_resolvePermissions {definition : ServiceDefinition} {role permission : String}
    {overrides : List PermissionOverride} :
    permission ∈ resolvePermissions definition role overrides ↔
      (permission ∈ definition.rolePermissions role ∨
        isPermission definition permission = true ∧ ⟨permission, .allow⟩ ∈ overrides) ∧
      ⟨permission, .deny⟩ ∉ overrides := by
  -- Allowed permissions are added one by one to those of the role.
  have hgranted : ∀ (overrides : List PermissionOverride) (start : Finset String),
      permission ∈ overrides.foldl (fun granted override =>
        if override.effect = .allow ∧ isPermission definition override.permission then
          insert override.permission granted
        else granted) start ↔
      permission ∈ start ∨
        isPermission definition permission = true ∧ ⟨permission, .allow⟩ ∈ overrides := by
    intro overrides
    induction overrides with
    | nil => simp
    | cons o overrides ih =>
        intro start
        rw [List.foldl_cons, ih]
        rcases o with ⟨p, effect⟩
        cases effect <;> grind
  -- Denied permissions are then taken away one by one.
  have hdenied : ∀ (overrides : List PermissionOverride) (start : Finset String),
      permission ∈ overrides.foldl (fun granted override =>
        if override.effect = .deny then granted.erase override.permission else granted) start ↔
      permission ∈ start ∧ ⟨permission, .deny⟩ ∉ overrides := by
    intro overrides
    induction overrides with
    | nil => simp
    | cons o overrides ih =>
        intro start
        rw [List.foldl_cons, ih]
        rcases o with ⟨p, effect⟩
        cases effect <;> grind
  unfold resolvePermissions
  rw [hdenied, hgranted, List.mem_toFinset]

/-- What is permitted does not depend on the order of the overrides. -/
theorem resolvePermissions_congr {definition : ServiceDefinition} {role permission : String}
    {a b : List PermissionOverride} (h : ∀ o, o ∈ a ↔ o ∈ b) :
    permission ∈ resolvePermissions definition role a ↔
      permission ∈ resolvePermissions definition role b := by
  rw [mem_resolvePermissions, mem_resolvePermissions, h, h]

end Definition

section Rows

/-- Which member an override is about, and the override. -/
structure OverrideRow where
  tenantId : String
  userId : String
  override : PermissionOverride
  deriving DecidableEq, Repr

structure MemberWithOverrides where
  member : Member
  overrides : List PermissionOverride
  deriving DecidableEq, Repr

/-- A customer of a tenant. End users do not log in. -/
structure EndUser where
  id : String
  tenantId : String
  name : String
  email : String
  phone : String
  note : String
  deriving DecidableEq, Repr

structure EndUserInput where
  name : String
  email : String
  phone : String
  note : String
  deriving DecidableEq, Repr

structure EndUserInputPatch where
  name : Option String
  email : Option String
  phone : Option String
  note : Option String
  deriving DecidableEq, Repr

/-- A user as the authorization server shows it. -/
structure InvitedUser where
  userId : String
  email : String
  name : Option String
  linked : Bool
  deriving DecidableEq, Repr

inductive AuthAdminError
  | tenantNotFound
  | notContracted
  | userNotFound
  | unavailable (reason : String)
  deriving DecidableEq, Repr

/-- The primary key of a member. -/
def Member.key (m : Member) : String × String := (m.tenantId, m.userId)

def OverrideRow.key (row : OverrideRow) : String × String := (row.tenantId, row.userId)

/-- The service's database, and the users of the authorization server. Rows
    stand in the order in which they were created. -/
structure ApiState where
  members : List Member
  overrides : List OverrideRow
  endUsers : List EndUser
  directory : List InvitedUser
  deriving DecidableEq

/-- What comes from outside: new identifiers and the authorization server's
    answers. -/
inductive ApiOutside
  | id (value : String)
  | invited (reply : Except AuthAdminError InvitedUser)
  | revoked (reply : Except AuthAdminError Unit)
  deriving DecidableEq

/-- What a run can be asked about. -/
inductive ApiEvent
  /-- A request's user has no row. -/
  | memberMissing (tenantId userId : String)
  | memberDefaulted (tenantId userId : String)
  | memberInvited (tenantId userId role : String)
  | roleChanged (tenantId userId role : String)
  | memberRemoved (tenantId userId : String)
  deriving DecidableEq

abbrev ApiProg : Type → Type 1 := Prog ApiState ApiOutside ApiEvent

end Rows

namespace Members

/-! ### The members -/

/-- Insert a member, or update the one with its key. Addresses and names that
    are not given stay. -/
def upsertRow (member : Member) (rows : List Member) : Member × List Member :=
  match rows.find? (·.key = member.key) with
  | none => (member, rows ++ [member])
  | some old =>
      let merged :=
        { member with email := member.email.or old.email, name := member.name.or old.name }
      (merged, Tables.update Member.key merged rows)

/-- The overrides of a member, ordered by permission. -/
def overridesOf (s : ApiState) (key : String × String) : List PermissionOverride :=
  ((s.overrides.filter (·.key = key)).map (·.override)).insertionSort
    fun a b => a.permission ≤ b.permission

def lookup (s : ApiState) (key : String × String) : Option MemberWithOverrides :=
  (s.members.find? (·.key = key)).map fun member => ⟨member, overridesOf s key⟩

def find (tenantId userId : String) : ApiProg (Option Member) :=
  .read fun s => s.members.find? (·.key = (tenantId, userId))

/-- A member with the overrides, in one transaction. If there is no member, an
    event may be left. -/
def findWithOverrides (missing : Option ApiEvent) (tenantId userId : String) :
    ApiProg (Option MemberWithOverrides) :=
  .act (fun found => if found.isNone then missing else none)
    (fun _ s => some (lookup s (tenantId, userId), s)) .done

def list (tenantId : String) : ApiProg (List Member) :=
  .read fun s => s.members.filter (·.tenantId = tenantId)

def upsert (event : ApiEvent) (member : Member) : ApiProg Member :=
  .logged (fun _ => event) fun s =>
    let r := upsertRow member s.members
    (r.1, { s with members := r.2 })

/-- Remove a member, and the overrides with it. -/
def remove (tenantId userId : String) : ApiProg Unit :=
  .logged (fun _ => .memberRemoved tenantId userId) fun s =>
    ((), { s with
      members := s.members.filter fun m => m.key ≠ (tenantId, userId)
      overrides := s.overrides.filter fun row => row.key ≠ (tenantId, userId) })

/-- The overrides that are left and inserted by a replacement. It fails if the
    member is gone or a permission occurs twice. -/
def replaceRows (tenantId userId : String) (overrides : List PermissionOverride) (s : ApiState) :
    Option (List OverrideRow) :=
  let kept := s.overrides.filter fun row => row.key ≠ (tenantId, userId)
  if overrides = [] then some kept
  else if s.members.any (·.key = (tenantId, userId)) ∧ (overrides.map (·.permission)).Nodup then
    some (kept ++ overrides.map fun override => ⟨tenantId, userId, override⟩)
  else none

/-- A selection without the member's overrides does not change. -/
theorem filter_replaceRows {tenantId userId : String} {overrides : List PermissionOverride}
    {s : ApiState} {rows : List OverrideRow} {p : OverrideRow → Bool}
    (h : replaceRows tenantId userId overrides s = some rows)
    (hp : ∀ row, row.key = (tenantId, userId) → p row = false) :
    rows.filter p = s.overrides.filter p := by
  -- The test passes no row of this member, so neither what goes nor what comes.
  have hkept : (s.overrides.filter fun row => row.key ≠ (tenantId, userId)).filter p =
      s.overrides.filter p := by
    rw [List.filter_filter]
    refine List.filter_congr fun row _ => ?_
    by_cases hkey : row.key = (tenantId, userId)
    · rw [hp row hkey, Bool.false_and]
    · rw [decide_eq_true hkey, Bool.and_true]
  have hnew : (overrides.map fun override => (⟨tenantId, userId, override⟩ : OverrideRow)).filter
      p = [] := by
    rw [List.filter_eq_nil_iff]
    intro row hrow hmine
    rcases List.mem_map.mp hrow with ⟨_, _, rfl⟩
    rw [hp _ rfl] at hmine
    cases hmine
  unfold replaceRows at h
  dsimp only at h
  split_ifs at h
  · rw [← Option.some.inj h, hkept]
  · rw [← Option.some.inj h, List.filter_append, hkept, hnew, List.append_nil]

/-- Replace the overrides of a member. The answer is whether it succeeded. -/
def replaceOverrides (tenantId userId : String) (overrides : List PermissionOverride) :
    ApiProg Bool :=
  .atomic fun s =>
    match replaceRows tenantId userId overrides s with
    | none => (false, s)
    | some rows => (true, { s with overrides := rows })

end Members

namespace EndUsers

/-! ### The end users -/

def list (tenantId : String) : ApiProg (List EndUser) :=
  .read fun s => s.endUsers.filter (·.tenantId = tenantId)

/-- An end user of a tenant. Another tenant's is not found. -/
def isFor (tenantId id : String) (row : EndUser) : Bool :=
  row.tenantId = tenantId ∧ row.id = id

def findById (tenantId id : String) : ApiProg (Option EndUser) :=
  .read fun s => s.endUsers.find? (isFor tenantId id)

/-- Create an end user with a new identifier, which no row has. -/
def create (tenantId : String) (input : EndUserInput) : ApiProg EndUser :=
  .ask fun i s =>
    match i with
    | .id id =>
        if s.endUsers.any (·.id = id) then none
        else
          let row : EndUser := ⟨id, tenantId, input.name, input.email, input.phone, input.note⟩
          some (row, { s with endUsers := s.endUsers ++ [row] })
    | _ => none

/-- What is given replaces what was there. -/
def applyPatch (patch : EndUserInputPatch) (row : EndUser) : EndUser :=
  { row with
    name := patch.name.getD row.name
    email := patch.email.getD row.email
    phone := patch.phone.getD row.phone
    note := patch.note.getD row.note }

def update (tenantId id : String) (patch : EndUserInputPatch) : ApiProg (Option EndUser) :=
  .atomic fun s =>
    ((s.endUsers.find? (isFor tenantId id)).map (applyPatch patch),
      { s with endUsers := s.endUsers.map fun row =>
          if isFor tenantId id row then applyPatch patch row else row })

/-- Remove an end user. The answer is whether there was one. -/
def remove (tenantId id : String) : ApiProg Bool :=
  .atomic fun s =>
    (s.endUsers.any (isFor tenantId id),
      { s with endUsers := s.endUsers.filter fun row => !isFor tenantId id row })

end EndUsers

section AuthAdmin

/-- The service's surroundings: its definition, and the address comparison of
    the authorization server's database. -/
structure ApiDeps where
  definition : ServiceDefinition
  lower : String → String

/-- Register a user with the authorization server. A known address gives the
    user that has it, whatever name is asked for. -/
def invite (deps : ApiDeps) (email : String) (name : Option String) :
    ApiProg (Except AuthAdminError InvitedUser) :=
  .ask fun i s =>
    match i with
    | .invited (.error e) => some (.error e, s)
    | .invited (.ok user) =>
        match s.directory.find? fun known => deps.lower known.email = deps.lower email with
        -- The directory answers the user it has for the address, in any case.
        | some known => if user = known then some (.ok user, s) else none
        | none =>
            if user.email = email ∧ user.name = name ∧ user.linked = false ∧
                ¬ s.directory.any (·.userId = user.userId) then
              some (.ok user, { s with directory := s.directory ++ [user] })
            else none
    | _ => none

/-- A registration's answer is named by the run, and it touches no row. -/
theorem invite_eq (deps : ApiDeps) (email : String) (name : Option String) :
    ∃ f, invite deps email name = Prog.ask f ∧ ∀ i s b s', f i s = some (b, s') →
      i = .invited b ∧ ∃ directory, s' = { s with directory := directory } := by
  refine ⟨_, rfl, fun i s b s' h => ?_⟩
  split at h
  · cases h
    exact ⟨rfl, _, rfl⟩
  · split at h
    · split at h
      · cases h
        exact ⟨rfl, _, rfl⟩
      · cases h
    · split at h
      · cases h
        exact ⟨rfl, _, rfl⟩
      · cases h
  · cases h

/-- Remove a user's assignment with the authorization server. -/
def revoke (_tenantId _userId : String) : ApiProg (Except AuthAdminError Unit) :=
  .ask fun i s =>
    match i with
    | .revoked reply => some (reply, s)
    | _ => none

end AuthAdmin

end Sandbox.Api
