import Sandbox.Api.State
import Sandbox.Shared.Text

/-!
# The Requests of a Service's API

A request carries the claims of an Access Token that was verified. Its user's
row in the tenant of the token is looked up; who has none becomes a member in
the default role there and then. The row's role and overrides decide what is
permitted, each endpoint asks for one permission, and everything after that
acts on the tenant of the token.

The checks on a request's body that do not depend on the service are left
out: bodies arrive parsed.

## Main definitions

* `TenantContext`, `resolveTenantContext`: Who a request is from.
* `inviteMember`, `changeMemberRole`, `replaceMemberOverrides`,
  `removeMember`: The administration of members.
* `presentEndUser`: What is shown of an end user.
* `ApiCall`, `handle`, `apiSystem`: The requests.
-/

namespace Sandbox.Api

open Interleave

section Context

/-- Who a request is from, and what is permitted. -/
structure TenantContext where
  tenantId : String
  tenantSlug : String
  userId : String
  clientId : String
  member : Member
  permissions : Finset String
  deriving DecidableEq

/-- Make a user a member in the default role. -/
def createDefaultMember (deps : ApiDeps) (tenantId userId : String) :
    ApiProg MemberWithOverrides := do
  let member ← Members.upsert (.memberDefaulted tenantId userId)
    { tenantId, userId, email := none, name := none, role := deps.definition.defaultRole,
      status := .active }
  pure ⟨member, []⟩

/-- The member a request is from, who becomes one if need be. -/
def requestMember (deps : ApiDeps) (tenantId userId : String) :
    ApiProg MemberWithOverrides := do
  let found ← Members.findWithOverrides (some (.memberMissing tenantId userId)) tenantId userId
  match found with
  | some member => pure member
  | none => createDefaultMember deps tenantId userId

/-- Find out who a request is from. A disabled member is refused. -/
def resolveTenantContext (deps : ApiDeps) (claims : AccessTokenClaims) :
    ApiProg (Option TenantContext) := do
  let found ← requestMember deps claims.tenantId claims.userId
  -- A member row that was found may be disabled, one that was just made is not.
  if found.member.status ≠ .active then pure none
  else
    pure (some
      { tenantId := claims.tenantId
        tenantSlug := claims.tenantSlug
        userId := claims.userId
        clientId := claims.clientId
        member := found.member
        permissions := resolvePermissions deps.definition found.member.role found.overrides })

end Context

section Answers

inductive MemberError
  | notFound
  | cannotRemoveSelf
  | authAdmin (error : AuthAdminError)
  deriving DecidableEq, Repr

/-- Why a request is refused. -/
inductive ApiError
  | forbidden
  | invalidRequest
  | notFound
  | member (error : MemberError)
  | serverError
  deriving DecidableEq, Repr

/-- What clients see of an error of the administration of members. -/
def MemberError.response : MemberError → Nat × String
  | .notFound => (404, "not_found")
  | .cannotRemoveSelf => (400, "cannot_remove_self")
  | .authAdmin .tenantNotFound => (403, "tenant_not_found")
  | .authAdmin .notContracted => (403, "not_contracted")
  | .authAdmin .userNotFound => (404, "not_found")
  | .authAdmin (.unavailable _) => (503, "temporarily_unavailable")

/-- What clients see of an error. -/
def ApiError.response : ApiError → Nat × String
  | .forbidden => (403, "forbidden")
  | .invalidRequest => (400, "invalid_request")
  | .notFound => (404, "not_found")
  | .member e => e.response
  | .serverError => (500, "server_error")

/-- An end user as it is shown, and whether personal data is masked. -/
structure EndUserView where
  user : EndUser
  masked : Bool
  deriving DecidableEq

inductive ApiResponse
  | error (e : ApiError)
  | me (ctx : TenantContext)
  | members (members : List Member)
  | memberDetail (member : Member) (overrides : List PermissionOverride)
      (permissions : Finset String)
  | invited (member : Member) (linked : Bool)
  | member (member : Member)
  | overrides (overrides : List PermissionOverride) (permissions : Finset String)
  | endUsers (users : List EndUserView) (masked : Bool)
  | endUser (user : EndUserView)
  | noContent
  deriving DecidableEq

end Answers

section Members

structure InviteMemberInput where
  email : String
  name : Option String
  role : String
  deriving DecidableEq, Repr

/-- The member and whether the user has ever logged in. -/
def inviteMember (deps : ApiDeps) (tenantId : String) (input : InviteMemberInput) :
    ApiProg (Except MemberError (Member × Bool)) := do
  let invited ← invite deps input.email input.name
  match invited with
  | .error e => pure (.error (.authAdmin e))
  | .ok user => do
      let member ← Members.upsert (.memberInvited tenantId user.userId input.role)
        { tenantId, userId := user.userId, email := some user.email, name := user.name,
          role := input.role, status := .active }
      pure (.ok (member, user.linked))

def getMemberDetail (tenantId userId : String) :
    ApiProg (Except MemberError MemberWithOverrides) := do
  let found ← Members.findWithOverrides none tenantId userId
  match found with
  | none => pure (.error .notFound)
  | some found => pure (.ok found)

def changeMemberRole (tenantId userId role : String) : ApiProg (Except MemberError Member) := do
  let existing ← Members.find tenantId userId
  match existing with
  | none => pure (.error .notFound)
  | some existing => do
      let member ← Members.upsert (.roleChanged tenantId userId role) { existing with role := role }
      pure (.ok member)

/-- Replace the overrides of a member. Nothing is answered if it fails in the
    database. -/
def replaceMemberOverrides (deps : ApiDeps) (tenantId userId : String)
    (overrides : List PermissionOverride) :
    ApiProg (Option (Except MemberError (Finset String))) := do
  let existing ← Members.find tenantId userId
  match existing with
  | none => pure (some (.error .notFound))
  | some existing => do
      let replaced ← Members.replaceOverrides tenantId existing.userId overrides
      -- A transaction that fails is thrown on, and answered as a server error.
      if replaced then
        pure (some (.ok (resolvePermissions deps.definition existing.role overrides)))
      else pure none

/-- Remove another member. Somebody the authorization server does not know is
    removed all the same. -/
def removeMember (tenantId actorUserId userId : String) : ApiProg (Except MemberError Unit) := do
  if userId = actorUserId then pure (.error .cannotRemoveSelf)
  else
    let existing ← Members.find tenantId userId
    match existing with
    | none => pure (.error .notFound)
    | some _ => do
        let revoked ← revoke tenantId userId
        match revoked with
        -- A user the directory does not know is removed here all the same.
        | .ok () | .error .userNotFound => do
            Members.remove tenantId userId
            pure (.ok ())
        | .error e => pure (.error (.authAdmin e))

end Members

section EndUsers

/-- Keep the first character of the address, its domain, and the last four
    digits of the phone number. -/
def maskEndUser (user : EndUser) : EndUser :=
  let parts := split '@' user.email
  let localPart := (parts[0]?.getD "").toList.take 1
  let digits := user.phone.toList.filter Char.isDigit
  { user with
    email := String.ofList localPart ++ "***@" ++ parts[1]?.getD ""
    phone := "***-****-" ++ String.ofList (digits.drop (digits.length - 4)) }

def presentEndUser (user : EndUser) (canUnmask : Bool) : EndUserView :=
  ⟨if canUnmask then user else maskEndUser user, !canUnmask⟩

/-- Whether personal data is shown. -/
def TenantContext.canUnmask (ctx : TenantContext) : Bool := "end_users:unmask" ∈ ctx.permissions

def listEndUsers (ctx : TenantContext) : ApiProg (List EndUserView × Bool) := do
  let rows ← EndUsers.list ctx.tenantId
  pure (rows.map (presentEndUser · ctx.canUnmask), !ctx.canUnmask)

def getEndUser (ctx : TenantContext) (id : String) : ApiProg (Option EndUserView) := do
  let user ← EndUsers.findById ctx.tenantId id
  pure (user.map (presentEndUser · ctx.canUnmask))

def createEndUser (ctx : TenantContext) (input : EndUserInput) : ApiProg EndUserView := do
  let created ← EndUsers.create ctx.tenantId input
  pure (presentEndUser created ctx.canUnmask)

def updateEndUser (ctx : TenantContext) (id : String) (patch : EndUserInputPatch) :
    ApiProg (Option EndUserView) := do
  let updated ← EndUsers.update ctx.tenantId id patch
  pure (updated.map (presentEndUser · ctx.canUnmask))

def deleteEndUser (ctx : TenantContext) (id : String) : ApiProg Bool :=
  EndUsers.remove ctx.tenantId id

end EndUsers

section Routes

inductive Operation
  | me
  | listMembers
  | getMember (userId : String)
  | inviteMember (input : InviteMemberInput)
  | changeRole (userId role : String)
  | replaceOverrides (userId : String) (overrides : List PermissionOverride)
  | removeMember (userId : String)
  | listEndUsers
  | getEndUser (id : String)
  | createEndUser (input : EndUserInput)
  | updateEndUser (id : String) (patch : EndUserInputPatch)
  | deleteEndUser (id : String)
  deriving DecidableEq

/-- The permission an endpoint asks for, if it asks for one. -/
def Operation.permission : Operation → Option String
  | .me => none
  | .listMembers | .getMember _ => some "members:read"
  | .inviteMember _ => some "members:invite"
  | .changeRole .. | .replaceOverrides .. | .removeMember _ => some "members:manage"
  | .listEndUsers | .getEndUser _ => some "end_users:read"
  | .createEndUser _ => some "end_users:create"
  | .updateEndUser .. => some "end_users:update"
  | .deleteEndUser _ => some "end_users:delete"

/-- The part of the checks on a body that depends on the service. -/
def Operation.isValid (definition : ServiceDefinition) : Operation → Bool
  | .inviteMember input => isRole definition input.role
  | .changeRole _ role => isRole definition role
  | .replaceOverrides _ overrides =>
      overrides.length ≤ 50 ∧ overrides.all fun o => isPermission definition o.permission
  | _ => true

/-- An answer of the administration of members as a response. -/
def respond {α : Type} (f : α → ApiResponse) : Except MemberError α → ApiResponse
  | .error e => .error (.member e)
  | .ok a => f a

/-- What an endpoint does for a request that it permits. -/
def perform (deps : ApiDeps) (ctx : TenantContext) : Operation → ApiProg ApiResponse
  | .me => pure (.me ctx)
  | .listMembers => do
      let members ← Members.list ctx.tenantId
      pure (.members members)
  | .getMember userId => do
      let result ← getMemberDetail ctx.tenantId userId
      pure (respond (fun found => .memberDetail found.member found.overrides
        (resolvePermissions deps.definition found.member.role found.overrides)) result)
  | .inviteMember input => do
      let result ← Api.inviteMember deps ctx.tenantId input
      pure (respond (fun r => .invited r.1 r.2) result)
  | .changeRole userId role => do
      let result ← changeMemberRole ctx.tenantId userId role
      pure (respond .member result)
  | .replaceOverrides userId overrides => do
      let result ← replaceMemberOverrides deps ctx.tenantId userId overrides
      -- `none` is an exception that the route does not catch.
      match result with
      | none => pure (.error .serverError)
      | some result => pure (respond (.overrides overrides) result)
  | .removeMember userId => do
      let result ← Api.removeMember ctx.tenantId ctx.userId userId
      pure (respond (fun _ => .noContent) result)
  | .listEndUsers => do
      let result ← Api.listEndUsers ctx
      pure (.endUsers result.1 result.2)
  | .getEndUser id => do
      let result ← Api.getEndUser ctx id
      match result with
      | none => pure (.error .notFound)
      | some user => pure (.endUser user)
  | .createEndUser input => do
      let created ← Api.createEndUser ctx input
      pure (.endUser created)
  | .updateEndUser id patch => do
      let result ← Api.updateEndUser ctx id patch
      match result with
      | none => pure (.error .notFound)
      | some user => pure (.endUser user)
  | .deleteEndUser id => do
      let removed ← Api.deleteEndUser ctx id
      if removed then pure .noContent else pure (.error .notFound)

/-- Whether a request is permitted. -/
def TenantContext.permits (ctx : TenantContext) (operation : Operation) : Bool :=
  match operation.permission with
  | none => true
  | some permission => permission ∈ ctx.permissions

/-- An endpoint asks for its permission, then looks at the body. -/
def route (deps : ApiDeps) (ctx : TenantContext) (operation : Operation) :
    ApiProg ApiResponse :=
  if !ctx.permits operation then pure (.error .forbidden)
  else if !operation.isValid deps.definition then pure (.error .invalidRequest)
  else perform deps ctx operation

structure ApiCall where
  claims : AccessTokenClaims
  operation : Operation
  deriving DecidableEq

def handle (deps : ApiDeps) (call : ApiCall) : ApiProg ApiResponse := do
  let ctx ← resolveTenantContext deps call.claims
  match ctx with
  | none => pure (.error .forbidden)
  | some ctx => route deps ctx call.operation

/-- The events so far with the request that left them, the latest first. -/
abbrev History : Type := List (ApiCall × ApiEvent)

/-- The authorization server's users change through other services too. -/
inductive ApiChange
  | directory (users : List InvitedUser)
  deriving DecidableEq

def ApiChange.apply : ApiChange → ApiState → Option ApiState
  | .directory users, s => some { s with directory := users }

/-- The API of a service. -/
def apiSystem (deps : ApiDeps) :
    System ApiState ApiOutside ApiEvent ApiCall ApiChange fun _ => ApiResponse where
  body := handle deps
  env := ApiChange.apply

end Routes

section Crm

def crmPermissions : List String :=
  ["end_users:read", "end_users:create", "end_users:update", "end_users:delete",
    "end_users:unmask"]

/-- The roles of the CRM. -/
def crm : ServiceDefinition where
  roles := ["owner", "admin", "member", "viewer"]
  defaultRole := "viewer"
  permissions := crmPermissions
  rolePermissions
    | "owner" => crmPermissions ++ ["members:read", "members:invite", "members:manage"]
    | "admin" => crmPermissions ++ ["members:read", "members:invite"]
    | "member" => ["end_users:read", "end_users:create", "end_users:update", "members:read"]
    | "viewer" => ["end_users:read", "members:read"]
    | _ => []

/-- The CRM, for a database that compares addresses as they are. -/
def crmDeps : ApiDeps := ⟨crm, id⟩

end Crm

end Sandbox.Api
