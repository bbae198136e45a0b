import Sandbox.Auth.GlobalLogout

/-!
# Service Members

A service invites users into its tenants and removes them again. It decides
only whether somebody may enter; roles are the service's own.

## Main definitions

* `inviteServiceMember`: Assign a user, creating the row if need be.
* `revokeServiceMember`: Remove the assignment and cut the access.
* `listServiceMembers`: Who is assigned.
-/

namespace Sandbox.Auth

open Interleave Ttl

inductive ServiceMemberError
  | tenantNotFound
  | notContracted
  | userNotFound
  deriving DecidableEq, Repr

/-- The tenant, if it exists and has contracted the client's service. -/
def resolveContractedTenant (client : OidcClient) (tenantId : String) :
    AuthProg (Except ServiceMemberError String) := do
  let tenant ← findTenantById tenantId
  match tenant with
  | none => pure (.error .tenantNotFound)
  | some tenant => do
      -- The service administers the members of tenants that contracted it.
      let contract ← findContract tenant.id client.id
      match contract with
      | none => pure (.error .notContracted)
      | some contract =>
          if contract.status ≠ .active then pure (.error .notContracted)
          else pure (.ok tenant.id)

structure InviteInput where
  tenantId : String
  email : String
  name : Option String
  deriving DecidableEq

/-- The user with an address, created without a subject if there is none. -/
def findOrCreateUser (deps : Deps) (email : String) (name : Option String) : AuthProg User := do
  let found ← findUserByEmail deps email
  match found with
  | some user => pure user
  | none => do
      let id ← ulid
      createUser id none email name

/-- Invite by address. -/
def inviteServiceMember (deps : Deps) (client : OidcClient) (input : InviteInput) :
    AuthProg (Except ServiceMemberError User) := do
  let resolved ← resolveContractedTenant client input.tenantId
  match resolved with
  | .error e => pure (.error e)
  | .ok tenantId => do
      let user ← findOrCreateUser deps input.email input.name
      upsertServiceMembership tenantId client.id user.id
      recordAudit
        { userId := some user.id, sessionId := none, tenantId := some tenantId,
          clientId := some client.clientId, ip := none, userAgent := none }
        (.serviceMemberInvited user.cognitoSub.isSome)
      pure (.ok user)

/-- Remove a membership and cut the access that rests on it. -/
def revokeServiceMember (deps : Deps) (client : OidcClient) (tenantId userId : String) :
    AuthProg (Except ServiceMemberError Unit) := do
  let resolved ← resolveContractedTenant client tenantId
  match resolved with
  | .error e => pure (.error e)
  | .ok tenantId => do
      let found ← findUserById userId
      match found with
      | none => pure (.error .userNotFound)
      | some user => do
          -- The row goes first, and then what rests on it is cut off.
          removeServiceMembership tenantId client.id user.id
          let revokedSessions ← revokeClientAccess deps user.id client tenantId
          recordAudit
            { userId := some user.id, sessionId := none, tenantId := some tenantId,
              clientId := some client.clientId, ip := none, userAgent := none }
            (.serviceMemberRevoked revokedSessions)
          pure (.ok ())

def listServiceMembers (client : OidcClient) (tenantId : String) :
    AuthProg (Except ServiceMemberError (List (User × Status))) := do
  let resolved ← resolveContractedTenant client tenantId
  match resolved with
  | .error e => pure (.error e)
  | .ok tenantId => do
      let members ← listServiceMembersRows tenantId client.id
      pure (.ok members)

end Sandbox.Auth
