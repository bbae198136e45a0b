import Mathlib.Data.List.Sort
import Sandbox.Auth.Domain
import Sandbox.Interleave.Pool
import Sandbox.Shared.Text
import Sandbox.Ttl.Store

/-!
# The State of the Authorization Server

Everything the server's processes share: the volatile stores, the identity
database, the record of sessions, the audit trail and the requests sent to
clients. The clock is part of it, and so is the list of random values handed
out so far, which is how "random values are fresh" is said.

The server's programs act on this state one store operation, one query or
one clock reading at a time. Answers from outside are the random values, the
replies of the user directory and of the clients, and whether an audit record
could be written.

A query that would violate a key constraint of the database throws and the
request ends there. Such a query is an action without an outcome, so the
request stays unanswered while its other branches go on.

Events mark the actions that statements about runs speak of. They change
nothing and nothing reads them.

## Main definitions

* `Deps`: The functions the server takes as given.
* `Identity`, `State`: The database and the whole state.
* `Outside`, `Event`, `AuthProg`: Answers, events and programs.
* `randomToken`, `nowSeconds`, `recordAudit`: Programs used everywhere.
* `ssoSessions` and the definitions after it: The volatile stores.
* `findClient` and the definitions after it: The queries.
-/

namespace Sandbox.Auth

open Interleave Ttl

/-- The functions the server takes as given. -/
structure Deps where
  issuer : String
  /-- The digest under which a presented value is stored. -/
  keyOf : String → String
  computeCodeChallenge : String → String
  /-- Whether a secret matches a stored hash. -/
  verifySecret : String → String → Bool
  /-- Encryption under the current key, given an initialisation vector. -/
  sealCognitoTokens : String → CognitoTokens → String
  unsealCognitoTokens : String → Option CognitoTokens
  sealSecret : String → String → String
  unsealSecret : String → Option String
  /-- The database's `lower`. -/
  lower : String → String

/-- The identity database. -/
structure Identity where
  users : List User
  tenants : List Tenant
  clients : List OidcClient
  contracts : List Contract
  memberships : List ServiceMembership
  mfaMethods : List UserMfaMethod
  deriving DecidableEq

structure State where
  now : Int
  /-- The random values handed out so far. -/
  issued : List String
  ssoSessions : Ttl.Map String SsoSession
  /-- From a `sid` to the store key of its session. -/
  sidIndex : Ttl.Map String String
  authorizationRequests : Ttl.Map String AuthorizationRequest
  authorizationCodes : Ttl.Map String AuthorizationCode
  refreshTokens : Ttl.Map String RefreshToken
  /-- From a family to the keys of its refresh tokens. -/
  refreshTokenFamilies : Sets String String
  /-- From a `sid` to the references of its families. -/
  sidRefreshFamilies : Sets String String
  mfaPending : Ttl.Map String MfaPending
  identity : Identity
  sessions : List AuthSessionRecord
  sessionClients : List SessionClientEntry
  audit : List AuditEvent
  /-- The logout requests sent so far, the latest first. -/
  outbox : List LogoutNotice

/-- What comes from outside the server. -/
inductive Outside
  | random (value : String)
  | ulid (id : String)
  | audit (id : String) (recorded : Bool)
  | notified (ok : Bool)
  | authenticated (reply : Except CognitoAuthError CognitoAuthOutcome)
  | totp (reply : Except CognitoMfaError CognitoAuthenticated)
  | secret (reply : Except CognitoMfaError String)
  | done (reply : Except CognitoMfaError Unit)

/-- What a run can be asked about. -/
inductive Event
  | sessionStored (session : SsoSession)
  | sessionIndexed (sid key : String)
  | sessionTouched (session : SsoSession)
  | sidLookedUp (sid : String)
  | requestSaved (rid : String)
  | sessionRevoked (sid : String)
  | codeStored (rid : Option String) (key : String)
  | tokenStored (familyId key : String)
  | tokenIndexed (familyId key : String)
  | familyRead (familyId : String)
  | familyRevoked (familyId : String)
  | memberAdded (tenantId oidcClientId userId : String)
  | emailMissing (email : String)
  | userCreated (user : User)
  | pendingSaved (pendingId : String)
  /-- With whether the second factor was accepted. -/
  | pendingDeleted (pendingId : String) (accepted : Bool)
  | totpResponded (reply : Except CognitoMfaError CognitoAuthenticated)
  | softwareTokenAssociated (reply : Except CognitoMfaError String)
  | softwareTokenVerified (reply : Except CognitoMfaError Unit)
  | totpEnabled (reply : Except CognitoMfaError Unit)

/-- Programs of the authorization server. -/
abbrev AuthProg : Type → Type 1 := Prog State Outside Event

section Primitives

def nowSeconds : AuthProg Int :=
  .read (·.now)

/-- A random value of a number of bytes that was not handed out before. -/
def randomToken (bytes : Nat) : AuthProg String :=
  .ask fun i s =>
    match i with
    | .random v =>
        if isBase64Url bytes v = true ∧ v ∉ s.issued then
          some (v, { s with issued := v :: s.issued })
        else none
    | _ => none

/-- The initialisation vector of an encryption. -/
def randomIv : AuthProg String :=
  .ask fun i s =>
    match i with
    | .random v => some (v, s)
    | _ => none

/-- An identifier for a new row. The constraints of the table keep it apart
    from the others. -/
def ulid : AuthProg String :=
  .ask fun i s =>
    match i with
    | .ulid id => some (id, s)
    | _ => none

/-- Keep an event in the audit trail. A failure to write it is swallowed. -/
def recordAudit (subject : AuditSubject) (detail : AuditDetail) : AuthProg Unit := do
  let occurredAt ← nowSeconds
  .ask fun i s =>
    match i with
    | .audit id recorded =>
        if recorded then
          some ((), { s with audit := s.audit ++ [⟨id, occurredAt, subject, detail⟩] })
        else some ((), s)
    | _ => none

/-- An event about nobody in particular. -/
def AuditSubject.nobody : AuditSubject := ⟨none, none, none, none, none, none⟩

/-- The two fields of a subject that say where a request came from. -/
def AuditSubject.at (subject : AuditSubject) (environment : RequestEnvironment) : AuditSubject :=
  { subject with ip := some environment.ip, userAgent := some environment.userAgent }

end Primitives

section Stores

def ssoSessions : Store State String SsoSession where
  now := State.now
  entries := State.ssoSessions
  replace m s := { s with ssoSessions := m }

def sidIndex : Store State String String where
  now := State.now
  entries := State.sidIndex
  replace m s := { s with sidIndex := m }

def authorizationRequests : Store State String AuthorizationRequest where
  now := State.now
  entries := State.authorizationRequests
  replace m s := { s with authorizationRequests := m }

def authorizationCodes : Store State String AuthorizationCode where
  now := State.now
  entries := State.authorizationCodes
  replace m s := { s with authorizationCodes := m }

def refreshTokens : Store State String RefreshToken where
  now := State.now
  entries := State.refreshTokens
  replace m s := { s with refreshTokens := m }

def refreshTokenFamilies : SetStore State String String where
  now := State.now
  entries := State.refreshTokenFamilies
  replace m s := { s with refreshTokenFamilies := m }

def sidRefreshFamilies : SetStore State String String where
  now := State.now
  entries := State.sidRefreshFamilies
  replace m s := { s with sidRefreshFamilies := m }

def mfaPending : Store State String MfaPending where
  now := State.now
  entries := State.mfaPending
  replace m s := { s with mfaPending := m }

end Stores

section IdentityQueries

/-- Look something up in the identity database. -/
def query {α : Type} (f : Identity → α) : AuthProg α :=
  .read fun s => f s.identity

def findClient (clientId : String) : AuthProg (Option OidcClient) :=
  query fun db => db.clients.find? (·.clientId = clientId)

def findClientById (id : String) : AuthProg (Option OidcClient) :=
  query fun db => db.clients.find? (·.id = id)

def findUserByCognitoSub (cognitoSub : String) : AuthProg (Option User) :=
  query fun db => db.users.find? (·.cognitoSub = some cognitoSub)

/-- The user with an address, in whatever case. If there is none, an event is
    left. -/
def findUserByEmail (deps : Deps) (email : String) : AuthProg (Option User) :=
  .act (fun found => if found.isNone then some (.emailMissing email) else none)
    (fun _ s =>
      some (s.identity.users.find? fun user => deps.lower user.email = deps.lower email, s))
    .done

def findUserById (id : String) : AuthProg (Option User) :=
  query fun db => db.users.find? (·.id = id)

/-- Insert a user. The primary key, the address and a subject that is present
    are unique. -/
def createUser (id : String) (cognitoSub : Option String) (email : String)
    (name : Option String) : AuthProg User :=
  let user : User := ⟨id, cognitoSub, email, name, .active⟩
  .act (fun user => some (.userCreated user))
    (fun _ s =>
      -- The keys of the table: a row that breaks one is not inserted.
      if s.identity.users.any fun u =>
          u.id = id ∨ u.email = email ∨ cognitoSub.isSome ∧ u.cognitoSub = cognitoSub then none
      else some (user, { s with identity := { s.identity with
        users := s.identity.users ++ [user] } }))
    .done

/-- Set the subject of a user that has none. Throws if there is no such user
    or if the subject is taken. -/
def linkCognitoSub (userId cognitoSub : String) : AuthProg User :=
  .ask fun _ s =>
    -- The update asks again that the row has no `sub`.
    match s.identity.users.find? fun u => u.id = userId ∧ u.cognitoSub = none with
    | none => none
    | some user =>
        if s.identity.users.any (·.cognitoSub = some cognitoSub) then none
        else
          let linked := { user with cognitoSub := some cognitoSub }
          some (linked, { s with identity := { s.identity with
            users := s.identity.users.map fun u => if u.id = userId then linked else u } })

def findTenantById (id : String) : AuthProg (Option Tenant) :=
  query fun db => db.tenants.find? (·.id = id)

def findTenantBySlug (slug : String) : AuthProg (Option Tenant) :=
  query fun db => db.tenants.find? (·.slug = slug)

def findContract (tenantId oidcClientId : String) : AuthProg (Option Contract) :=
  query fun db => db.contracts.find? fun c => c.tenantId = tenantId ∧ c.oidcClientId = oidcClientId

/-- A membership row is the one for a tenant, a service and a user. -/
def ServiceMembership.isFor (m : ServiceMembership)
    (tenantId oidcClientId userId : String) : Bool :=
  m.tenantId = tenantId ∧ m.oidcClientId = oidcClientId ∧ m.userId = userId

def findServiceMembership (tenantId oidcClientId userId : String) :
    AuthProg (Option ServiceMembership) :=
  query fun db => db.memberships.find? (·.isFor tenantId oidcClientId userId)

/-- Create a membership, or make the one that exists active again. -/
def upsertServiceMembership (tenantId oidcClientId userId : String) : AuthProg Unit :=
  .logged (fun _ => .memberAdded tenantId oidcClientId userId) fun s =>
    let rows := s.identity.memberships
    let rows' :=
      if rows.any (·.isFor tenantId oidcClientId userId) then
        rows.map fun m =>
          if m.isFor tenantId oidcClientId userId then { m with status := .active } else m
      else rows ++ [⟨tenantId, oidcClientId, userId, .active⟩]
    ((), { s with identity := { s.identity with memberships := rows' } })

def removeServiceMembership (tenantId oidcClientId userId : String) : AuthProg Unit :=
  .write fun s =>
    { s with identity := { s.identity with
        memberships := s.identity.memberships.filter
          fun m => !m.isFor tenantId oidcClientId userId } }

/-- The members of a service in a tenant, with their status. -/
def listServiceMembersRows (tenantId oidcClientId : String) : AuthProg (List (User × Status)) :=
  query fun db =>
    (db.memberships.filter fun m => m.tenantId = tenantId ∧ m.oidcClientId = oidcClientId).flatMap
      fun m => match db.users.find? (·.id = m.userId) with
        | none => []
        | some user => [(user, m.status)]

/-- Keep a registered second factor, unless it is kept already. -/
def recordMfaMethod (userId : String) (method : MfaMethod) (enrolledAt : Int) : AuthProg Unit :=
  .write fun s =>
    if s.identity.mfaMethods.any fun m => m.userId = userId ∧ m.method = method then s
    else { s with identity := { s.identity with
      mfaMethods := s.identity.mfaMethods ++ [⟨userId, method, enrolledAt⟩] } }

end IdentityQueries

namespace Sessions

/-! ### The record of sessions -/

def create (id userId : String) (environment : RequestEnvironment) (createdAt : Int) :
    AuthProg Unit :=
  .ask fun _ s =>
    if s.sessions.any (·.id = id) then none
    else some ((), { s with sessions := s.sessions ++
      [⟨id, userId, environment.ip, environment.userAgent, createdAt, createdAt, none, none⟩] })

/-- Move the last access on and return the environment it replaces. -/
def touch (sessionId : String) (environment : RequestEnvironment) (seenAt : Int) :
    AuthProg (Option RequestEnvironment) :=
  .atomic fun s =>
    ((s.sessions.find? (·.id = sessionId)).map fun r => ⟨r.ip, r.userAgent⟩,
      { s with sessions := s.sessions.map fun r =>
          if r.id = sessionId then
            { r with
              ip := environment.ip, userAgent := environment.userAgent, lastSeenAt := seenAt }
          else r })

/-- Keep the service and tenant a session has issued a code for. -/
def recordClient (sessionId oidcClientId tenantId : String) (seenAt : Int) : AuthProg Unit :=
  .write fun s =>
    let isEntry (c : SessionClientEntry) : Bool :=
      c.sessionId = sessionId ∧ c.oidcClientId = oidcClientId ∧ c.tenantId = tenantId
    { s with sessionClients :=
        if s.sessionClients.any isEntry then
          s.sessionClients.map fun c => if isEntry c then { c with lastSeenAt := seenAt } else c
        else s.sessionClients ++ [⟨sessionId, oidcClientId, tenantId, seenAt, seenAt⟩] }

def markRevoked (sessionId : String) (reason : SessionRevokeReason) (revokedAt : Int) :
    AuthProg Unit :=
  .write fun s =>
    { s with sessions := s.sessions.map fun r =>
        if r.id = sessionId ∧ r.revokedAt = none then
          { r with revokedAt := some revokedAt, revokeReason := some reason }
        else r }

/-- Join records with the services and tenants of their sessions, in a query
    of its own. -/
def attachClients (records : List AuthSessionRecord) : AuthProg (List AuthSessionWithClients) :=
  .read fun s => records.map fun r => ⟨r, s.sessionClients.filter (·.sessionId = r.id)⟩

/-- A record of a session that is neither revoked nor past its limits. -/
def isActive (record : AuthSessionRecord) (now : Int) : Bool :=
  record.revokedAt = none ∧ now < record.lastSeenAt + ssoExpiry.idleSeconds ∧
    now < record.createdAt + ssoExpiry.absoluteSeconds

/-- The active sessions of a user, the latest used first. -/
def listActiveByUser (userId : String) : AuthProg (List AuthSessionWithClients) := do
  let records ← .read fun s =>
    (s.sessions.filter fun r => r.userId = userId ∧ isActive r s.now).insertionSort
      fun a b => b.lastSeenAt ≤ a.lastSeenAt
  attachClients records

/-- The record of a session, revoked or not. -/
def findWithClients (sessionId : String) : AuthProg (Option AuthSessionWithClients) := do
  let record ← .read fun s => s.sessions.find? (·.id = sessionId)
  match record with
  | none => pure none
  | some r =>
      let joined ← attachClients [r]
      pure joined.head?

end Sessions

end Sandbox.Auth
