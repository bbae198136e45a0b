import Sandbox.Auth.Login
import Sandbox.Auth.ServiceMembers
import Sandbox.Auth.Token

/-!
# The Calls of the Authorization Server

Every request the server answers, as one type, and the program each runs.
Between requests and between the steps of one, time passes and an operator
may change the identity database, as long as the registered clients keep
their identifiers.

The pages that only show something to a signed-in user, such as the portal,
load the session and read; they are all `loadSession`. Two use cases that
other requests end in, `revokeSessionBySid` and `revokeRefreshTokenFamily`,
are calls of their own as well, so that statements may start them freely.

## Main definitions

* `AuthCall`, `Answer`, `AuthCall.body`: The requests.
* `Change`, `Change.apply`: Time and the operator.
* `authSystem`: Both together.
* `State.start`: A server that has just started.

## Theorems

* `apply_cases`: What can happen from outside.
-/

namespace Sandbox.Auth

open Interleave Ttl

inductive AuthCall
  | authorize (params : RawParams) (cookie : Option String) (environment : RequestEnvironment)
  | postLogin (credentials : CognitoCredentials) (environment : RequestEnvironment) (rid : String)
  | postChallenge (pendingId code : String) (cookie : Option String)
      (environment : RequestEnvironment)
  | beginTotpSetup (pendingId : String) (renew : Bool)
  | postSetup (pendingId code : String) (cookie : Option String)
      (environment : RequestEnvironment)
  | exchange (clientId clientSecret : String) (input : CodeExchangeInput)
  | refresh (clientId clientSecret refreshTokenValue : String)
  | revoke (clientId clientSecret tokenValue : String)
  | loadSession (cookie : Option String)
  | logout (cookie : Option String) (environment : RequestEnvironment)
  | revokeSession (cookie : Option String) (sessionId : String)
      (environment : RequestEnvironment)
  | invite (clientId clientSecret : String) (input : InviteInput)
  | uninvite (clientId clientSecret tenantId userId : String)
  | listMembers (clientId clientSecret tenantId : String)
  | revokeSessionBySid (sid : String) (reason : SessionRevokeReason)
      (environment : Option RequestEnvironment)
  | revokeRefreshTokenFamily (familyId : String)
  deriving DecidableEq

/-- What each request is answered with. The requests of clients are answered
    with nothing else than a refusal if the client is not authenticated. -/
def Answer : AuthCall → Type
  | .authorize .. => AuthorizeAnswer
  | .postLogin .. => Option (Except CognitoAuthError LoginOutcome)
  | .postChallenge .. => Except MfaFlowError LoginAnswer
  | .beginTotpSetup .. => Except MfaFlowError TotpSetup
  | .postSetup .. => Except MfaFlowError LoginAnswer
  | .exchange .. => Option (Except TokenError TokenResponse)
  | .refresh .. => Option (Except TokenError TokenResponse)
  | .revoke .. => Option Unit
  | .loadSession .. => Option SsoSession
  | .logout .. => Unit
  | .revokeSession .. => Unit
  | .invite .. => Option (Except ServiceMemberError User)
  | .uninvite .. => Option (Except ServiceMemberError Unit)
  | .listMembers .. => Option (Except ServiceMemberError (List (User × Status)))
  | .revokeSessionBySid .. => Unit
  | .revokeRefreshTokenFamily .. => Unit

/-- Run a program for the client behind a request. -/
def withClient {α : Type} (deps : Deps) (clientId clientSecret : String)
    (p : OidcClient → AuthProg α) : AuthProg (Option α) := do
  let client ← authenticateClient deps clientId clientSecret
  match client with
  | none => pure none
  | some client => do
      let a ← p client
      pure (some a)

/-- `POST /logout`, after the form's own checks. -/
def postLogout (deps : Deps) (cookie : Option String) (environment : RequestEnvironment) :
    AuthProg Unit := do
  let session ← loadSsoSession deps cookie
  match session with
  | none => pure ()
  | some session => globalLogout deps session environment

/-- `POST /sessions/revoke`, after the form's own checks: end another session
    of the same user. -/
def postRevokeSession (deps : Deps) (cookie : Option String) (sessionId : String)
    (environment : RequestEnvironment) : AuthProg Unit := do
  let session ← loadSsoSession deps cookie
  match session with
  | none => pure ()
  | some session => do
      let target ← Sessions.findWithClients sessionId
      match target with
      | none => pure ()
      | some target =>
          -- Only another session of the same user, never the one in use.
          if target.record.userId = session.userId ∧ target.record.id ≠ session.sid then
            revokeSessionBySid deps target.record.id .userRevoked (some environment)
          else pure ()

/-- The program a request runs. -/
def AuthCall.body (deps : Deps) : (c : AuthCall) → AuthProg (Answer c)
  | .authorize params cookie environment => Auth.authorize deps params cookie environment
  | .postLogin credentials environment rid => Auth.postLogin deps credentials environment rid
  | .postChallenge pendingId code cookie environment =>
      Auth.postChallenge deps pendingId code cookie environment
  | .beginTotpSetup pendingId renew => Auth.beginTotpSetup deps pendingId renew
  | .postSetup pendingId code cookie environment =>
      Auth.postSetup deps pendingId code cookie environment
  | .exchange clientId clientSecret input =>
      withClient deps clientId clientSecret fun client =>
        exchangeAuthorizationCode deps client input
  | .refresh clientId clientSecret value =>
      withClient deps clientId clientSecret fun client => refreshAccessToken deps client value
  | .revoke clientId clientSecret value =>
      withClient deps clientId clientSecret fun client => revokeRefreshToken deps client value
  | .loadSession cookie => loadSsoSession deps cookie
  | .logout cookie environment => postLogout deps cookie environment
  | .revokeSession cookie sessionId environment =>
      postRevokeSession deps cookie sessionId environment
  | .invite clientId clientSecret input =>
      withClient deps clientId clientSecret fun client => inviteServiceMember deps client input
  | .uninvite clientId clientSecret tenantId userId =>
      withClient deps clientId clientSecret fun client =>
        revokeServiceMember deps client tenantId userId
  | .listMembers clientId clientSecret tenantId =>
      withClient deps clientId clientSecret fun client => listServiceMembers client tenantId
  | .revokeSessionBySid sid reason environment =>
      Auth.revokeSessionBySid deps sid reason environment
  | .revokeRefreshTokenFamily familyId => Auth.revokeRefreshTokenFamily familyId

/-- The clients have different ids and different public identifiers. -/
def Identity.UniqueClients (db : Identity) : Prop :=
  (db.clients.map (·.id)).Nodup ∧ (db.clients.map (·.clientId)).Nodup

instance (db : Identity) : Decidable db.UniqueClients :=
  inferInstanceAs (Decidable (_ ∧ _))

/-- Every registered client is still there under its identifiers. -/
def Identity.KeepsClients (old new : Identity) : Prop :=
  ∀ key ∈ old.clients.map fun c => (c.id, c.clientId),
    key ∈ new.clients.map fun c => (c.id, c.clientId)

instance (old new : Identity) : Decidable (old.KeepsClients new) :=
  inferInstanceAs (Decidable (∀ _ ∈ _, _))

/-- The foreign keys of the records of sessions. -/
def Identity.HoldsRecords (db : Identity) (s : State) : Prop :=
  (∀ r ∈ s.sessions, r.userId ∈ db.users.map (·.id)) ∧
    ∀ e ∈ s.sessionClients, e.tenantId ∈ db.tenants.map (·.id)

instance (db : Identity) (s : State) : Decidable (db.HoldsRecords s) :=
  inferInstanceAs (Decidable (_ ∧ _))

/-- What happens to the state from outside. -/
inductive Change
  | tick (seconds : Nat)
  /-- An operator changes the identity database. Rows that records of sessions
      refer to are not deleted, since the records would go with them. -/
  | operator (db : Identity)
  deriving DecidableEq

def Change.apply : Change → State → Option State
  | .tick seconds, s => some { s with now := s.now + seconds }
  | .operator db, s =>
      if db.UniqueClients ∧ s.identity.KeepsClients db ∧ db.HoldsRecords s then
        some { s with identity := db }
      else none

/-- What can happen from outside. -/
theorem apply_cases {t : Change} {s s' : State} (h : t.apply s = some s') :
    (∃ seconds : Nat, s' = { s with now := s.now + seconds }) ∨
      ∃ db, db.UniqueClients ∧ s.identity.KeepsClients db ∧ s' = { s with identity := db } := by
  cases t with
  | tick seconds => exact .inl ⟨seconds, (Option.some.inj h).symm⟩
  | operator db =>
      dsimp only [Change.apply] at h
      by_cases hdb : db.UniqueClients ∧ s.identity.KeepsClients db ∧ db.HoldsRecords s
      · rw [if_pos hdb] at h
        exact .inr ⟨db, hdb.1, hdb.2.1, (Option.some.inj h).symm⟩
      · rw [if_neg hdb] at h
        cases h

/-- The authorization server. -/
def authSystem (deps : Deps) : System State Outside Event AuthCall Change Answer where
  body := AuthCall.body deps
  env := Change.apply

/-- A server that has just started on a database. -/
def State.start (now : Int) (db : Identity) : State where
  now := now
  issued := []
  ssoSessions := Ttl.empty
  sidIndex := Ttl.empty
  authorizationRequests := Ttl.empty
  authorizationCodes := Ttl.empty
  refreshTokens := Ttl.empty
  refreshTokenFamilies := Ttl.empty
  sidRefreshFamilies := Ttl.empty
  mfaPending := Ttl.empty
  identity := db
  sessions := []
  sessionClients := []
  audit := []
  outbox := []

end Sandbox.Auth
