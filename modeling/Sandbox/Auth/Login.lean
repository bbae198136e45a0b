import Sandbox.Auth.GlobalLogout
import Sandbox.Auth.Authorize

/-!
# Logging In

A password that was right leaves a pending record; only the second factor
turns it into a single sign-on session. Users who have registered an
authenticator app answer a challenge, the others register one first. Either
way `finishLogin` finds or creates the user and creates the session, and the
route's `finish` ends the browser's earlier session and resumes the request
that was waiting.

The replies of the user directory come from outside and may be anything.

## Main definitions

* `login`: The password.
* `resolveUser`, `finishLogin`: From an authenticated subject to a session.
* `completeTotpChallenge`, `beginTotpSetup`, `completeTotpSetup`: The second
  factor.
* `finish`: What the routes do after the second factor.
-/

namespace Sandbox.Auth

open Interleave Ttl

section Directory

/-- Take the directory's answer to a password. -/
def authenticate (_ : CognitoCredentials) : AuthProg (Except CognitoAuthError CognitoAuthOutcome) :=
  .ask fun i s =>
    match i with
    | .authenticated reply => some (reply, s)
    | _ => none

/-- Take the directory's answer to a challenge's code. -/
def respondToTotp (_username _session _code : String) :
    AuthProg (Except CognitoMfaError CognitoAuthenticated) :=
  .act (fun reply => some (.totpResponded reply))
    (fun i s => match i with
      | .totp reply => some (reply, s)
      | _ => none)
    .done

/-- Take a new secret from the directory. -/
def associateSoftwareToken (_accessToken : String) : AuthProg (Except CognitoMfaError String) :=
  .act (fun reply => some (.softwareTokenAssociated reply))
    (fun i s => match i with
      | .secret reply => some (reply, s)
      | _ => none)
    .done

/-- Take the directory's answer to a code for the secret being registered. -/
def verifySoftwareToken (_accessToken _code : String) : AuthProg (Except CognitoMfaError Unit) :=
  .act (fun reply => some (.softwareTokenVerified reply))
    (fun i s => match i with
      | .done reply => some (reply, s)
      | _ => none)
    .done

/-- Make the registered factor required. -/
def enableTotp (_accessToken : String) : AuthProg (Except CognitoMfaError Unit) :=
  .act (fun reply => some (.totpEnabled reply))
    (fun i s => match i with
      | .done reply => some (reply, s)
      | _ => none)
    .done

end Directory

section Pending

def loadPending (deps : Deps) (pendingId : String) : AuthProg (Option MfaPending) :=
  mfaPending.get (deps.keyOf pendingId)

def savePending (deps : Deps) (pendingId : String) (pending : MfaPending) : AuthProg Unit :=
  mfaPending.setLogged (.pendingSaved pendingId) (deps.keyOf pendingId) pending mfaPendingTtl

/-- Replace the value and keep the time that is left. -/
def updatePending (deps : Deps) (pendingId : String) (pending : MfaPending) : AuthProg Bool :=
  mfaPending.update (deps.keyOf pendingId) pending

/-- Whether the second factor was accepted is only for the event. -/
def deletePending (deps : Deps) (pendingId : String) (accepted : Bool) : AuthProg Unit :=
  mfaPending.deleteLogged (.pendingDeleted pendingId accepted) (deps.keyOf pendingId)

def storePending (deps : Deps) (pending : MfaPending) : AuthProg String := do
  let pendingId ← randomToken 32
  savePending deps pendingId pending
  pure pendingId

end Pending

/-- A pending login, waiting for a code or for a registration. -/
inductive LoginOutcome
  | totpRequired (pendingId : String)
  | setupRequired (pendingId : String)
  deriving DecidableEq

/-- Authenticate with a password and leave a pending record. -/
def login (deps : Deps) (credentials : CognitoCredentials) (environment : RequestEnvironment)
    (rid : String) : AuthProg (Except CognitoAuthError LoginOutcome) := do
  let outcome ← authenticate credentials
  match outcome with
  | .error e => do
      recordAudit (AuditSubject.nobody.at environment) (.loginFailed e.kind)
      pure (.error e)
  -- A user with a second factor is asked for it, the others enrol one.
  | .ok (.totpRequired session username) => do
      let pendingId ← storePending deps (.totpChallenge username session rid 0)
      pure (.ok (.totpRequired pendingId))
  | .ok (.authenticated authenticated) => do
      let iv ← randomIv
      let pendingId ← storePending deps
        (.totpSetup authenticated.sub authenticated.email authenticated.name
          (deps.sealCognitoTokens iv authenticated.tokens) rid none none)
      pure (.ok (.setupRequired pendingId))

section FinishLogin

/-- The user of a subject: the row of that subject, else the invited row of
    that address, which it is linked to, else a new row. A row of that address
    that belongs to another subject counts as disabled. -/
def resolveUser (deps : Deps) (cognitoSub email : String) (name : Option String) :
    AuthProg User := do
  let bySub ← findUserByCognitoSub cognitoSub
  match bySub with
  | some user => pure user
  | none => do
      let byEmail ← findUserByEmail deps email
      match byEmail with
      | some user =>
          -- The address alone does not lead to a row of another subject.
          if user.cognitoSub.isSome then pure { user with status := .disabled }
          else linkCognitoSub user.id cognitoSub
      | none => do
          let id ← ulid
          createUser id (some cognitoSub) email name

structure LoginSuccess where
  user : User
  session : SsoSession
  cookieValue : String

/-- Settle the user of an authenticated subject and create the session. -/
def finishLogin (deps : Deps) (authenticated : CognitoAuthenticated)
    (environment : RequestEnvironment) (method : MfaMethod) :
    AuthProg (Option LoginSuccess) := do
  let user ← resolveUser deps authenticated.sub authenticated.email authenticated.name
  -- The password was right, but the user may be disabled here.
  if user.status ≠ .active then
    recordAudit ({ AuditSubject.nobody with userId := some user.id }.at environment)
      (.loginFailed "user_disabled")
    pure none
  else
    let now ← nowSeconds
    recordMfaMethod user.id method now
    let created ← createSsoSession deps user authenticated environment
    recordAudit
      ({ AuditSubject.nobody with
          userId := some user.id, sessionId := some created.session.sid }.at environment)
      (.loginSucceeded method)
    pure (some ⟨user, created.session, created.cookieValue⟩)

end FinishLogin

section SecondFactor

inductive MfaFlowError
  | expired
  | codeMismatch
  | setupExpired
  | userDisabled
  | unavailable (reason : String)
  deriving DecidableEq, Repr

/-- An error of the directory after which the pending record is gone. -/
def CognitoMfaError.asFlowError : CognitoMfaError → MfaFlowError
  | .codeMismatch => .codeMismatch
  | .sessionExpired => .expired
  | .unavailable reason => .unavailable reason

structure MfaCompleted where
  login : LoginSuccess
  rid : String

/-- A challenge's code was refused: count it, and drop the record at the
    limit. The time that is left is not renewed. -/
def refuseTotpCode (deps : Deps) (pendingId username cognitoSession rid : String)
    (attempts : Nat) (environment : RequestEnvironment) : AuthProg MfaFlowError := do
  recordAudit (AuditSubject.nobody.at environment)
    (.mfaChallengeFailed .totp (some (attempts + 1)))
  -- The fifth failure removes the record, the others are counted in it.
  if attempts + 1 ≥ mfaMaxAttempts then
    deletePending deps pendingId false
    pure .expired
  else
    let _ ← updatePending deps pendingId
      (.totpChallenge username cognitoSession rid (attempts + 1))
    pure .codeMismatch

/-- Answer a challenge. -/
def completeTotpChallenge (deps : Deps) (pendingId code : String)
    (environment : RequestEnvironment) : AuthProg (Except MfaFlowError MfaCompleted) := do
  let pending ← loadPending deps pendingId
  match pending with
  | some (.totpChallenge username cognitoSession rid attempts) => do
      let responded ← respondToTotp username cognitoSession code
      match responded with
      | .error .codeMismatch => do
          let e ← refuseTotpCode deps pendingId username cognitoSession rid attempts environment
          pure (.error e)
      -- After any other error the user starts over with the password.
      | .error e => do
          deletePending deps pendingId false
          pure (.error e.asFlowError)
      | .ok authenticated => do
          deletePending deps pendingId true
          let success ← finishLogin deps authenticated environment .totp
          match success with
          | none => pure (.error .userDisabled)
          | some success => pure (.ok ⟨success, rid⟩)
  -- No challenge waits under this id.
  | _ => pure (.error .expired)

/-- What the registration page shows. -/
structure TotpSetup where
  account : String
  secret : String
  expiresAt : Int
  deriving DecidableEq

/-- Begin a registration: take a new secret and keep it in the record. -/
def associateSecret (deps : Deps) (pendingId sub email : String) (name : Option String)
    (encryptedTokens rid : String) (hadSecret : Bool) (now : Int) :
    AuthProg (Except MfaFlowError TotpSetup) :=
  match deps.unsealCognitoTokens encryptedTokens with
  | none => pure (.error .expired)
  | some tokens => do
      let associated ← associateSoftwareToken tokens.accessToken
      match associated with
      | .error e => pure (.error e.asFlowError)
      | .ok secret => do
          -- The secret that was shown before is replaced.
          let _ ← (if hadSecret then recordAudit AuditSubject.nobody (.mfaSetupExpired .totp true)
            else pure () : AuthProg Unit)
          let iv ← randomIv
          savePending deps pendingId
            (.totpSetup sub email name encryptedTokens rid (some (deps.sealSecret iv secret))
              (some now))
          pure (.ok ⟨email, secret, now + totpSetupTtl⟩)

/-- Show the secret of a registration, a new one if there is none, it has
    expired or a new one is asked for. -/
def beginTotpSetup (deps : Deps) (pendingId : String) (renew : Bool) :
    AuthProg (Except MfaFlowError TotpSetup) := do
  let pending ← loadPending deps pendingId
  match pending with
  | some (.totpSetup sub email name encryptedTokens rid encryptedSecret secretIssuedAt) => do
      let now ← nowSeconds
      match encryptedSecret.bind deps.unsealSecret, secretIssuedAt with
      | some current, some issuedAt =>
          -- A secret that is still valid is shown again, unless a new one is asked for.
          if now < issuedAt + totpSetupTtl ∧ renew = false then
            pure (.ok ⟨email, current, issuedAt + totpSetupTtl⟩)
          else associateSecret deps pendingId sub email name encryptedTokens rid true now
      | current, _ =>
          associateSecret deps pendingId sub email name encryptedTokens rid current.isSome now
  | _ => pure (.error .expired)

/-- The part of a registration that follows its checks. -/
def verifySetup (deps : Deps) (pendingId code sub email : String) (name : Option String)
    (rid : String) (tokens : CognitoTokens) (environment : RequestEnvironment) :
    AuthProg (Except MfaFlowError MfaCompleted) := do
  let verified ← verifySoftwareToken tokens.accessToken code
  match verified with
  -- A wrong code leaves the record, so that the user may try again.
  | .error .codeMismatch => do
      recordAudit (AuditSubject.nobody.at environment) (.mfaChallengeFailed .totp none)
      pure (.error .codeMismatch)
  | .error e => do
      deletePending deps pendingId false
      pure (.error e.asFlowError)
  | .ok () => do
      let enabled ← enableTotp tokens.accessToken
      match enabled with
      | .error e => do
          deletePending deps pendingId false
          pure (.error e.asFlowError)
      | .ok () => do
          deletePending deps pendingId true
          let success ← finishLogin deps ⟨sub, email, name, tokens⟩ environment .totp
          match success with
          | none => pure (.error .userDisabled)
          | some success => do
              recordAudit
                ({ AuditSubject.nobody with
                    userId := some success.user.id
                    sessionId := some success.session.sid }.at environment)
                (.mfaEnrolled .totp)
              pure (.ok ⟨success, rid⟩)

/-- Verify a code for the secret being registered and complete the login. -/
def completeTotpSetup (deps : Deps) (pendingId code : String)
    (environment : RequestEnvironment) : AuthProg (Except MfaFlowError MfaCompleted) := do
  let pending ← loadPending deps pendingId
  match pending with
  | some (.totpSetup sub email name encryptedTokens rid _ secretIssuedAt) => do
      let now ← nowSeconds
      match secretIssuedAt with
      | none => pure (.error .setupExpired)
      | some issuedAt =>
          -- The secret has a time limit of its own.
          if issuedAt + totpSetupTtl ≤ now then pure (.error .setupExpired)
          else
            match deps.unsealCognitoTokens encryptedTokens with
            | none => pure (.error .expired)
            | some tokens =>
                verifySetup deps pendingId code sub email name rid tokens environment
  | _ => pure (.error .expired)

end SecondFactor

section Routes

/-- A completed login: the cookie's new value and where the browser is sent,
    to the portal if nowhere else. -/
structure LoginAnswer where
  cookieValue : String
  target : Option Redirect
  deriving DecidableEq

/-- End the browser's earlier session, if it has one. -/
def endPrevious (deps : Deps) (cookie : Option String) : AuthProg Unit := do
  let previous ← loadSsoSession deps cookie
  match previous with
  | none => pure ()
  | some previous => destroySsoSession previous

/-- Take out the request a login is for; a login from the portal has none. -/
def takeRequest (deps : Deps) (rid : String) : AuthProg (Option AuthorizationRequest) :=
  if rid = "" then pure none else consumePendingAuthorization deps rid

/-- Resume the request a login is for under the new session. -/
def resumeLogin (deps : Deps) (result : LoginSuccess) (rid : String)
    (environment : RequestEnvironment) : AuthProg LoginAnswer := do
  let request ← takeRequest deps rid
  match request with
  | none => pure ⟨result.cookieValue, none⟩
  | some request => do
      let outcome ← resumePendingAuthorization deps rid request result.session environment
      pure ⟨result.cookieValue,
        some (redirectForOutcome deps.issuer request.redirectUri request.state outcome)⟩

/-- Finish a login: end the browser's earlier session and resume the request
    that was waiting. -/
def finish (deps : Deps) (result : LoginSuccess) (rid : String) (cookie : Option String)
    (environment : RequestEnvironment) : AuthProg LoginAnswer := do
  endPrevious deps cookie
  resumeLogin deps result rid environment

/-- `POST /login`, after the form's own checks. -/
def postLogin (deps : Deps) (credentials : CognitoCredentials) (environment : RequestEnvironment)
    (rid : String) : AuthProg (Option (Except CognitoAuthError LoginOutcome)) := do
  -- Without a `rid` the login stands alone, with one it belongs to a request.
  let known ← (if rid = "" then pure true
    else do
      let pending ← loadPendingAuthorization deps rid
      pure pending.isSome : AuthProg Bool)
  if known then
    let outcome ← login deps credentials environment rid
    pure (some outcome)
  else pure none

/-- `POST /login/challenge`, after the form's own checks. -/
def postChallenge (deps : Deps) (pendingId code : String) (cookie : Option String)
    (environment : RequestEnvironment) : AuthProg (Except MfaFlowError LoginAnswer) := do
  let completed ← completeTotpChallenge deps pendingId code environment
  match completed with
  | .error e => pure (.error e)
  | .ok completed => do
      let answer ← finish deps completed.login completed.rid cookie environment
      pure (.ok answer)

/-- `POST /login/mfa-setup`, after the form's own checks. -/
def postSetup (deps : Deps) (pendingId code : String) (cookie : Option String)
    (environment : RequestEnvironment) : AuthProg (Except MfaFlowError LoginAnswer) := do
  let completed ← completeTotpSetup deps pendingId code environment
  match completed with
  | .error e => pure (.error e)
  | .ok completed => do
      let answer ← finish deps completed.login completed.rid cookie environment
      pure (.ok answer)

end Routes

end Sandbox.Auth
