import Sandbox.Auth.SsoSession
import Sandbox.Shared.RedirectTemplate

/-!
# The Authorization Endpoint

A request is validated before anything is answered to its redirect URI: until
the client and the redirect URI are known there is no redirect at all. With a
single sign-on session a code is issued at once, without one the request is
saved and the browser sent to the login, whose completion resumes it.

Whether a user may enter is decided by four rows: the user, the tenant, the
contract and the membership.

`authorizeWithSession` takes the saved request it answers, if any, for the
event it leaves. The source has no such argument.

## Main definitions

* `validateAuthorizationRequest`: The checks on the parameters.
* `checkTenantAccess`: The access decision.
* `authorizeWithSession`: Issuing a code.
* `storePendingAuthorization`, `loadPendingAuthorization`,
  `consumePendingAuthorization`, `resumePendingAuthorization`: Saved requests.
* `authorize`: The endpoint.
-/

namespace Sandbox.Auth

open Interleave Ttl

/-- The query parameters the endpoint reads. -/
structure RawParams where
  clientId : Option String
  redirectUri : Option String
  responseType : Option String
  state : Option String
  nonce : Option String
  codeChallengeMethod : Option String
  codeChallenge : Option String
  scope : Option String
  deriving DecidableEq

structure ValidatedAuthorizationRequest where
  client : OidcClient
  redirectUri : String
  tenant : Tenant
  scope : String
  state : String
  nonce : String
  codeChallenge : String
  deriving DecidableEq

inductive AuthorizationRequestError
  | invalidClient
  | invalidRedirectUri
  /-- An error that is reported to the redirect URI. -/
  | redirectable (kind redirectUri : String) (state : Option String) (description : String)
  deriving DecidableEq

/-- The part of the checks that follows the client and the tenant. -/
def validateParams (client : OidcClient) (redirectUri : String) (tenant : Tenant)
    (params : RawParams) : Except AuthorizationRequestError ValidatedAuthorizationRequest :=
  -- From here on an error is told to the client, at its redirect URI.
  let reject (kind description : String) :
      Except AuthorizationRequestError ValidatedAuthorizationRequest :=
    .error (.redirectable kind redirectUri params.state description)
  if params.responseType ≠ some "code" then
    reject "unsupported_response_type" "response_type must be code"
  else
    match params.state with
    | none | some "" => reject "invalid_request" "state is required"
    | some state =>
      match params.nonce with
      | none | some "" => reject "invalid_request" "nonce is required"
      | some nonce =>
        if params.codeChallengeMethod ≠ some "S256" then
          reject "invalid_request" "code_challenge_method must be S256"
        else
          match params.codeChallenge with
          | none => reject "invalid_request" "code_challenge is invalid"
          | some codeChallenge =>
            if !isBase64Url 32 codeChallenge then
              reject "invalid_request" "code_challenge is invalid"
            else
              -- Empty words are no scopes.
              let requestedScopes := (split ' ' (params.scope.getD "")).filter (· ≠ "")
              if "openid" ∉ requestedScopes then
                reject "invalid_scope" "scope must include openid"
              else
                match requestedScopes.find? fun scope =>
                    scope ∉ supportedScopes ∨ scope ∉ client.allowedScopes with
                | some unsupported =>
                    reject "invalid_scope" ("scope " ++ unsupported ++ " is not allowed")
                | none =>
                    .ok { client, redirectUri, tenant, state, nonce, codeChallenge,
                          scope := join ' ' requestedScopes }

/-- Validate the parameters. The tenant is the one whose slug the redirect URI
    has in the client's template. -/
def validateAuthorizationRequest (params : RawParams) :
    AuthProg (Except AuthorizationRequestError ValidatedAuthorizationRequest) :=
  match params.clientId with
  | none | some "" => pure (.error .invalidClient)
  | some clientId => do
      let found ← findClient clientId
      match found with
      | none => pure (.error .invalidClient)
      | some client =>
        if client.status ≠ .active then pure (.error .invalidClient)
        else
          match params.redirectUri with
          | none => pure (.error .invalidRedirectUri)
          | some redirectUri =>
            -- Until the redirect URI is the client's, an error is not redirected.
            match matchRedirectUriTemplate client.redirectUriTemplate redirectUri with
            | none => pure (.error .invalidRedirectUri)
            | some tenantSlug => do
                let tenant ← findTenantBySlug tenantSlug
                match tenant with
                | none => pure (.error .invalidRedirectUri)
                | some tenant => pure (validateParams client redirectUri tenant params)

inductive AccessDeniedReason
  | userDisabled
  | tenantSuspended
  | notContracted
  | noMembership
  | membershipInactive
  deriving DecidableEq, Repr

/-- The name of a reason as clients see it. -/
def AccessDeniedReason.text : AccessDeniedReason → String
  | .userDisabled => "user_disabled"
  | .tenantSuspended => "tenant_suspended"
  | .notContracted => "not_contracted"
  | .noMembership => "no_membership"
  | .membershipInactive => "membership_inactive"

/-- The decision on the rows that were found. -/
def decideTenantAccess (tenant : Tenant) (user : Option User) (contract : Option Contract)
    (membership : Option ServiceMembership) : Except AccessDeniedReason User :=
  match user with
  | none => .error .userDisabled
  | some user =>
    if user.status ≠ .active then .error .userDisabled
    -- The order of the checks decides which reason is told.
    else if tenant.status ≠ .active then .error .tenantSuspended
    else
      match contract with
      | none => .error .notContracted
      | some contract =>
        if contract.status ≠ .active then .error .notContracted
        else
          match membership with
          | none => .error .noMembership
          | some membership =>
            if membership.status ≠ .active then .error .membershipInactive
            else .ok user

/-- All four rows are active, or there is no access. -/
theorem decideTenantAccess_ok {tenant : Tenant} {found : Option User} {contract : Option Contract}
    {membership : Option ServiceMembership} {user : User} :
    decideTenantAccess tenant found contract membership = .ok user ↔
      found = some user ∧ user.status = .active ∧ tenant.status = .active ∧
        (∃ c, contract = some c ∧ c.status = .active) ∧
        ∃ m, membership = some m ∧ m.status = .active := by
  unfold decideTenantAccess
  constructor
  -- Each of the four checks has passed where a user is answered.
  · intro h
    split at h
    · cases h
    · split_ifs at h with huser htenant
      split at h
      · cases h
      · next c =>
          split_ifs at h with hcontract
          split at h
          · cases h
          · next m =>
              split_ifs at h with hmembership
              obtain rfl := Except.ok.inj h
              exact ⟨rfl, not_not.mp huser, not_not.mp htenant, ⟨c, rfl, not_not.mp hcontract⟩,
                m, rfl, not_not.mp hmembership⟩
  · rintro ⟨rfl, huser, htenant, ⟨c, rfl, hcontract⟩, m, rfl, hmembership⟩
    dsimp only
    rw [if_neg (not_not.mpr huser), if_neg (not_not.mpr htenant), if_neg (not_not.mpr hcontract),
      if_neg (not_not.mpr hmembership)]

/-- Whether a user may enter this service of this tenant. The three rows are
    looked up at once. -/
def checkTenantAccess (client : OidcClient) (tenant : Tenant) (userId : String) :
    AuthProg (Except AccessDeniedReason User) := do
  let rows ← Prog.both (findUserById userId)
    (Prog.both (findContract tenant.id client.id)
      (findServiceMembership tenant.id client.id userId))
  pure (decideTenantAccess tenant rows.1 rows.2.1 rows.2.2)

/-- What a code issued for a request under a session stands for. -/
def codeGrant (request : ValidatedAuthorizationRequest) (session : SsoSession) : CodeGrant where
  clientId := request.client.clientId
  redirectUri := request.redirectUri
  scope := request.scope
  nonce := request.nonce
  codeChallenge := request.codeChallenge
  userId := session.userId
  tenantId := request.tenant.id
  sid := session.sid
  ssoSessionId := session.id
  authTime := session.authTime

/-- Issue a code under a session that is alive, if the user may enter. -/
def authorizeWithSession (deps : Deps) (rid : Option String)
    (request : ValidatedAuthorizationRequest) (session : SsoSession)
    (environment : RequestEnvironment) : AuthProg (Except AccessDeniedReason String) := do
  let access ← checkTenantAccess request.client request.tenant session.userId
  match access with
  | .error reason => pure (.error reason)
  | .ok _ =>
      -- Only the digest of the code is stored.
      let codeValue ← randomToken 32
      authorizationCodes.setLogged (.codeStored rid (deps.keyOf codeValue))
        (deps.keyOf codeValue) (.unused (codeGrant request session)) authorizationCodeTtl
      let _ ← touchSsoSession session request.client request.tenant.id environment
      pure (.ok codeValue)

section PendingAuthorization

/-- Save a validated request until the login is complete. -/
def storePendingAuthorization (deps : Deps) (request : ValidatedAuthorizationRequest) :
    AuthProg String := do
  let rid ← randomToken 32
  let pending : AuthorizationRequest :=
    { clientId := request.client.clientId
      tenantId := request.tenant.id
      redirectUri := request.redirectUri
      scope := request.scope
      state := request.state
      nonce := request.nonce
      codeChallenge := request.codeChallenge }
  authorizationRequests.setLogged (.requestSaved rid) (deps.keyOf rid) pending
    authorizationRequestTtl
  pure rid

def loadPendingAuthorization (deps : Deps) (rid : String) :
    AuthProg (Option AuthorizationRequest) :=
  authorizationRequests.get (deps.keyOf rid)

/-- Take a saved request out, once. -/
def consumePendingAuthorization (deps : Deps) (rid : String) :
    AuthProg (Option AuthorizationRequest) :=
  authorizationRequests.getAndDelete (deps.keyOf rid)

inductive ResumeError
  | accessDenied (reason : AccessDeniedReason)
  | invalidRequest
  deriving DecidableEq, Repr

/-- The names of an error and of its description as clients see them. -/
def ResumeError.texts : ResumeError → String × Option String
  | .accessDenied reason => ("access_denied", some reason.text)
  | .invalidRequest => ("invalid_request", none)

/-- Issue a code for a saved request. Only the client and the tenant are
    looked at again. -/
def resumePendingAuthorization (deps : Deps) (rid : String) (pending : AuthorizationRequest)
    (session : SsoSession) (environment : RequestEnvironment) :
    AuthProg (Except ResumeError String) := do
  let rows ← Prog.both (findClient pending.clientId) (findTenantById pending.tenantId)
  match rows.1, rows.2 with
  | some client, some tenant =>
      -- Client and tenant may have changed while the user logged in.
      if client.status ≠ .active then pure (.error .invalidRequest)
      else
        let request : ValidatedAuthorizationRequest :=
          { client, tenant, redirectUri := pending.redirectUri, scope := pending.scope,
            state := pending.state, nonce := pending.nonce,
            codeChallenge := pending.codeChallenge }
        let issued ← authorizeWithSession deps (some rid) request session environment
        pure (issued.mapError .accessDenied)
  | _, _ => pure (.error .invalidRequest)

end PendingAuthorization

section Endpoint

/-- A redirect to a client, with the parameters set on the target. -/
structure Redirect where
  target : String
  params : List (String × String)
  deriving DecidableEq

/-- Set the parameters that are present, and the issuer last. -/
def buildRedirect (redirectUri issuer : String) (params : List (String × Option String)) :
    Redirect :=
  ⟨redirectUri, params.filterMap (fun p => p.2.map (p.1, ·)) ++ [("iss", issuer)]⟩

/-- The answer to a client about a code or its refusal. -/
def redirectForOutcome (issuer redirectUri state : String) (outcome : Except ResumeError String) :
    Redirect :=
  match outcome with
  | .ok code => buildRedirect redirectUri issuer [("code", some code), ("state", some state)]
  | .error e => buildRedirect redirectUri issuer
      [("error", some e.texts.1), ("error_description", e.texts.2), ("state", some state)]

/-- What the authorization endpoint answers. -/
inductive AuthorizeAnswer
  /-- An error page, without a redirect. -/
  | badRequest
  | redirect (r : Redirect)
  /-- To the login, with the request saved under `rid`. -/
  | login (rid : String) (clearCookie : Bool)
  deriving DecidableEq

/-- The answer to a request that did not pass the checks. -/
def respondValidationError (deps : Deps) : AuthorizationRequestError → AuthorizeAnswer
  | .invalidClient | .invalidRedirectUri => .badRequest
  | .redirectable kind redirectUri state description =>
      .redirect (buildRedirect redirectUri deps.issuer
        [("error", some kind), ("error_description", some description), ("state", state)])

/-- `GET /authorize`. -/
def authorize (deps : Deps) (params : RawParams) (cookie : Option String)
    (environment : RequestEnvironment) : AuthProg AuthorizeAnswer := do
  let validated ← validateAuthorizationRequest params
  match validated with
  | .error e => pure (respondValidationError deps e)
  | .ok request =>
      let session ← loadSsoSession deps cookie
      match session with
      | none =>
          -- The login comes back to the request with this `rid`.
          let rid ← storePendingAuthorization deps request
          pure (.login rid cookie.isSome)
      | some session =>
          let outcome ← authorizeWithSession deps none request session environment
          pure (.redirect (redirectForOutcome deps.issuer request.redirectUri request.state
            (outcome.mapError .accessDenied)))

end Endpoint

end Sandbox.Auth
