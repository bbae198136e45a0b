import Sandbox.Auth.Authorize
import Sandbox.Auth.RefreshTokens

/-!
# The Token Endpoint

A code is exchanged by reading and removing it in one step and leaving a mark
that names the family it started. A refresh consumes its token first and
checks everything else afterwards; whatever fails revokes the family.

A signed token is modelled by its claims.

## Main definitions

* `authenticateClient`: The client behind a request.
* `issueTokens`: The two signed tokens.
* `exchangeAuthorizationCode`, `validateCodeBinding`: The code grant.
* `refreshAccessToken`, `validateRefreshContext`: The refresh grant.
* `revokeRefreshToken`: Revocation by the client.
-/

namespace Sandbox.Auth

open Interleave Ttl

section Client

/-- The client that presents an id and a secret, if it is active and one of
    its hashes is that secret's. -/
def authenticateClient (deps : Deps) (clientId clientSecret : String) :
    AuthProg (Option OidcClient) := do
  let found ← findClient clientId
  match found with
  | none => pure none
  | some client =>
      if client.status ≠ .active then pure none
      else if client.secretHashes.any (deps.verifySecret clientSecret) then pure (some client)
      else pure none

end Client

section IssueTokens

def profileClaims (user : User) (scopes : List String) : ProfileClaims where
  email := if "email" ∈ scopes then some user.email else none
  emailVerified := "email" ∈ scopes
  name := if "profile" ∈ scopes then user.name else none

structure IssueTokensInput where
  client : OidcClient
  user : User
  scope : String
  nonce : Option String
  sid : String
  tenant : Tenant
  authTime : Int

structure IssuedTokens where
  idToken : IdToken
  accessToken : AccessToken
  expiresIn : Int

/-- Issue the ID Token and the Access Token. The issuer is an audience of the
    Access Token too, for the user info endpoint. -/
def issueTokens (deps : Deps) (input : IssueTokensInput) : AuthProg IssuedTokens := do
  let now ← nowSeconds
  let jti ← randomToken 16
  pure
    { idToken :=
        { iss := deps.issuer
          aud := input.client.clientId
          sub := input.user.id
          iat := now
          exp := now + idTokenTtl
          authTime := input.authTime
          sid := input.sid
          nonce := input.nonce
          tenantId := input.tenant.id
          tenantSlug := input.tenant.slug
          profile := profileClaims input.user (split ' ' input.scope) }
      accessToken :=
        { iss := deps.issuer
          -- The API of the service, and `userinfo`.
          aud := [input.client.audience, deps.issuer]
          sub := input.user.id
          iat := now
          exp := now + accessTokenTtl
          clientId := input.client.clientId
          sid := input.sid
          scope := input.scope
          jti := jti
          tenantId := input.tenant.id
          tenantSlug := input.tenant.slug }
      expiresIn := accessTokenTtl }

def toResponse (tokens : IssuedTokens) (refreshToken scope : String) : TokenResponse where
  accessToken := tokens.accessToken
  expiresIn := tokens.expiresIn
  idToken := tokens.idToken
  refreshToken := refreshToken
  scope := scope

end IssueTokens

/-- Why a grant is refused. Clients only see `invalid_grant`. -/
inductive TokenError
  | codeUnknownOrExpired
  | codeReused
  | clientMismatch
  | redirectUriMismatch
  | codeVerifierInvalid
  | pkceMismatch
  | ssoSessionExpired
  | userMissing
  | tenantMissing
  | refreshTokenUnknownOrExpired
  | refreshTokenReused
  | accessDenied (reason : AccessDeniedReason)
  deriving DecidableEq, Repr

/-- The tenant a code or a refresh token is for. -/
def resolveTenant (tenantId : String) : AuthProg (Except TokenError Tenant) := do
  let tenant ← findTenantById tenantId
  match tenant with
  | none => pure (.error .tenantMissing)
  | some tenant => pure (.ok tenant)

section CodeGrant

structure CodeExchangeInput where
  code : String
  redirectUri : String
  codeVerifier : String
  deriving DecidableEq

/-- 43 to 128 characters of the unreserved alphabet. -/
def isValidCodeVerifier (value : String) : Bool :=
  43 ≤ value.length && value.length ≤ 128 &&
    value.toList.all fun c => isBase64UrlChar c || c == '.' || c == '~'

def validateCodeBinding (deps : Deps) (stored : CodeGrant) (client : OidcClient)
    (input : CodeExchangeInput) : Except TokenError Unit :=
  if stored.clientId ≠ client.clientId then .error .clientMismatch
  else if stored.redirectUri ≠ input.redirectUri then .error .redirectUriMismatch
  else if !isValidCodeVerifier input.codeVerifier then .error .codeVerifierInvalid
  else if deps.computeCodeChallenge input.codeVerifier ≠ stored.codeChallenge then
    .error .pkceMismatch
  else .ok ()

/-- Leave the mark of an exchanged code. -/
def rememberConsumedCode (codeKey familyId : String) : AuthProg Unit :=
  authorizationCodes.set codeKey (.used familyId) consumedCodeRetention

/-- What the first token of a code's family is for. -/
def CodeGrant.refreshInput (stored : CodeGrant) (client : OidcClient) : NewRefreshTokenInput where
  clientId := client.clientId
  userId := stored.userId
  tenantId := stored.tenantId
  sid := stored.sid
  ssoSessionId := stored.ssoSessionId
  scope := stored.scope
  authTime := stored.authTime

/-- A code that was exchanged before is presented again: revoke its family. -/
def rejectReusedCode (client : OidcClient) (codeKey familyId : String) :
    AuthProg (Except TokenError TokenResponse) := do
  let family ← describeRefreshTokenFamily familyId
  revokeRefreshTokenFamily familyId
  -- The mark is left again, since it was taken out with the code.
  rememberConsumedCode codeKey familyId
  recordAudit
    { userId := family.map (·.userId), sessionId := family.map (·.sid),
      tenantId := family.map (·.tenantId), clientId := some client.clientId,
      ip := none, userAgent := none }
    (.authorizationCodeReused familyId)
  pure (.error .codeReused)

/-- Issue the tokens for a code whose binding was checked. -/
def redeemCode (deps : Deps) (client : OidcClient) (codeKey : String) (stored : CodeGrant)
    (user : User) (tenant : Tenant) : AuthProg (Except TokenError TokenResponse) := do
  let issued ← Prog.both (createRefreshTokenFamily deps (stored.refreshInput client))
    (issueTokens deps
      { client, user, scope := stored.scope, nonce := some stored.nonce, sid := stored.sid,
        tenant, authTime := stored.authTime })
  -- From now on the code leads to its family.
  rememberConsumedCode codeKey issued.1.record.familyId
  pure (.ok (toResponse issued.2 issued.1.value stored.scope))

/-- `grant_type=authorization_code`. -/
def exchangeAuthorizationCode (deps : Deps) (client : OidcClient) (input : CodeExchangeInput) :
    AuthProg (Except TokenError TokenResponse) := do
  let codeKey := deps.keyOf input.code
  -- What is taken out here cannot be exchanged by anyone else.
  let stored ← authorizationCodes.getAndDelete codeKey
  match stored with
  | none => pure (.error .codeUnknownOrExpired)
  | some (.used familyId) => rejectReusedCode client codeKey familyId
  | some (.unused stored) =>
    match validateCodeBinding deps stored client input with
    | .error e => pure (.error e)
    | .ok () => do
      let rows ← Prog.both (loadSsoSessionByKey stored.ssoSessionId)
        (Prog.both (findUserById stored.userId) (resolveTenant stored.tenantId))
      -- The session is looked at first, then the user and the tenant.
      match rows.1, rows.2.1, rows.2.2 with
      | none, _, _ => pure (.error .ssoSessionExpired)
      | some _, none, _ => pure (.error .userMissing)
      | some _, some _, .error e => pure (.error e)
      | some _, some user, .ok tenant => redeemCode deps client codeKey stored user tenant

end CodeGrant

section RefreshGrant

/-- What the audit trail keeps about a refresh token that was misused. -/
def RefreshToken.auditSubject (token : RefreshToken) (client : OidcClient) : AuditSubject where
  userId := some token.userId
  sessionId := some token.sid
  tenantId := some token.tenantId
  clientId := some client.clientId
  ip := none
  userAgent := none

/-- Look again at the session and at the user's access. -/
def validateRefreshContext (client : OidcClient) (stored : RefreshToken) :
    AuthProg (Except TokenError (User × Tenant)) := do
  let rows ← Prog.both (loadSsoSessionByKey stored.ssoSessionId) (resolveTenant stored.tenantId)
  match rows.1, rows.2 with
  | none, _ => pure (.error .ssoSessionExpired)
  | some _, .error e => pure (.error e)
  -- The access is checked at every refresh, so that a removal takes effect.
  | some _, .ok tenant => do
      let access ← checkTenantAccess client tenant stored.userId
      match access with
      | .error reason => pure (.error (.accessDenied reason))
      | .ok user => pure (.ok (user, tenant))

/-- The part of a refresh that follows the consumption of an active token. -/
def refreshConsumed (deps : Deps) (client : OidcClient) (stored : RefreshToken) :
    AuthProg (Except TokenError TokenResponse) := do
  -- The token is used up already, so another client's attempt ends the family.
  if stored.clientId ≠ client.clientId then
    revokeRefreshTokenFamily stored.familyId
    recordAudit (stored.auditSubject client)
      (.refreshTokenClientMismatch stored.familyId stored.clientId)
    pure (.error .clientMismatch)
  else
    let validated ← validateRefreshContext client stored
    match validated with
    -- Without session or access the family ends as well.
    | .error e =>
        revokeRefreshTokenFamily stored.familyId
        pure (.error e)
    | .ok (user, tenant) =>
        let issued ← Prog.both (rotateRefreshToken deps stored)
          (issueTokens deps
            { client, user, scope := stored.scope, nonce := none, sid := stored.sid,
              tenant, authTime := stored.authTime })
        pure (.ok (toResponse issued.2 issued.1.value stored.scope))

/-- `grant_type=refresh_token`. -/
def refreshAccessToken (deps : Deps) (client : OidcClient) (refreshTokenValue : String) :
    AuthProg (Except TokenError TokenResponse) := do
  let consumed ← consumeRefreshToken deps refreshTokenValue
  match consumed with
  | .unknown => pure (.error .refreshTokenUnknownOrExpired)
  -- A token that comes twice was copied, so its whole family ends.
  | .reused token => do
      revokeRefreshTokenFamily token.familyId
      recordAudit (token.auditSubject client) (.refreshTokenReused token.familyId token.clientId)
      pure (.error .refreshTokenReused)
  | .consumed stored => refreshConsumed deps client stored

end RefreshGrant

/-- Revocation by the client. A token that is not there is no error. -/
def revokeRefreshToken (deps : Deps) (client : OidcClient) (tokenValue : String) :
    AuthProg Unit := do
  let stored ← refreshTokens.get (deps.keyOf tokenValue)
  match stored with
  | none => pure ()
  | some stored =>
      if stored.clientId ≠ client.clientId then pure ()
      else revokeRefreshTokenFamily stored.familyId

end Sandbox.Auth
