import Sandbox.Shared.SessionExpiry

/-!
# The Domain of the Authorization Server

The rows of the identity database, the values kept in the volatile stores,
the tokens, and the lifetimes. Services (`OidcClient`) and tenants are two
axes: a tenant is a customer that may have contracted several services, and a
membership says which user may enter which service of which tenant.

Volatile values carry no lifetime of their own; the store's time to live is
their lifetime. A session's store key, a code, a refresh token and a saved
request are all stored under the digest of the value their holder presents.

## Main definitions

* `User`, `Tenant`, `OidcClient`, `Contract`, `ServiceMembership`: Identity.
* `AuthSessionRecord`, `SessionClientEntry`: The record of a session that
  outlives it.
* `SsoSession`, `AuthorizationRequest`, `AuthorizationCode`, `RefreshToken`,
  `MfaPending`: Volatile values.
* `IdToken`, `AccessToken`, `LogoutToken`: What the signed tokens claim.
* `AuditEvent`: What the audit trail keeps.
-/

namespace Sandbox.Auth

/-- The status of users, clients and memberships. -/
inductive Status
  | active
  | disabled
  deriving DecidableEq, Repr

/-- The status of tenants and contracts. -/
inductive Standing
  | active
  | suspended
  deriving DecidableEq, Repr

structure User where
  id : String
  /-- Absent for an invited user who has not logged in yet. -/
  cognitoSub : Option String
  email : String
  name : Option String
  status : Status
  deriving DecidableEq, Repr

structure Tenant where
  id : String
  slug : String
  status : Standing
  deriving DecidableEq, Repr

structure OidcClient where
  /-- The surrogate id that other rows refer to. -/
  id : String
  /-- The public identifier. -/
  clientId : String
  audience : String
  redirectUriTemplate : String
  secretHashes : List String
  allowedScopes : List String
  status : Status
  /-- Where back-channel logout is sent; absent if it is not. -/
  backchannelLogoutUri : Option String
  deriving DecidableEq, Repr

/-- A tenant has contracted a service. -/
structure Contract where
  tenantId : String
  oidcClientId : String
  status : Standing
  deriving DecidableEq, Repr

/-- A user is assigned to a service of a tenant. -/
structure ServiceMembership where
  tenantId : String
  oidcClientId : String
  userId : String
  status : Status
  deriving DecidableEq, Repr

inductive MfaMethod
  | totp
  deriving DecidableEq, Repr

structure UserMfaMethod where
  userId : String
  method : MfaMethod
  enrolledAt : Int
  deriving DecidableEq, Repr

/-- Where a browser's request came from. -/
structure RequestEnvironment where
  ip : String
  userAgent : String
  deriving DecidableEq, Repr

/-- Either of the two differs from the last time. -/
def environmentChanged (recorded current : RequestEnvironment) : Bool :=
  recorded.ip != current.ip || recorded.userAgent != current.userAgent

inductive SessionRevokeReason
  | globalLogout
  | userRevoked
  deriving DecidableEq, Repr

/-- The database's record of a single sign-on session. Its id is the `sid`. -/
structure AuthSessionRecord where
  id : String
  userId : String
  ip : String
  userAgent : String
  createdAt : Int
  lastSeenAt : Int
  revokedAt : Option Int
  revokeReason : Option SessionRevokeReason
  deriving DecidableEq, Repr

/-- A service and tenant a session has issued a code for. -/
structure SessionClientEntry where
  sessionId : String
  oidcClientId : String
  tenantId : String
  firstSeenAt : Int
  lastSeenAt : Int
  deriving DecidableEq, Repr

structure AuthSessionWithClients where
  record : AuthSessionRecord
  clients : List SessionClientEntry
  deriving DecidableEq, Repr

/-- A single sign-on session. Its `id` is its store key, the digest of the
    cookie's value; its `sid` is the public identifier. -/
structure SsoSession where
  id : String
  sid : String
  userId : String
  encryptedCognitoTokens : String
  authTime : Int
  createdAt : Int
  lastSeenAt : Int
  deriving DecidableEq, Repr

/-- A validated request that waits for a login. -/
structure AuthorizationRequest where
  clientId : String
  tenantId : String
  redirectUri : String
  scope : String
  state : String
  nonce : String
  codeChallenge : String
  deriving DecidableEq, Repr

/-- What an unused code stands for. -/
structure CodeGrant where
  clientId : String
  redirectUri : String
  scope : String
  nonce : String
  codeChallenge : String
  userId : String
  tenantId : String
  sid : String
  ssoSessionId : String
  authTime : Int
  deriving DecidableEq, Repr

/-- A code not yet exchanged, or the mark left by its exchange. -/
inductive AuthorizationCode
  | unused (grant : CodeGrant)
  | used (familyId : String)
  deriving DecidableEq, Repr

inductive RefreshTokenStatus
  | active
  | rotated
  | revoked
  deriving DecidableEq, Repr

structure RefreshToken where
  familyId : String
  clientId : String
  userId : String
  tenantId : String
  sid : String
  ssoSessionId : String
  scope : String
  authTime : Int
  status : RefreshTokenStatus
  deriving DecidableEq, Repr

/-- A login whose password was right and whose second factor is still
    missing. -/
inductive MfaPending
  | totpChallenge (username cognitoSession rid : String) (attempts : Nat)
  | totpSetup (sub email : String) (name : Option String) (encryptedTokens rid : String)
      (encryptedSecret : Option String) (secretIssuedAt : Option Int)
  deriving DecidableEq, Repr

structure CognitoTokens where
  accessToken : String
  idToken : String
  refreshToken : String
  expiresAt : Int
  deriving DecidableEq, Repr

structure CognitoCredentials where
  username : String
  password : String
  deriving DecidableEq, Repr

structure CognitoAuthenticated where
  sub : String
  email : String
  name : Option String
  tokens : CognitoTokens
  deriving DecidableEq, Repr

/-- A password was right, with the second factor not asked for or asked for. -/
inductive CognitoAuthOutcome
  | authenticated (authenticated : CognitoAuthenticated)
  | totpRequired (session username : String)
  deriving DecidableEq, Repr

inductive CognitoAuthError
  | invalidCredentials
  | userNotConfirmed
  | passwordResetRequired
  | challengeRequired (challengeName : String)
  | unavailable (reason : String)
  deriving DecidableEq, Repr

/-- The name of an error as it appears in redirects and in the audit trail. -/
def CognitoAuthError.kind : CognitoAuthError → String
  | .invalidCredentials => "invalid_credentials"
  | .userNotConfirmed => "user_not_confirmed"
  | .passwordResetRequired => "password_reset_required"
  | .challengeRequired _ => "challenge_required"
  | .unavailable _ => "unavailable"

inductive CognitoMfaError
  | codeMismatch
  | sessionExpired
  | unavailable (reason : String)
  deriving DecidableEq, Repr

/-- The claims about a user that scopes select. -/
structure ProfileClaims where
  email : Option String
  emailVerified : Bool
  name : Option String
  deriving DecidableEq, Repr

/-- The claims of an ID Token. -/
structure IdToken where
  iss : String
  aud : String
  sub : String
  iat : Int
  exp : Int
  authTime : Int
  sid : String
  nonce : Option String
  tenantId : String
  tenantSlug : String
  profile : ProfileClaims
  deriving DecidableEq, Repr

/-- The claims of an Access Token. -/
structure AccessToken where
  iss : String
  aud : List String
  sub : String
  iat : Int
  exp : Int
  clientId : String
  sid : String
  scope : String
  jti : String
  tenantId : String
  tenantSlug : String
  deriving DecidableEq, Repr

/-- The claims of a logout token. -/
structure LogoutToken where
  iss : String
  aud : String
  sub : String
  iat : Int
  exp : Int
  jti : String
  sid : String
  deriving DecidableEq, Repr

/-- What the token endpoint answers. -/
structure TokenResponse where
  accessToken : AccessToken
  expiresIn : Int
  idToken : IdToken
  refreshToken : String
  scope : String
  deriving DecidableEq, Repr

/-- The detail of an audit event, one constructor for each kind. -/
inductive AuditDetail
  | loginSucceeded (mfa : MfaMethod)
  | loginFailed (reason : String)
  | environmentChanged (previous current : RequestEnvironment)
  | sessionRevoked (reason : SessionRevokeReason) (notified failed : List String)
  | refreshTokenReused (familyId tokenClientId : String)
  | refreshTokenClientMismatch (familyId tokenClientId : String)
  | authorizationCodeReused (familyId : String)
  | serviceMemberInvited (linked : Bool)
  | serviceMemberRevoked (revokedSessions : List String)
  | mfaEnrolled (method : MfaMethod)
  | mfaChallengeFailed (method : MfaMethod) (attempts : Option Nat)
  | mfaSetupExpired (method : MfaMethod) (renewed : Bool)
  deriving DecidableEq, Repr

/-- What an event is about, apart from its detail. -/
structure AuditSubject where
  userId : Option String
  sessionId : Option String
  tenantId : Option String
  clientId : Option String
  ip : Option String
  userAgent : Option String
  deriving DecidableEq, Repr

structure AuditEvent where
  id : String
  occurredAt : Int
  subject : AuditSubject
  detail : AuditDetail
  deriving DecidableEq, Repr

/-- A back-channel logout request sent to a client. -/
structure LogoutNotice where
  uri : String
  token : LogoutToken
  deriving DecidableEq, Repr

section Policy

/-- Idle limit of two hours, absolute limit of twelve. -/
def ssoExpiry : SessionExpiry where
  idleSeconds := 2 * 60 * 60
  absoluteSeconds := 12 * 60 * 60

def authorizationRequestTtl : Int := 30 * 60
def authorizationCodeTtl : Int := 60
/-- How long the mark of an exchanged code is kept. -/
def consumedCodeRetention : Int := 10 * 60
def idTokenTtl : Int := 5 * 60
def accessTokenTtl : Int := 15 * 60
def refreshTokenTtl : Int := 12 * 60 * 60
def logoutTokenTtl : Int := 2 * 60
def mfaPendingTtl : Int := 5 * 60
def mfaMaxAttempts : Nat := 5
def totpSetupTtl : Int := 3 * 60

def supportedScopes : List String := ["openid", "profile", "email"]

end Policy

namespace SsoSession

def isExpired (session : SsoSession) (now : Int) : Bool :=
  ssoExpiry.isExpired session.createdAt session.lastSeenAt now

def remainingTtl (session : SsoSession) (now : Int) : Int :=
  ssoExpiry.remainingTtl session.createdAt now

end SsoSession

end Sandbox.Auth
