import Mathlib.Data.List.Infix
import Sandbox.Web.Session

/-!
# Calling the Service's API

An Access Token that is about to end is refreshed first. Of the requests that
run at once on a session one takes a lock and refreshes, and the others wait
until they find the session refreshed. The lock ends by itself after a while.

If the API answers that the token has expired, the request is repeated once.
For that the function that refreshes is called again, with a copy of the
session that says that its token has ended. The function reads the session
again once it has the lock, and then it is the stored session that decides
whether anything is refreshed.

## Main definitions

* `needsRefresh`: The Access Token lasts no longer than the margin.
* `ensureFreshAccessToken`, `refresh`, `waitForRefresh`: Refreshing.
* `apiFetch`, `retryExpired`: A call, and its repetition.
-/

namespace Sandbox.Web

open Interleave Ttl

variable {jose : Jose}

inductive ApiAccessError where
  | sessionExpired
  | providerUnavailable (reason : String)
  deriving DecidableEq

def ProviderError.kind : ProviderError → String
  | .discoveryFailed _ => "discovery_failed"
  | .jwksFailed _ => "jwks_failed"
  | .invalidGrant => "invalid_grant"
  | .invalidClient => "invalid_client"
  | .tokenRequestFailed _ => "token_request_failed"
  | .idTokenInvalid _ => "id_token_invalid"

def needsRefresh (session : TenantSession) (now : Int) : Bool :=
  session.accessTokenExpiresAt - now ≤ refreshMargin

/-- Present a Refresh Token of the session at a key to the authorization
    server. The request is sent first and answered later. -/
def providerRefresh (key refreshToken : String) :
    WebProg jose (Except ProviderError (TokenResponse jose)) := do
  Prog.emit (.refreshSent key refreshToken)
  .act (fun reply => some (.refreshAnswered key
      (reply.toOption.map fun tokens => (tokens.accessToken, tokens.refreshToken))))
    (fun i s => match i with
      | .tokens reply => some (reply, s)
      | _ => none)
    .done

def refresh (session : TenantSession) : WebProg jose (Except ApiAccessError TenantSession) := do
  let refreshed ← providerRefresh (sessionKey session.tenantSlug session.id) session.refreshToken
  match refreshed with
  -- The authorization server does not accept the token any more.
  | .error .invalidGrant => do
      destroySession session
      pure (.error .sessionExpired)
  | .error e => pure (.error (.providerUnavailable e.kind))
  | .ok tokens => do
      let now ← nowSeconds
      let updated ← saveSession
        { session with
          accessToken := tokens.accessToken
          accessTokenExpiresAt := now + tokens.expiresIn
          refreshToken := tokens.refreshToken }
      pure (.ok updated)

/-- Another request refreshes. Wait until the session is fresh, a number of
    times at most. -/
def waitForRefresh (client : OidcClientConfig) (session : TenantSession) :
    Nat → WebProg jose (Except ApiAccessError TenantSession)
  | 0 => pure (.error (.providerUnavailable "refresh_lock_timeout"))
  | attempts + 1 => do
      sleep
      let latest ← loadSession client (some session.id)
      -- The request that holds the lock may have ended the session.
      match latest with
      | none => pure (.error .sessionExpired)
      | some latest => do
          let now ← nowSeconds
          if !needsRefresh latest now then pure (.ok latest)
          else waitForRefresh client session attempts

/-- What is done with the lock: read the session again and refresh it if that
    is still needed. -/
def refreshLocked (client : OidcClientConfig) (session : TenantSession) :
    WebProg jose (Except ApiAccessError TenantSession) := do
  let loaded ← loadSession client (some session.id)
  let latest := loaded.getD session
  let now ← nowSeconds
  if !needsRefresh latest now then pure (.ok latest)
  else refresh latest

def ensureFreshAccessToken (client : OidcClientConfig) (session : TenantSession) :
    WebProg jose (Except ApiAccessError TenantSession) := do
  let now ← nowSeconds
  if !needsRefresh session now then pure (.ok session)
  else do
    let lockKey := sessionKey client.tenantSlug session.id
    let locked ← refreshLocks.setIfAbsentLogged (.lockAsked lockKey) lockKey "1" refreshLockTtl
    -- One request refreshes, the others wait for it.
    if !locked then waitForRefresh client session refreshWaitAttempts
    else do
      let result ← refreshLocked client session
      refreshLocks.deleteLogged (.lockFreed lockKey) lockKey
      pure result

section Fetch

/-- `error_description="expired"` -/
def expiredDescription : String := "error_description=\"expired\""

/-- `isExpiredTokenChallenge` -/
def isExpiredTokenChallenge (header : Option String) : Bool :=
  header.any fun text => decide (expiredDescription.toList <:+: text.toList)

/-- A response that says that the Access Token has expired. -/
def Response.isExpired (response : Response) : Bool :=
  response.status = 401 && isExpiredTokenChallenge response.wwwAuthenticate

/-- Send a request with a Bearer token. -/
def fetch (url : Whatwg.Url) (accessToken : String) : WebProg jose Response :=
  .act (fun response => some (.fetched url accessToken response.isExpired))
    (fun i s => match i with
      | .response response => some (response, s)
      | _ => none)
    .done

/-- The second attempt, after the API has said that the token has expired. -/
def retryExpired (client : OidcClientConfig) (session : TenantSession) (url : Whatwg.Url) :
    WebProg jose (Except ApiAccessError (Response × TenantSession)) := do
  -- With an end in the past a refresh is asked for in any case.
  let forced ← ensureFreshAccessToken client { session with accessTokenExpiresAt := 0 }
  match forced with
  | .error e => pure (.error e)
  | .ok session => do
      let response ← fetch url session.accessToken
      pure (.ok (response, session))

def apiFetch (client : OidcClientConfig) (session : TenantSession) (url : Whatwg.Url) :
    WebProg jose (Except ApiAccessError (Response × TenantSession)) := do
  let fresh ← ensureFreshAccessToken client session
  match fresh with
  | .error e => pure (.error e)
  | .ok fresh => do
      let response ← fetch url fresh.accessToken
      if !response.isExpired then pure (.ok (response, fresh))
      else retryExpired client fresh url

end Fetch

end Sandbox.Web
