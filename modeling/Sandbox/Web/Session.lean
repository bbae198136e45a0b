import Sandbox.Web.State

/-!
# Tenant Sessions

Creating, loading, saving and destroying the session of a browser at a
tenant's host. A session is in two stores: under its key, and as a member of
the set of its `sid`, through which a back-channel logout finds it.

`saveSession` writes the whole session, whether it is still stored or not.

## Main definitions

* `loadSession`: The session of a cookie.
* `createSession`, `saveSession`, `touchSession`: The writes.
* `destroySession`, `destroySessionsBySid`: The two ways to end sessions.
-/

namespace Sandbox.Web

open Interleave Ttl

variable {jose : Jose}

def destroySession (session : TenantSession) : WebProg jose Unit := do
  let key := sessionKey session.tenantSlug session.id
  let _ ← Prog.both (sessions.delete key) (sessionsBySid.remove (sidKey session.sid) key)
  .emit (.sessionsDestroyed [key])

/-- The session of a cookie's value at the host of a tenant. -/
def loadSession (client : OidcClientConfig) (sessionId : Option String) :
    WebProg jose (Option TenantSession) :=
  match sessionId with
  | none => pure none
  | some sessionId =>
      if sessionId = "" then pure none
      else do
        let session ← sessions.get (sessionKey client.tenantSlug sessionId)
        match session with
        | none => pure none
        | some session => do
            let now ← nowSeconds
            -- Whoever finds a session past its limits takes it away.
            if session.isExpired now then
              destroySession session
              pure none
            else pure (some session)

structure NewSessionInput (jose : Jose) where
  client : OidcClientConfig
  userId : String
  tenantId : String
  sid : String
  email : Option String
  name : Option String
  tokens : TokenResponse jose

/-- Create a session with a new id. The claims it was created from are only
    for the event. -/
def createSession (claims : JWTPayload) (input : NewSessionInput jose) :
    WebProg jose TenantSession := do
  let now ← nowSeconds
  let id ← randomToken
  let csrfToken ← randomToken
  let session : TenantSession :=
    { id := id
      tenantSlug := input.client.tenantSlug
      userId := input.userId
      tenantId := input.tenantId
      sid := input.sid
      email := input.email
      name := input.name
      accessToken := input.tokens.accessToken
      accessTokenExpiresAt := now + input.tokens.expiresIn
      refreshToken := input.tokens.refreshToken
      csrfToken := csrfToken
      createdAt := now
      lastSeenAt := now }
  let key := sessionKey session.tenantSlug session.id
  -- The session and its key in the set are written at once, in either order.
  let _ ← Prog.both
    (sessions.setLogged (.sessionCreated session claims) key session tenantExpiry.absoluteSeconds)
    (sessionsBySid.add (sidKey session.sid) key tenantExpiry.absoluteSeconds)
  pure session

/-- Write a session back and move its last access on. -/
def saveSession (session : TenantSession) : WebProg jose TenantSession := do
  let now ← nowSeconds
  let updated : TenantSession := { session with lastSeenAt := now }
  sessions.setLogged (.sessionSaved updated) (sessionKey updated.tenantSlug updated.id) updated
    (updated.remainingTtl now)
  pure updated

/-- Move the last access on, unless that was done a short while ago. The
    session is read again before it is written. -/
def touchSession (session : TenantSession) : WebProg jose TenantSession := do
  let now ← nowSeconds
  if !session.shouldTouch now then pure session
  else do
    let latest ← sessions.get (sessionKey session.tenantSlug session.id)
    -- Tokens that were refreshed meanwhile are kept.
    saveSession (latest.getD session)

/-- End every session of a `sid`, whatever its tenant, and count them. -/
def destroySessionsBySid (sid : String) : WebProg jose Nat := do
  let keys ← sessionsBySid.members (sidKey sid)
  let _ ← Prog.both (Prog.all (keys.map fun key => sessions.delete key))
    (sessionsBySid.delete (sidKey sid))
  Prog.emit (.sessionsDestroyed keys)
  pure keys.length

end Sandbox.Web
