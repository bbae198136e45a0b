import Sandbox.Auth.RefreshTokens
import Sandbox.Auth.SsoSession

/-!
# Global Logout and Revocation

Revoking a session looks it up by its public identifier, revokes the refresh
token families that rest on it, destroys it and tells every client a code was
issued for. A session that is no longer in the volatile store is still told
about, from the record in the database.

## Main definitions

* `issueLogoutToken`, `notifyClient`, `notifyClientById`: Back-channel logout.
* `revokeSessionBySid`, `globalLogout`: Revoking a session.
* `revokeClientAccess`: Cutting one service of one tenant only.
-/

namespace Sandbox.Auth

open Interleave Ttl

structure BackchannelResult where
  clientId : String
  ok : Bool
  deriving DecidableEq

/-- A logout token names the session by `sid` and has no nonce. -/
def issueLogoutToken (deps : Deps) (clientId sid : String) : AuthProg LogoutToken := do
  let now ← nowSeconds
  let jti ← randomToken 16
  pure { iss := deps.issuer, aud := clientId, sub := sid, iat := now,
         exp := now + logoutTokenTtl, jti := jti, sid := sid }

/-- Send a logout request; whether the client accepts it comes from outside. -/
def sendLogout (uri : String) (token : LogoutToken) : AuthProg Bool :=
  .ask fun i s =>
    match i with
    | .notified ok => some (ok, { s with outbox := ⟨uri, token⟩ :: s.outbox })
    | _ => none

def notifyClient (deps : Deps) (client : OidcClient) (sid : String) :
    AuthProg BackchannelResult :=
  match client.backchannelLogoutUri with
  | none => pure ⟨client.clientId, false⟩
  | some uri =>
      if client.status ≠ .active then pure ⟨client.clientId, false⟩
      else do
        let token ← issueLogoutToken deps client.clientId sid
        let ok ← sendLogout uri token
        pure ⟨client.clientId, ok⟩

def notifyClientById (deps : Deps) (oidcClientId sid : String) : AuthProg BackchannelResult := do
  let client ← findClientById oidcClientId
  match client with
  | none => pure ⟨oidcClientId, false⟩
  | some client => notifyClient deps client sid

/-- Revoke the refresh token the user directory holds for the session. The
    directory's state is not ours, and a failure is only logged. -/
def revokeCognitoTokens (deps : Deps) (session : SsoSession) : AuthProg Unit :=
  match deps.unsealCognitoTokens session.encryptedCognitoTokens with
  | none => pure ()
  | some _ => .read fun _ => ()

/-- End a session that was found in the volatile store. -/
def revokeLiveSession (deps : Deps) (session : SsoSession) (sid : String) : AuthProg Unit := do
  let families ← listRefreshFamilies sid
  let _ ← Prog.both
    (Prog.all (families.map fun ref => revokeRefreshTokenFamily ref.familyId))
    (Prog.both (revokeCognitoTokens deps session) (destroySsoSession session))
  -- The set goes last, when the families it names are revoked.
  sidRefreshFamilies.delete sid

/-- End a session, if it was found. -/
def revokeFoundSession (deps : Deps) (session : Option SsoSession) (sid : String) :
    AuthProg Unit :=
  match session with
  | none => pure ()
  | some session => revokeLiveSession deps session sid

/-- Revoke a session and tell the clients. -/
def revokeSessionBySid (deps : Deps) (sid : String) (reason : SessionRevokeReason)
    (environment : Option RequestEnvironment) : AuthProg Unit := do
  let found ← Prog.both (findSsoSessionBySid sid) (Sessions.findWithClients sid)
  revokeFoundSession deps found.1 sid
  -- A client is told once, for however many tenants it was used.
  let clientIds := (((found.2.map (·.clients)).getD []).map (·.oidcClientId)).eraseDups
  let told ← Prog.both
    (Prog.all (clientIds.map fun oidcClientId => notifyClientById deps oidcClientId sid))
    (do let now ← nowSeconds; Sessions.markRevoked sid reason now)
  recordAudit
    { userId := (found.1.map (·.userId)).or (found.2.map (·.record.userId))
      sessionId := some sid
      tenantId := none
      clientId := none
      ip := environment.map (·.ip)
      userAgent := environment.map (·.userAgent) }
    (.sessionRevoked reason ((told.1.filter (·.ok)).map (·.clientId))
      ((told.1.filter fun n => !n.ok).map (·.clientId)))
  Prog.emit (.sessionRevoked sid)

/-- Logout by the user. -/
def globalLogout (deps : Deps) (session : SsoSession) (environment : RequestEnvironment) :
    AuthProg Unit :=
  revokeSessionBySid deps session.sid .globalLogout (some environment)

/-- Cut a user's access to one service of one tenant: revoke the families for
    it under every active session, and tell the service. The sessions stay. -/
def revokeClientAccess (deps : Deps) (userId : String) (client : OidcClient) (tenantId : String) :
    AuthProg (List String) := do
  let sessions ← Sessions.listActiveByUser userId
  let affected := sessions.filter fun s =>
    s.clients.any fun c => c.oidcClientId = client.id ∧ c.tenantId = tenantId
  let _ ← Prog.all (affected.map fun record => (do
    let families ← listRefreshFamilies record.record.id
    -- Families of other clients and tenants under the session stay.
    let _ ← Prog.all ((families.filter fun ref =>
      ref.clientId = client.clientId ∧ ref.tenantId = tenantId).map
        fun ref => revokeRefreshTokenFamily ref.familyId)
    notifyClient deps client record.record.id))
  pure (affected.map (·.record.id))

end Sandbox.Auth
