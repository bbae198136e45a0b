import Sandbox.Interleave.Resource
import Sandbox.Web.Routes

/-!
# Building Blocks of the Routes

The routes change the stored sessions in four ways only: a session is
created, saved, destroyed, or destroyed with its `sid`. `Pieces` says that a
class of programs has the last three and everything that leaves the sessions
alone; a class that is closed under building programs then has the routes.

## Main definitions

* `Aside`: Events that are not about stored sessions.
* `Untouched`: Changes that leave the sessions and their index alone.
* `Pieces`: What a class of programs has to have.

## Theorems

* `Pieces.loadSession`, `Pieces.ensureFreshAccessToken`, `Pieces.apiFetch`:
  The larger programs belong to the class.
* `Pieces.callback`, `Pieces.respond`: And the routes, with or without the one
  that creates sessions.
-/

namespace Sandbox.Web

open Interleave Ttl

variable {jose : Jose}

/-- An event that is not about stored sessions. -/
def Aside : Event → Prop
  | .sessionCreated _ _ => False
  | .sessionSaved _ => False
  | .sessionsDestroyed _ => False
  | _ => True

/-- The sessions, their index and the clock stay as they are. -/
def Untouched (s s' : WebState) : Prop :=
  s'.now = s.now ∧ s'.sessions = s.sessions ∧ s'.sessionsBySid = s.sessionsBySid

/-- What a class of programs has to have for the routes to belong to it. -/
structure Pieces (C : (α : Type) → WebProg jose α → Prop) : Prop where
  closed : Closed C
  aside : ∀ {α : Type} {p : WebProg jose α}, Within Untouched Aside p → C α p
  save : ∀ session ttl, C _ (sessions.setLogged (.sessionSaved session)
    (sessionKey session.tenantSlug session.id) session ttl)
  destroy : ∀ session, C _ (destroySession session)
  destroyBySid : ∀ sid, C _ (destroySessionsBySid sid)

section Aside

theorem aside_read {β : Type} (f : WebState → β) :
    Within Untouched Aside (Prog.read f : WebProg jose β) :=
  within_read fun _ => ⟨rfl, rfl, rfl⟩

theorem aside_emit {e : Event} (h : Aside e) :
    Within Untouched Aside (Prog.emit e : WebProg jose _) :=
  within_logged (fun _ => ⟨rfl, rfl, rfl⟩) fun _ => h

theorem aside_randomToken : Within Untouched Aside (randomToken : WebProg jose String) := by
  refine within_ask fun i s b s' h => ?_
  split at h
  · split at h
    · cases h
      exact ⟨rfl, rfl, rfl⟩
    · cases h
  · cases h

/-- An answer from outside that changes nothing. -/
theorem aside_ask {β : Type} {f : Outside jose → WebState → Option (β × WebState)}
    (h : ∀ i s b s', f i s = some (b, s') → s' = s) :
    Within Untouched Aside (Prog.ask f : WebProg jose β) :=
  within_ask fun i s b s' hrun => by
    rw [h i s b s' hrun]
    exact ⟨rfl, rfl, rfl⟩

theorem aside_getDiscovery : Within Untouched Aside (getDiscovery : WebProg jose _) := by
  refine aside_ask fun i s b s' h => ?_
  split at h
  · cases h
    rfl
  · cases h

theorem aside_jwksSource : Within Untouched Aside (jwksSource : WebProg jose _) := by
  refine aside_ask fun i s b s' h => ?_
  split at h
  · cases h
    rfl
  · cases h

theorem aside_revoke : Within Untouched Aside (revoke : WebProg jose _) := by
  refine aside_ask fun i s b s' h => ?_
  split at h
  · cases h
    rfl
  · cases h

/-- The token request of a refresh stands aside from the stores. -/
theorem aside_providerRefresh (key refreshToken : String) :
    Within Untouched Aside (providerRefresh key refreshToken : WebProg jose _) := by
  refine within_bind (aside_emit trivial) fun _ => within_act (fun i s b s' h => ?_) ?_
  · split at h
    · cases h
      exact ⟨rfl, rfl, rfl⟩
    · cases h
  · rintro b x hx
    cases hx
    trivial

/-- The request to the API stands aside from the stores. -/
theorem aside_fetch (url : Whatwg.Url) (accessToken : String) :
    Within Untouched Aside (fetch url accessToken : WebProg jose _) := by
  refine within_act (fun i s b s' h => ?_) ?_
  · split at h
    · cases h
      exact ⟨rfl, rfl, rfl⟩
    · cases h
  · rintro b x hx
    cases hx
    trivial

theorem aside_askLock (key : String) :
    Within Untouched Aside (refreshLocks.setIfAbsentLogged (.lockAsked key) key "1"
      refreshLockTtl : WebProg jose _) :=
  within_logged (fun _ => ⟨rfl, rfl, rfl⟩) fun _ => trivial

theorem aside_freeLock (key : String) :
    Within Untouched Aside (refreshLocks.deleteLogged (.lockFreed key) key : WebProg jose _) :=
  within_logged (fun _ => ⟨rfl, rfl, rfl⟩) fun _ => trivial

theorem aside_sleep : Within Untouched Aside (sleep : WebProg jose _) :=
  within_write fun _ => ⟨rfl, rfl, rfl⟩

/-- A pre-auth entry stands aside from the sessions. -/
theorem aside_storePreAuth (slug id key : String) (pending : PreAuthState) :
    Within Untouched Aside (preAuth.setLogged (.preAuthStored slug id pending) key pending
      preAuthTtl : WebProg jose _) :=
  within_logged (fun _ => ⟨rfl, rfl, rfl⟩) fun _ => trivial

end Aside

namespace Pieces

variable {C : (α : Type) → WebProg jose α → Prop} {deps : WebDeps jose}

theorem loadSession (hC : Pieces C) (client : OidcClientConfig) (cookie : Option String) :
    C _ (loadSession client cookie) := by
  unfold Web.loadSession
  split
  · exact hC.closed.pure _
  · split
    · exact hC.closed.pure _
    · refine hC.closed.bind (hC.aside (aside_read _)) fun found => ?_
      cases found with
      | none => exact hC.closed.pure _
      | some session =>
          refine hC.closed.bind (hC.aside (aside_read _)) fun now => ?_
          split
          · exact hC.closed.bind (hC.destroy session) fun _ => hC.closed.pure _
          · exact hC.closed.pure _

theorem saveSession (hC : Pieces C) (session : TenantSession) : C _ (saveSession session) :=
  hC.closed.bind (hC.aside (aside_read _)) fun _ =>
    hC.closed.bind (hC.save _ _) fun _ => hC.closed.pure _

theorem touchSession (hC : Pieces C) (session : TenantSession) : C _ (touchSession session) := by
  refine hC.closed.bind (hC.aside (aside_read _)) fun now => ?_
  split
  · exact hC.closed.pure _
  · exact hC.closed.bind (hC.aside (aside_read _)) fun latest => hC.saveSession _

theorem refresh (hC : Pieces C) (session : TenantSession) : C _ (refresh session) := by
  refine hC.closed.bind (hC.aside (aside_providerRefresh _ _)) fun refreshed => ?_
  split
  · exact hC.closed.bind (hC.destroy session) fun _ => hC.closed.pure _
  · exact hC.closed.pure _
  · exact hC.closed.bind (hC.aside (aside_read _)) fun _ =>
      hC.closed.bind (hC.saveSession _) fun _ => hC.closed.pure _

/-- What the pieces have, waiting for a refresh has, by induction on the attempts. -/
theorem waitForRefresh (hC : Pieces C) (client : OidcClientConfig) (session : TenantSession)
    (attempts : Nat) : C _ (waitForRefresh client session attempts) := by
  induction attempts with
  | zero => exact hC.closed.pure _
  | succ attempts ih =>
      -- A round sleeps, loads the session and looks at the clock.
      refine hC.closed.bind (hC.aside aside_sleep) fun _ =>
        hC.closed.bind (hC.loadSession _ _) fun latest => ?_
      cases latest with
      | none => exact hC.closed.pure _
      | some latest =>
          refine hC.closed.bind (hC.aside (aside_read _)) fun now => ?_
          split
          · exact hC.closed.pure _
          · exact ih

/-- What the pieces have, `ensureFreshAccessToken` has. -/
theorem ensureFreshAccessToken (hC : Pieces C) (client : OidcClientConfig)
    (session : TenantSession) : C _ (ensureFreshAccessToken client session) := by
  refine hC.closed.bind (hC.aside (aside_read _)) fun now => ?_
  split
  · exact hC.closed.pure _
  · refine hC.closed.bind (hC.aside (aside_askLock _)) fun locked => ?_
    split
    · exact hC.waitForRefresh _ _ _
    · refine hC.closed.bind ?_ fun result =>
        hC.closed.bind (hC.aside (aside_freeLock _)) fun _ => hC.closed.pure _
      refine hC.closed.bind (hC.loadSession _ _) fun loaded =>
        hC.closed.bind (hC.aside (aside_read _)) fun now => ?_
      split
      · exact hC.closed.pure _
      · exact hC.refresh _

theorem apiFetch (hC : Pieces C) (client : OidcClientConfig) (session : TenantSession)
    (url : Whatwg.Url) : C _ (apiFetch client session url) := by
  refine hC.closed.bind (hC.ensureFreshAccessToken _ _) fun fresh => ?_
  cases fresh with
  | error e => exact hC.closed.pure _
  | ok fresh =>
      refine hC.closed.bind (hC.aside (aside_fetch _ _)) fun response => ?_
      split
      · exact hC.closed.pure _
      · refine hC.closed.bind (hC.ensureFreshAccessToken _ _) fun forced => ?_
        cases forced with
        | error e => exact hC.closed.pure _
        | ok session =>
            exact hC.closed.bind (hC.aside (aside_fetch _ _)) fun _ => hC.closed.pure _

/-- What the pieces and the route have, the middleware before it has. -/
theorem tenantContext (hC : Pieces C) (host cookie : Option String)
    {next : TenantContext → WebProg jose Answer} (hnext : ∀ context, C _ (next context)) :
    C _ (tenantContext deps host cookie next) := by
  unfold Web.tenantContext
  split
  · exact hC.closed.pure _
  · refine hC.closed.bind ?_ fun session =>
      hC.closed.bind (hnext _) fun _ => hC.closed.pure _
    refine hC.closed.bind (hC.loadSession _ _) fun session => ?_
    cases session with
    | none => exact hC.closed.pure _
    | some session =>
        exact hC.closed.bind (hC.touchSession session) fun _ =>
          hC.closed.bind (hC.aside (aside_emit trivial)) fun _ => hC.closed.pure _

theorem login (hC : Pieces C) (returnTo : Option String) (context : TenantContext) :
    C _ (login deps returnTo context) := by
  refine hC.closed.bind (hC.aside aside_getDiscovery) fun discovery => ?_
  cases discovery with
  | error e => exact hC.closed.pure _
  | ok endpoint =>
      exact hC.closed.bind (hC.aside aside_randomToken) fun _ =>
        hC.closed.bind (hC.aside aside_randomToken) fun _ =>
        hC.closed.bind (hC.aside aside_randomToken) fun _ =>
        hC.closed.bind (hC.aside aside_randomToken) fun _ =>
        hC.closed.bind (hC.aside (aside_storePreAuth _ _ _ _)) fun _ => hC.closed.pure _

theorem logout (hC : Pieces C) (csrf : Option String) (context : TenantContext) :
    C _ (logout csrf context) := by
  unfold Web.logout
  split
  · exact hC.closed.pure _
  · split
    · exact hC.closed.pure _
    · exact hC.closed.bind (hC.aside aside_revoke) fun _ =>
        hC.closed.bind (hC.destroy _) fun _ => hC.closed.pure _

theorem proxy (hC : Pieces C) (request : ApiRequest) (context : TenantContext) :
    C _ (proxy deps request context) := by
  unfold Web.proxy
  split
  · exact hC.closed.pure _
  · split
    · exact hC.closed.pure _
    · split
      · exact hC.closed.pure _
      · split
        · exact hC.closed.pure _
        · refine hC.closed.bind (hC.apiFetch _ _ _) fun result => ?_
          split
          all_goals exact hC.closed.pure _

/-- What the pieces have, the back-channel route has. -/
theorem backchannel (hC : Pieces C) (logoutToken : Option jose.Token) :
    C _ (backchannel deps logoutToken) := by
  unfold Web.backchannel
  split
  · exact hC.closed.pure _
  · refine hC.closed.bind (hC.aside aside_jwksSource) fun source =>
      hC.closed.bind (hC.aside (aside_read _)) fun now => ?_
    split
    · exact hC.closed.pure _
    · split
      · exact hC.closed.pure _
      · exact hC.closed.bind (hC.destroyBySid _) fun _ => hC.closed.pure _

end Pieces

/-- The one request that creates sessions. -/
def WebCall.isCallback : WebCall jose → Bool
  | .callback _ _ _ _ => true
  | _ => false

/-- Every request but a callback belongs to the class. -/
theorem Pieces.respond {C : (α : Type) → WebProg jose α → Prop} (hC : Pieces C)
    (deps : WebDeps jose) (call : WebCall jose) (h : call.isCallback = false) :
    C _ (respond deps call) := by
  cases call with
  | login host cookie returnTo => exact hC.tenantContext _ _ fun _ => hC.login _ _
  | callback host cookie preAuthCookie query => cases h
  | logout host cookie csrf => exact hC.tenantContext _ _ fun _ => hC.logout _ _
  | session host cookie => exact hC.tenantContext _ _ fun _ => hC.closed.pure _
  | api host cookie request => exact hC.tenantContext _ _ fun _ => hC.proxy _ _
  | backchannel logoutToken => exact hC.backchannel _

end Sandbox.Web
