import Sandbox.Auth.State

/-!
# Single Sign-On Sessions

A session lives under the digest of its cookie's value, and `sidIndex` leads
from its public identifier to that key. Loading checks both limits and
removes what it finds expired. Touching writes the whole value back.

## Main definitions

* `loadSsoSession`, `loadSsoSessionByKey`, `findSsoSessionBySid`: Reading.
* `createSsoSession`, `touchSsoSession`, `destroySsoSession`: Writing.
* `State.presented`: The session that a store key presents.

## Theorems

* `exec_loadSsoSession`: Loading with nothing else running gives the session
  that the cookie's key presents.
-/

namespace Sandbox.Auth

open Interleave Ttl

/-- A new session with the cookie value that presents it. -/
structure CreatedSsoSession where
  session : SsoSession
  cookieValue : String

def destroySsoSession (session : SsoSession) : AuthProg Unit := do
  let _ ← Prog.both (ssoSessions.delete session.id) (sidIndex.delete session.sid)
  pure ()

/-- Load a session by its store key. -/
def loadSsoSessionByKey (key : String) : AuthProg (Option SsoSession) := do
  let stored ← ssoSessions.get key
  match stored with
  | none => pure none
  | some session =>
      let now ← nowSeconds
      -- Whoever loads a session past its limits destroys it.
      if session.isExpired now then
        destroySsoSession session
        pure none
      else pure (some session)

/-- Load a session by the value of its cookie. -/
def loadSsoSession (deps : Deps) (cookieValue : Option String) : AuthProg (Option SsoSession) :=
  match cookieValue with
  | none => pure none
  | some value => if value = "" then pure none else loadSsoSessionByKey (deps.keyOf value)

/-- Load a session by its public identifier. -/
def findSsoSessionBySid (sid : String) : AuthProg (Option SsoSession) := do
  let key ← sidIndex.getLogged (fun _ => .sidLookedUp sid) sid
  match key with
  | none => pure none
  | some key => loadSsoSessionByKey key

/-- Create a session after a login, with its index and its record. -/
def createSsoSession (deps : Deps) (user : User) (authenticated : CognitoAuthenticated)
    (environment : RequestEnvironment) : AuthProg CreatedSsoSession := do
  let now ← nowSeconds
  let cookieValue ← randomToken 32
  let sid ← randomToken 32
  let iv ← randomIv
  -- The key is the digest of the cookie, the `sid` what clients are told.
  let session : SsoSession :=
    { id := deps.keyOf cookieValue
      sid := sid
      userId := user.id
      encryptedCognitoTokens := deps.sealCognitoTokens iv authenticated.tokens
      authTime := now
      createdAt := now
      lastSeenAt := now }
  -- The three writes are made at once.
  let _ ← Prog.both
    (ssoSessions.setLogged (.sessionStored session) session.id session ssoExpiry.absoluteSeconds)
    (Prog.both
      (sidIndex.setLogged (.sessionIndexed session.sid session.id) session.sid session.id
        ssoExpiry.absoluteSeconds)
      (Sessions.create session.sid user.id environment now))
  pure ⟨session, cookieValue⟩

/-- Move `lastSeenAt` on when a session reaches the authorization endpoint,
    and keep the client and tenant it got a code for. -/
def touchSsoSession (session : SsoSession) (client : OidcClient) (tenantId : String)
    (environment : RequestEnvironment) : AuthProg SsoSession := do
  let now ← nowSeconds
  let updated : SsoSession := { session with lastSeenAt := now }
  let answers ← Prog.both
    (Sessions.touch session.sid environment now)
    (Prog.both
      (ssoSessions.setLogged (.sessionTouched updated) updated.id updated
        (updated.remainingTtl now))
      (Sessions.recordClient session.sid client.id tenantId now))
  -- The record keeps the environment of the last access.
  match answers.1 with
  | none => pure updated
  | some previous =>
      if environmentChanged previous environment then
        recordAudit
          (AuditSubject.at ⟨some session.userId, some session.sid, some tenantId,
            some client.clientId, none, none⟩ environment)
          (.environmentChanged previous environment)
        pure updated
      else pure updated

/-- The session that a store key presents: stored, alive and not expired. -/
def State.presented (s : State) (key : String) : Option SsoSession :=
  match Ttl.get s.ssoSessions s.now key with
  | none => none
  | some session => if session.isExpired s.now then none else some session

theorem presented_eq_some {s : State} {key : String} {x : SsoSession} :
    s.presented key = some x ↔
      Ttl.get s.ssoSessions s.now key = some x ∧ x.isExpired s.now = false := by
  unfold State.presented
  cases hget : Ttl.get s.ssoSessions s.now key with
  | none => simp
  | some y =>
      dsimp only
      split
      · next hexp =>
          simp only [reduceCtorEq, Option.some.injEq, false_iff, not_and]
          rintro rfl
          rw [hexp]
          exact nofun
      · next hexp =>
          simp only [Option.some.injEq]
          constructor
          · rintro rfl
            exact ⟨rfl, Bool.not_eq_true _ ▸ hexp⟩
          · exact And.left

/-- What is presented later was presented before, if only deletions and time
    lie in between. -/
theorem presented_mono {s s' : State} {key : String} {x : SsoSession}
    (hstore : ∀ k e, s'.ssoSessions k = some e → s.ssoSessions k = some e)
    (hnow : s.now ≤ s'.now) (h : s'.presented key = some x) : s.presented key = some x := by
  rcases presented_eq_some.mp h with ⟨hget, hexp⟩
  rcases get_eq_some.mp hget with ⟨e, he, hlt, hval⟩
  refine presented_eq_some.mpr ⟨get_eq_some.mpr ⟨e, hstore _ _ he, by omega, hval⟩, ?_⟩
  by_contra hcon
  have hexp' := SessionExpiry.isExpired_mono hnow (Bool.not_eq_false _ ▸ hcon)
  exact Bool.false_ne_true (hexp.symm.trans hexp')

/-- Loading by key with nothing else running. -/
theorem exec_loadSsoSessionByKey {s s' : State} {key : String} {es : List Event}
    {a : Option SsoSession} (h : Exec s (loadSsoSessionByKey key) es a s') :
    a = s.presented key := by
  rcases exec_bind h with ⟨stored, s₁, _, _, hget, hrest, _⟩
  rcases exec_read hget with ⟨_, hstored, rfl⟩
  unfold State.presented
  change stored = Ttl.get s₁.ssoSessions s₁.now key at hstored
  rw [← hstored]
  cases stored with
  | none => exact (exec_done hrest).2.1
  | some session =>
      rcases exec_bind hrest with ⟨now, s₂, _, _, hnow, hif, _⟩
      rcases exec_read hnow with ⟨_, rfl, rfl⟩
      dsimp only at hif ⊢
      -- A session that has run out is destroyed, and the answer is none.
      split at hif
      · next hexp =>
          rw [if_pos hexp]
          rcases exec_bind hif with ⟨_, _, _, _, _, hdone, _⟩
          exact (exec_done hdone).2.1
      · next hexp =>
          rw [if_neg hexp]
          exact (exec_done hif).2.1

/-- Loading by cookie with nothing else running. -/
theorem exec_loadSsoSession {deps : Deps} {s s' : State} {cookie : Option String}
    {es : List Event} {x : SsoSession} (h : Exec s (loadSsoSession deps cookie) es (some x) s') :
    ∃ value, cookie = some value ∧ s.presented (deps.keyOf value) = some x := by
  cases cookie with
  | none => cases (exec_done h).2.1
  | some value =>
      unfold loadSsoSession at h
      dsimp only at h
      split at h
      · cases (exec_done h).2.1
      · exact ⟨value, rfl, (exec_loadSsoSessionByKey h).symm⟩

end Sandbox.Auth
