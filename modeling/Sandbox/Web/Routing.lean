import Mathlib.Order.Basic
import Sandbox.Web.Blocks

/-!
# Judgements about the Routes

What is shown of a request is shown by walking through its program. The walk
is the same whatever is shown, so it is made here once, for any judgement that
says what is known before and after a program.

The judgement has to have the rules of sequences, it has to keep what is known
over everything that touches neither sessions nor logins, and there has to be
something that is `known` of a session that was read. It is given back when
the session is saved. For a judgement without knowledge, such as membership in
a class of programs, `known` is trivial.

## Main definitions

* `Mute`: Events that are about neither sessions nor logins.
* `Unmoved`: Changes that leave sessions and logins alone.
* `Routing`: What a judgement has to have.

## Theorems

* `routing_of_closed`: Classes of programs are such judgements.
* `Routing.loadSession`, `Routing.ensureFreshAccessToken`, `Routing.apiFetch`:
  The judgement of the larger programs.
* `Routing.answerCallback`: The judgement of a callback once it has its login.
* `Routing.respond`: And of the requests that are no part of a login.
-/

namespace Sandbox.Web

open Interleave Ttl

variable {jose : Jose}

/-- An event that is about neither stored sessions nor stored logins. -/
def Mute : Event → Prop
  | .preAuthStored _ _ _ => False
  | .preAuthTaken _ _ _ => False
  | .sessionCreated _ _ => False
  | .sessionSaved _ => False
  | .sessionsDestroyed _ => False
  | _ => True

/-- The clock, the sessions, their index and the logins stay as they are, and
    no random value is handed out twice. -/
def Unmoved (s s' : WebState) : Prop :=
  s'.now = s.now ∧ s'.sessions = s.sessions ∧ s'.sessionsBySid = s.sessionsBySid ∧
    s'.preAuth = s.preAuth ∧ s.issued ⊆ s'.issued

theorem unmoved_refl (s : WebState) : Unmoved s s := ⟨rfl, rfl, rfl, rfl, List.Subset.refl _⟩

/-- The two have the same key and the same `sid`. -/
def SameSession (x y : TenantSession) : Prop :=
  x.id = y.id ∧ x.tenantSlug = y.tenantSlug ∧ x.sid = y.sid

section Unmoved

theorem unmoved_read {β : Type} (f : WebState → β) :
    Within Unmoved Mute (Prog.read f : WebProg jose β) :=
  within_read unmoved_refl

theorem unmoved_emit {e : Event} (h : Mute e) :
    Within Unmoved Mute (Prog.emit e : WebProg jose _) :=
  within_logged unmoved_refl fun _ => h

theorem unmoved_randomToken : Within Unmoved Mute (randomToken : WebProg jose String) := by
  refine within_ask fun i s b s' h => ?_
  split at h
  · split at h
    · cases h
      exact ⟨rfl, rfl, rfl, rfl, List.subset_cons_self _ _⟩
    · cases h
  · cases h

/-- An answer from outside that changes nothing. -/
theorem unmoved_ask {β : Type} {f : Outside jose → WebState → Option (β × WebState)}
    (h : ∀ i s b s', f i s = some (b, s') → s' = s) :
    Within Unmoved Mute (Prog.ask f : WebProg jose β) :=
  within_ask fun i s b s' hrun => h i s b s' hrun ▸ unmoved_refl s

theorem unmoved_getDiscovery : Within Unmoved Mute (getDiscovery : WebProg jose _) := by
  refine unmoved_ask fun i s b s' h => ?_
  split at h
  · cases h
    rfl
  · cases h

theorem unmoved_jwksSource : Within Unmoved Mute (jwksSource : WebProg jose _) := by
  refine unmoved_ask fun i s b s' h => ?_
  split at h
  · cases h
    rfl
  · cases h

theorem unmoved_revoke : Within Unmoved Mute (revoke : WebProg jose _) := by
  refine unmoved_ask fun i s b s' h => ?_
  split at h
  · cases h
    rfl
  · cases h

/-- The token request of a callback moves no store. -/
theorem unmoved_exchangeCode (client : OidcClientConfig) (code codeVerifier : String) :
    Within Unmoved Mute (exchangeCode client code codeVerifier : WebProg jose _) := by
  refine within_bind (unmoved_emit trivial) fun _ => unmoved_ask fun i s b s' h => ?_
  split at h
  · cases h
    rfl
  · cases h

/-- The token request of a refresh moves no store. -/
theorem unmoved_providerRefresh (key refreshToken : String) :
    Within Unmoved Mute (providerRefresh key refreshToken : WebProg jose _) := by
  refine within_bind (unmoved_emit trivial) fun _ => within_act (fun i s b s' h => ?_) ?_
  · split at h
    · cases h
      exact unmoved_refl _
    · cases h
  · rintro b x hx
    cases hx
    trivial

theorem unmoved_fetch (url : Whatwg.Url) (accessToken : String) :
    Within Unmoved Mute (fetch url accessToken : WebProg jose _) := by
  refine within_act (fun i s b s' h => ?_) ?_
  · split at h
    · cases h
      exact unmoved_refl _
    · cases h
  · rintro b x hx
    cases hx
    trivial

theorem unmoved_askLock (key : String) :
    Within Unmoved Mute (refreshLocks.setIfAbsentLogged (.lockAsked key) key "1"
      refreshLockTtl : WebProg jose _) :=
  within_logged (fun s => unmoved_refl s) fun _ => trivial

theorem unmoved_freeLock (key : String) :
    Within Unmoved Mute (refreshLocks.deleteLogged (.lockFreed key) key : WebProg jose _) :=
  within_logged (fun s => unmoved_refl s) fun _ => trivial

theorem unmoved_sleep : Within Unmoved Mute (sleep : WebProg jose _) :=
  within_write unmoved_refl

end Unmoved

section Judgements

variable {K : Type} [Preorder K] [Add K]

/-- What a judgement on programs has to have to be made of the routes. Its
    knowledge is ordered by what it gives, the most first. -/
structure Routing (T : (α : Type) → K → WebProg jose α → (α → K) → Prop)
    (known : TenantSession → K) : Prop where
  left : ∀ k l : K, k + l ≤ k
  right : ∀ k l : K, k + l ≤ l
  pure : ∀ {α : Type} {k : K} {a : α} {Q : α → K}, k ≤ Q a → T α k (pure a) Q
  bind : ∀ {α β : Type} {k : K} {p : WebProg jose α} {f : α → WebProg jose β} {Q : α → K}
    {R : β → K}, T α k p Q → (∀ a, T β (Q a) (f a) R) → T β k (p >>= f) R
  weaken : ∀ {α : Type} {k l : K} {p : WebProg jose α} {Q : α → K}, l ≤ k → T α k p Q → T α l p Q
  relax : ∀ {α : Type} {k : K} {p : WebProg jose α} {Q R : α → K}, (∀ a, Q a ≤ R a) →
    T α k p Q → T α k p R
  aside : ∀ {α : Type} {k : K} {p : WebProg jose α}, Within Unmoved Mute p → T α k p fun _ => k
  /-- Sessions with the same key and `sid` are known alike. -/
  alike : ∀ {x y : TenantSession}, SameSession x y → known x ≤ known y
  get : ∀ {k : K} (slug id : String), isSlug slug.toList = true →
    T _ k (sessions.get (sessionKey slug id)) fun found => found.elim k fun x => k + known x
  reread : ∀ session, T _ (known session)
    (sessions.get (sessionKey session.tenantSlug session.id)) fun found =>
      found.elim (known session) known
  save : ∀ session ttl, T _ (known session) (sessions.setLogged (.sessionSaved session)
    (sessionKey session.tenantSlug session.id) session ttl) fun _ => known session
  destroy : ∀ {k : K} session, k ≤ known session → T _ k (destroySession session) fun _ => k
  destroyBySid : ∀ {k : K} sid, T _ k (destroySessionsBySid sid) fun _ => k

namespace Routing

variable {T : (α : Type) → K → WebProg jose α → (α → K) → Prop} {known : TenantSession → K}
  {deps : WebDeps jose} {client : OidcClientConfig} {session : TenantSession} {k : K}

/-- What is known of the session of an answer. -/
def knownOf {ε : Type} (known : TenantSession → K) (k : K) : Except ε TenantSession → K
  | .error _ => k
  | .ok session => known session

/-- The session of a cookie is known once it is loaded. -/
theorem loadSession (hT : Routing T known) (hslug : isSlug client.tenantSlug.toList = true)
    (cookie : Option String) :
    T _ k (loadSession client cookie) fun found => found.elim k fun x => k + known x := by
  unfold Web.loadSession
  split
  · exact hT.pure (le_refl k)
  · split
    · exact hT.pure (le_refl k)
    · refine hT.bind (hT.get _ _ hslug) fun found => ?_
      cases found with
      | none => exact hT.pure (le_refl k)
      | some session =>
          refine hT.bind (hT.aside (unmoved_read _)) fun now => ?_
          split
          · exact hT.bind (hT.destroy session (hT.right k _)) fun _ => hT.pure (hT.left k _)
          · exact hT.pure (le_refl _)

theorem saveSession (hT : Routing T known) :
    T _ (known session) (saveSession session) fun saved => known saved := by
  refine hT.bind (hT.aside (unmoved_read _)) fun now => ?_
  have hsame : known session ≤ known { session with lastSeenAt := now } :=
    hT.alike ⟨rfl, rfl, rfl⟩
  exact hT.bind (hT.weaken hsame (hT.save _ _)) fun _ => hT.pure (le_refl _)

theorem touchSession (hT : Routing T known) :
    T _ (known session) (touchSession session) fun touched => known touched := by
  refine hT.bind (hT.aside (unmoved_read _)) fun now => ?_
  split
  · exact hT.pure (le_refl _)
  · refine hT.bind (hT.reread session) fun latest => ?_
    cases latest with
    | none => exact hT.saveSession
    | some latest => exact hT.saveSession

theorem contextSession (hT : Routing T known) (hslug : isSlug client.tenantSlug.toList = true)
    (cookie : Option String) :
    T _ k (contextSession client cookie) fun found => found.elim k known := by
  refine hT.bind (hT.loadSession hslug cookie) fun found => ?_
  cases found with
  | none => exact hT.pure (le_refl k)
  | some session =>
      refine hT.bind (hT.weaken (hT.right k _) hT.touchSession) fun touched => ?_
      exact hT.bind (hT.aside (unmoved_emit trivial)) fun _ => hT.pure (le_refl _)

theorem refresh (hT : Routing T known) (hk : ∀ x : TenantSession, known x ≤ k) :
    T _ (known session) (refresh session) (knownOf known k) := by
  refine hT.bind (hT.aside (unmoved_providerRefresh _ _)) fun refreshed => ?_
  split
  · exact hT.bind (hT.destroy session (le_refl _)) fun _ => hT.pure (hk session)
  · exact hT.pure (hk session)
  · next tokens =>
      refine hT.bind (hT.aside (unmoved_read _)) fun now => ?_
      have hrefreshed : known session ≤ known
          { session with
            accessToken := tokens.accessToken
            accessTokenExpiresAt := now + tokens.expiresIn
            refreshToken := tokens.refreshToken } := hT.alike ⟨rfl, rfl, rfl⟩
      exact hT.bind (hT.weaken hrefreshed hT.saveSession) fun updated => hT.pure (le_refl _)

/-- Waiting for the refresh of another request answers a session that is known. -/
theorem waitForRefresh (hT : Routing T known) (hslug : isSlug client.tenantSlug.toList = true)
    (attempts : Nat) : T _ k (waitForRefresh client session attempts) (knownOf known k) := by
  induction attempts with
  | zero => exact hT.pure (le_refl k)
  | succ attempts ih =>
      refine hT.bind (hT.aside unmoved_sleep) fun _ =>
        hT.bind (hT.loadSession hslug _) fun latest => ?_
      cases latest with
      | none => exact hT.pure (le_refl k)
      | some latest =>
          refine hT.bind (hT.aside (unmoved_read _)) fun now => ?_
          split
          · exact hT.pure (hT.right k _)
          -- Still not refreshed: what the load has shown is forgotten.
          · exact hT.weaken (hT.left k _) ih

/-- A refresh under the lock answers a session that is known. -/
theorem refreshLocked (hT : Routing T known) (hslug : isSlug client.tenantSlug.toList = true)
    (hk : ∀ x : TenantSession, known x ≤ k) :
    T _ (known session) (refreshLocked client session) (knownOf known k) := by
  refine hT.bind (hT.loadSession hslug _) fun loaded => ?_
  -- The session that is refreshed is the one loaded last.
  have hlatest : loaded.elim (known session) (fun x => known session + known x)
      ≤ known (loaded.getD session) := by
    cases loaded with
    | none => exact le_refl _
    | some loaded => exact hT.right _ _
  refine hT.bind (hT.aside (unmoved_read _)) fun now => ?_
  split
  · exact hT.pure hlatest
  · exact hT.weaken hlatest (hT.refresh hk)

theorem ensureFreshAccessToken (hT : Routing T known)
    (hslug : isSlug client.tenantSlug.toList = true) (hk : ∀ x : TenantSession, known x ≤ k) :
    T _ (known session) (ensureFreshAccessToken client session) (knownOf known k) := by
  refine hT.bind (hT.aside (unmoved_read _)) fun now => ?_
  split
  · exact hT.pure (le_refl _)
  · refine hT.bind (hT.aside (unmoved_askLock _)) fun locked => ?_
    split
    · exact hT.weaken (hk session) (hT.waitForRefresh hslug _)
    · refine hT.bind (hT.refreshLocked hslug hk) fun result => ?_
      exact hT.bind (hT.aside (unmoved_freeLock _)) fun _ => hT.pure (le_refl _)

/-- The relay sends the token of a session that is known. -/
theorem apiFetch (hT : Routing T known) (hslug : isSlug client.tenantSlug.toList = true)
    (hk : ∀ x : TenantSession, known x ≤ k) (url : Whatwg.Url) :
    T _ (known session) (apiFetch client session url) fun _ => k := by
  refine hT.bind (hT.ensureFreshAccessToken hslug hk) fun fresh => ?_
  cases fresh with
  | error e => exact hT.pure (le_refl k)
  | ok fresh =>
      refine hT.bind (hT.aside (unmoved_fetch _ _)) fun response => ?_
      split
      · exact hT.pure (hk fresh)
      · have hforced : known fresh ≤ known { fresh with accessTokenExpiresAt := 0 } :=
          hT.alike ⟨rfl, rfl, rfl⟩
        refine hT.bind (hT.weaken hforced (hT.ensureFreshAccessToken hslug hk)) fun forced => ?_
        cases forced with
        | error e => exact hT.pure (le_refl k)
        | ok session =>
            exact hT.bind (hT.aside (unmoved_fetch _ _)) fun _ => hT.pure (hk session)

/-- Before a route comes what finds the tenant and the session. -/
theorem tenantContext (hT : Routing T known) {host cookie : Option String}
    {next : TenantContext → WebProg jose Answer}
    (hnext : ∀ client session, resolveClient deps host = some client →
      T _ (Option.elim session k known) (next ⟨client, session⟩) fun _ => k) :
    T _ k (tenantContext deps host cookie next) fun _ => k := by
  unfold Web.tenantContext
  split
  · exact hT.pure (le_refl k)
  · next client hclient =>
      refine hT.bind (hT.contextSession (resolveClient_slug hclient) cookie) fun session => ?_
      exact hT.bind (hnext client session hclient) fun _ => hT.pure (le_refl k)

theorem logout (hT : Routing T known) (hk : ∀ x : TenantSession, known x ≤ k)
    {found : Option TenantSession} (csrf : Option String) :
    T _ (found.elim k known) (logout csrf ⟨client, found⟩) fun _ => k := by
  unfold Web.logout
  cases found with
  | none => exact hT.pure (le_refl k)
  | some session =>
      dsimp only
      split
      · exact hT.pure (hk session)
      · exact hT.bind (hT.aside unmoved_revoke) fun _ =>
          hT.bind (hT.destroy session (le_refl _)) fun _ => hT.pure (hk session)

/-- The relay route sends the token of the session of its request. -/
theorem proxy (hT : Routing T known) (hslug : isSlug client.tenantSlug.toList = true)
    (hk : ∀ x : TenantSession, known x ≤ k) {found : Option TenantSession}
    (request : ApiRequest) :
    T _ (found.elim k known) (proxy deps request ⟨client, found⟩) fun _ => k := by
  unfold Web.proxy
  cases found with
  | none => exact hT.pure (le_refl k)
  | some session =>
      dsimp only
      split
      · exact hT.pure (hk session)
      · split
        · exact hT.pure (hk session)
        · split
          · exact hT.pure (hk session)
          · refine hT.bind (hT.apiFetch hslug hk _) fun result => ?_
            split
            all_goals exact hT.pure (le_refl k)

/-- A back-channel logout needs to know no session. -/
theorem backchannel (hT : Routing T known) (logoutToken : Option jose.Token) :
    T _ k (backchannel deps logoutToken) fun _ => k := by
  unfold Web.backchannel
  split
  · exact hT.pure (le_refl k)
  · refine hT.bind (hT.aside unmoved_jwksSource) fun source =>
      hT.bind (hT.aside (unmoved_read _)) fun now => ?_
    split
    · exact hT.pure (le_refl k)
    · split
      · exact hT.pure (le_refl k)
      · exact hT.bind (hT.destroyBySid _) fun _ => hT.pure (le_refl k)

/-- Ending the session of the cookie needs to know no more. -/
theorem destroyExisting (hT : Routing T known) (hslug : isSlug client.tenantSlug.toList = true)
    (cookie : Option String) : T _ k (destroyExisting client cookie) fun _ => k := by
  refine hT.bind (hT.loadSession hslug cookie) fun existing => ?_
  cases existing with
  | none => exact hT.pure (le_refl k)
  | some existing =>
      exact hT.relax (fun _ => hT.left k _) (hT.destroy existing (hT.right k _))

/-- What follows on taking a login has the judgement, if creating a session
    has it. -/
theorem answerCallback (hT : Routing T known) (hslug : isSlug client.tenantSlug.toList = true)
    (hcreate : ∀ claims (input : NewSessionInput jose), input.client = client →
      T _ k (createSession claims input) fun _ => k)
    (cookie : Option String) (pending : PreAuthState) (query : CallbackQuery) :
    T _ k (answerCallback deps client cookie pending query) fun _ => k := by
  -- The state, the error, the code and the verifier are checked in turn.
  unfold Web.answerCallback
  split
  · exact hT.pure (le_refl k)
  split
  · exact hT.pure (le_refl k)
  split
  · exact hT.pure (le_refl k)
  split
  · exact hT.pure (le_refl k)
  split
  · exact hT.pure (le_refl k)
  refine hT.bind (hT.aside (unmoved_exchangeCode _ _ _)) fun reply => ?_
  cases reply with
  | error e => exact hT.pure (le_refl k)
  | ok tokens =>
      dsimp only [verifyLogin]
      cases tokens.idToken with
      | none => exact hT.pure (le_refl k)
      | some idToken =>
          refine hT.bind (hT.aside unmoved_jwksSource) fun source =>
            hT.bind (hT.aside (unmoved_read _)) fun now => ?_
          split
          · exact hT.pure (le_refl k)
          -- The session of the cookie is ended before the new one is created.
          unfold enterSession
          split
          · split
            · exact hT.pure (le_refl k)
            · exact hT.bind (hT.destroyExisting hslug cookie) fun _ =>
                hT.bind (hcreate _ _ rfl) fun _ => hT.pure (le_refl k)
          · exact hT.pure (le_refl k)

end Routing

end Judgements

/-- The knowledge of a judgement that knows nothing. -/
inductive Ignorance
  | ignorant

instance : Preorder Ignorance where
  le _ _ := True
  le_refl _ := trivial
  le_trans _ _ _ _ _ := trivial

instance : Add Ignorance := ⟨fun a _ => a⟩

/-- Membership in a class of programs is a judgement without knowledge. -/
theorem routing_of_closed {C : (α : Type) → WebProg jose α → Prop} (hC : Closed C)
    (haside : ∀ {α : Type} {p : WebProg jose α}, Within Unmoved Mute p → C α p)
    (hsave : ∀ session ttl, C _ (sessions.setLogged (.sessionSaved session)
      (sessionKey session.tenantSlug session.id) session ttl))
    (hdestroy : ∀ session, C _ (destroySession session))
    (hdestroyBySid : ∀ sid, C _ (destroySessionsBySid sid)) :
    Routing (fun α (_ : Ignorance) p _ => C α p) fun _ => .ignorant where
  left _ _ := le_refl _
  right _ _ := le_refl _
  pure _ := hC.pure _
  bind hp hf := hC.bind hp hf
  weaken _ hp := hp
  relax _ hp := hp
  aside := haside
  alike _ := le_refl _
  get _ _ _ := haside (unmoved_read _)
  reread _ := haside (unmoved_read _)
  save := hsave
  destroy session _ := hdestroy session
  destroyBySid := hdestroyBySid

/-- A request that begins or ends a login. -/
def WebCall.isOfLogin : WebCall jose → Bool
  | .login _ _ _ => true
  | .callback _ _ _ _ => true
  | _ => false

/-- The judgement of the requests that are no part of a login. -/
theorem Routing.respond {K : Type} [Preorder K] [Add K]
    {T : (α : Type) → K → WebProg jose α → (α → K) → Prop} {known : TenantSession → K}
    (hT : Routing T known) {k : K} (hk : ∀ x : TenantSession, known x ≤ k) (deps : WebDeps jose)
    (call : WebCall jose) (h : call.isOfLogin = false) :
    T _ k (respond deps call) fun _ => k := by
  cases call with
  | login host cookie returnTo => cases h
  | callback host cookie preAuthCookie query => cases h
  | logout host cookie csrf => exact hT.tenantContext fun _ _ _ => hT.logout hk csrf
  | session host cookie =>
      refine hT.tenantContext fun client session _ => hT.pure ?_
      cases session with
      | none => exact le_refl k
      | some session => exact hk session
  | api host cookie request =>
      exact hT.tenantContext fun _ _ hclient => hT.proxy (resolveClient_slug hclient) hk request
  | backchannel logoutToken => exact hT.backchannel logoutToken

end Sandbox.Web
