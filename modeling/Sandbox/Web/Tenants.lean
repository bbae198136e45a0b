import Sandbox.Interleave.Knowledge
import Sandbox.Web.Routes

/-!
# Tenants Do Not Share Sessions

A session is found under a text that begins with the slug of the tenant and
goes on with whatever the cookie says. That this keeps tenants apart rests on
slugs having no colon and on every write of a session using the session's own
tenant and id.

`Separated` is the invariant. It ties every stored session to the event of its
creation, and every stored login to the event of its beginning. A program that
holds a session knows where it was created (`owned`), and since history only
grows it goes on knowing that.

## Main definitions

* `WebCall.At`: A request to the host of a tenant.
* `CreatedAt`: A session created at a tenant, from an ID Token that names it.
* `Separated`: The invariant.
* `owned`: What a program knows of a session it holds.

## Theorems

* `knows_loadSession`, `knows_saveSession`, `knows_createSession`: What the
  operations on sessions need and give.
* `knows_apiFetch`, `knows_callback`: The same for the routes.
* `tenants_separated`: In every run, sessions and logins stay at their tenant.
-/

namespace Sandbox.Web

open Interleave Ttl

variable {jose : Jose}

def WebCall.host : WebCall jose → Option String
  | .login host _ _ => host
  | .callback host _ _ _ => host
  | .logout host _ _ => host
  | .session host _ => host
  | .api host _ _ => host
  | .backchannel _ => none

/-- A request to the host of a tenant. -/
def WebCall.At (deps : WebDeps jose) (call : WebCall jose) (slug : String) : Prop :=
  ∃ client, resolveClient deps call.host = some client ∧ client.tenantSlug = slug

/-- The claims of a verified ID Token for this service that names a tenant. -/
def NamesTenant (deps : WebDeps jose) (slug : String) (claims : JWTPayload) : Prop :=
  claims "tenant_slug" = some (.string slug) ∧
    ∃ (source : JwksSource jose) (now : Int) (idToken : jose.Token) (nonce : String),
      OidcProvider.verifyIdToken ⟨deps.issuer, source⟩ now idToken deps.service.clientId nonce =
        .ok claims

/-- A session with this id was created at a tenant that its ID Token names. -/
def CreatedAt (deps : WebDeps jose) (h : List (WebCall jose × Event)) (slug id : String) : Prop :=
  ∃ call session claims, (call, .sessionCreated session claims) ∈ h ∧
    session.tenantSlug = slug ∧ session.id = id ∧ NamesTenant deps slug claims

/-- Sessions and logins are stored under the tenant they were begun at, and
    used only there. -/
structure Separated (deps : WebDeps jose) (s : WebState) (h : List (WebCall jose × Event)) :
    Prop where
  sessions : ∀ key entry, s.sessions key = some entry →
    isSlug entry.value.tenantSlug.toList = true ∧
      key = sessionKey entry.value.tenantSlug entry.value.id ∧
      CreatedAt deps h entry.value.tenantSlug entry.value.id
  preAuth : ∀ key entry, s.preAuth key = some entry →
    ∃ call slug id, isSlug slug.toList = true ∧ key = sessionKey slug id ∧
      (call, .preAuthStored slug id entry.value) ∈ h
  stored : ∀ call slug id preAuth, (call, .preAuthStored slug id preAuth) ∈ h →
    call.At deps slug
  used : ∀ call slug session, (call, .sessionInContext slug session) ∈ h →
    call.At deps slug ∧ session.tenantSlug = slug ∧ CreatedAt deps h slug session.id
  taken : ∀ call slug id preAuth, (call, .preAuthTaken slug id (some preAuth)) ∈ h →
    call.At deps slug ∧ ∃ call', (call', .preAuthStored slug id preAuth) ∈ h

section Course

variable {deps : WebDeps jose} {h h' : List (WebCall jose × Event)} {s s' : WebState}
  {slug id : String}

/-- What was created is so in every longer history. -/
theorem CreatedAt.mono (hc : CreatedAt deps h slug id) (hle : ∀ x ∈ h, x ∈ h') :
    CreatedAt deps h' slug id := by
  rcases hc with ⟨call, session, claims, hmem, hrest⟩
  exact ⟨call, session, claims, hle _ hmem, hrest⟩

/-- Entries are only removed. -/
def Fewer (s s' : WebState) : Prop :=
  (∀ key entry, s'.sessions key = some entry → s.sessions key = some entry) ∧
    ∀ key entry, s'.preAuth key = some entry → s.preAuth key = some entry

theorem fewer_of_eq (hsessions : s'.sessions = s.sessions) (hpreAuth : s'.preAuth = s.preAuth) :
    Fewer s s' :=
  ⟨fun _ _ h => hsessions ▸ h, fun _ _ h => hpreAuth ▸ h⟩

theorem fewer_delete (s : WebState) (key : String) :
    Fewer s { s with sessions := Ttl.delete s.sessions key } :=
  ⟨fun _ _ h => (delete_eq_some h).2, fun _ _ h => h⟩

/-- An event that no part of the invariant asks about. -/
def Plain : Event → Prop
  | .preAuthStored _ _ _ => False
  | .preAuthTaken _ _ found => found = none
  | .sessionInContext _ _ => False
  | _ => True

theorem Separated.fewer (hs : Fewer s s') (hi : Separated deps s h) : Separated deps s' h where
  sessions key entry he := hi.sessions key entry (hs.1 key entry he)
  preAuth key entry he := hi.preAuth key entry (hs.2 key entry he)
  stored := hi.stored
  used := hi.used
  taken := hi.taken

/-- Events may be added as long as those that are asked about are justified. -/
theorem Separated.log {call : WebCall jose} {e : Event} (hi : Separated deps s h)
    (hstored : ∀ slug id preAuth, e = .preAuthStored slug id preAuth → call.At deps slug)
    (hused : ∀ slug session, e = .sessionInContext slug session →
      call.At deps slug ∧ session.tenantSlug = slug ∧ CreatedAt deps h slug session.id)
    (htaken : ∀ slug id preAuth, e = .preAuthTaken slug id (some preAuth) →
      call.At deps slug ∧ ∃ call', (call', .preAuthStored slug id preAuth) ∈ h) :
    Separated deps s ((call, e) :: h) := by
  -- What the history showed, it goes on to show.
  have hle : ∀ x ∈ h, x ∈ (call, e) :: h := fun x hx => List.mem_cons_of_mem _ hx
  constructor
  · intro key entry he
    rcases hi.sessions key entry he with ⟨hslug, hkey, hcreated⟩
    exact ⟨hslug, hkey, hcreated.mono hle⟩
  · intro key entry he
    rcases hi.preAuth key entry he with ⟨call', slug, id, hslug, hkey, hmem⟩
    exact ⟨call', slug, id, hslug, hkey, hle _ hmem⟩
  · intro call' slug id preAuth hmem
    rcases List.mem_cons.mp hmem with heq | hmem
    · cases heq
      exact hstored slug id preAuth rfl
    · exact hi.stored call' slug id preAuth hmem
  · intro call' slug session hmem
    rcases List.mem_cons.mp hmem with heq | hmem
    · cases heq
      rcases hused slug session rfl with ⟨hat, hslug, hcreated⟩
      exact ⟨hat, hslug, hcreated.mono hle⟩
    · rcases hi.used call' slug session hmem with ⟨hat, hslug, hcreated⟩
      exact ⟨hat, hslug, hcreated.mono hle⟩
  · intro call' slug id preAuth hmem
    rcases List.mem_cons.mp hmem with heq | hmem
    · cases heq
      rcases htaken slug id preAuth rfl with ⟨hat, call'', hmem'⟩
      exact ⟨hat, call'', hle _ hmem'⟩
    · rcases hi.taken call' slug id preAuth hmem with ⟨hat, call'', hmem'⟩
      exact ⟨hat, call'', hle _ hmem'⟩

/-- An event that opens nothing keeps the tenants apart. -/
theorem Separated.plain {call : WebCall jose} {e : Event} (he : Plain e)
    (hi : Separated deps s h) : Separated deps s ((call, e) :: h) := by
  refine hi.log ?_ ?_ ?_
  · rintro slug id preAuth rfl
    exact he.elim
  · rintro slug session rfl
    exact he.elim
  · rintro slug id preAuth rfl
    exact nomatch he

/-- History only grows. -/
def tenantsCourse (deps : WebDeps jose) : Course WebState Event (WebCall jose) where
  guard := anyStep
  Inv := Separated deps
  Leads _ h _ h' := h <:+ h'

theorem leads_refl (s s' : WebState) (h : List (WebCall jose × Event)) :
    (tenantsCourse deps).Leads s h s' h := List.suffix_refl h

/-- A history leads to the one with one more event. -/
theorem leads_cons (s s' : WebState) (h : List (WebCall jose × Event))
    (x : WebCall jose × Event) : (tenantsCourse deps).Leads s h s' (x :: h) :=
  List.suffix_cons x h

/-- What a program knows of a session it holds. -/
def owned (deps : WebDeps jose) (slug : String) (session : TenantSession) :
    Knowledge (tenantsCourse deps) where
  holds _ h := session.tenantSlug = slug ∧ CreatedAt deps h slug session.id
  stable _ _ _ _ hlead hk := ⟨hk.1, hk.2.mono fun _ hx => hlead.subset hx⟩

/-- The same of a session it may hold. -/
def ownedIf (deps : WebDeps jose) (slug : String) :
    Option TenantSession → Knowledge (tenantsCourse deps)
  | none => 0
  | some session => owned deps slug session

/-- The same of a session that an attempt may have given. -/
def ownedOk (deps : WebDeps jose) (slug : String) :
    Except ApiAccessError TenantSession → Knowledge (tenantsCourse deps)
  | .error _ => 0
  | .ok session => owned deps slug session

/-- Whoever only removes entries and leaves plain events learns nothing. -/
theorem knows_plain {call : WebCall jose} {α : Type} {p : WebProg jose α}
    (hp : Within Fewer Plain p) (K : Knowledge (tenantsCourse deps)) :
    Knows call K p fun _ => K := by
  refine knows_within hp ?_ ?_ K
  · exact fun s s' h hs hi => ⟨hi.fewer hs, leads_refl s s' h⟩
  · exact fun s h x hx hi => ⟨hi.plain hx, leads_cons s s h _⟩

end Course

section Plain

theorem plain_write {f : WebState → WebState} (h : ∀ s, Fewer s (f s)) :
    Within Fewer Plain (Prog.write f : WebProg jose Unit) := within_write h

theorem plain_read {β : Type} (f : WebState → β) :
    Within Fewer Plain (Prog.read f : WebProg jose β) :=
  within_read fun _ => fewer_of_eq rfl rfl

theorem plain_emit {e : Event} (h : Plain e) : Within Fewer Plain (Prog.emit e : WebProg jose _) :=
  within_logged (fun _ => fewer_of_eq rfl rfl) fun _ => h

theorem plain_destroySession (session : TenantSession) :
    Within Fewer Plain (destroySession session : WebProg jose Unit) :=
  within_bind
    (within_both (plain_write fun s => fewer_delete s _)
      (plain_write fun _ => fewer_of_eq rfl rfl))
    fun _ => plain_emit trivial

theorem plain_destroySessionsBySid (sid : String) :
    Within Fewer Plain (destroySessionsBySid sid : WebProg jose Nat) := by
  refine within_bind (plain_read _) fun keys => ?_
  refine within_bind (within_both (within_all fun p hp => ?_)
    (plain_write fun _ => fewer_of_eq rfl rfl)) fun _ =>
    within_bind (plain_emit trivial) fun _ => within_pure _
  rcases List.mem_map.mp hp with ⟨key, _, rfl⟩
  exact plain_write fun s => fewer_delete s key

theorem plain_addSid (sid key : String) (ttl : Int) :
    Within Fewer Plain (sessionsBySid.add sid key ttl : WebProg jose _) :=
  within_write fun _ => fewer_of_eq rfl rfl

theorem plain_askLock (key : String) :
    Within Fewer Plain (refreshLocks.setIfAbsentLogged (.lockAsked key) key "1" refreshLockTtl :
      WebProg jose _) :=
  within_logged (fun _ => fewer_of_eq rfl rfl) fun _ => trivial

theorem plain_freeLock (key : String) :
    Within Fewer Plain (refreshLocks.deleteLogged (.lockFreed key) key : WebProg jose _) :=
  within_logged (fun _ => fewer_of_eq rfl rfl) fun _ => trivial

theorem plain_randomToken : Within Fewer Plain (randomToken : WebProg jose String) := by
  refine within_ask fun i s b s' h => ?_
  split at h
  · split at h
    · cases h
      exact fewer_of_eq rfl rfl
    · cases h
  · cases h

theorem plain_providerRefresh (key refreshToken : String) :
    Within Fewer Plain (providerRefresh key refreshToken : WebProg jose _) := by
  refine within_bind (plain_emit trivial) fun _ => within_act (fun i s b s' h => ?_) ?_
  · split at h
    · cases h
      exact fewer_of_eq rfl rfl
    · cases h
  · rintro b x hx
    cases hx
    trivial

theorem plain_fetch (url : Whatwg.Url) (accessToken : String) :
    Within Fewer Plain (fetch url accessToken : WebProg jose _) := by
  refine within_act (fun i s b s' h => ?_) ?_
  · split at h
    · cases h
      exact fewer_of_eq rfl rfl
    · cases h
  · rintro b x hx
    cases hx
    trivial

end Plain

section Sessions

variable {deps : WebDeps jose} {call : WebCall jose} {K : Knowledge (tenantsCourse deps)}
  {client : OidcClientConfig} {session : TenantSession} {slug : String}

/-- What is found under the key of a tenant was created there. -/
theorem owned_of_get {s : WebState} {h : List (WebCall jose × Event)} {id : String}
    (hi : Separated deps s h) (hslug : isSlug slug.toList = true)
    (hget : Ttl.get s.sessions s.now (sessionKey slug id) = some session) :
    session.tenantSlug = slug ∧ CreatedAt deps h slug session.id := by
  rcases get_eq_some.mp hget with ⟨entry, he, _, rfl⟩
  rcases hi.sessions _ entry he with ⟨hslug', hkey, hcreated⟩
  rcases sessionKey_inj (colon_notMem_of_isSlug hslug) (colon_notMem_of_isSlug hslug') hkey with
    ⟨rfl, _⟩
  exact ⟨rfl, hcreated⟩

/-- What lies under a key of the tenant was created at that tenant. -/
theorem knows_get {id : String} (hslug : isSlug slug.toList = true) :
    Knows call K (sessions.get (sessionKey slug id) : WebProg jose _) (ownedIf deps slug) := by
  refine knows_atomic fun s h hi _ => ⟨hi, leads_refl s s h, ?_⟩
  cases hget : Ttl.get s.sessions s.now (sessionKey slug id) with
  | none =>
      have hread : Ttl.get (sessions.entries s) (sessions.now s) (sessionKey slug id) = none := hget
      simp only [hread]
      trivial
  | some found =>
      have hread : Ttl.get (sessions.entries s) (sessions.now s) (sessionKey slug id) =
        some found := hget
      simp only [hread]
      exact owned_of_get hi hslug hget

/-- The session that is loaded was created at the tenant of the client. -/
theorem knows_loadSession (hslug : isSlug client.tenantSlug.toList = true)
    (cookie : Option String) :
    Knows call K (loadSession client cookie : WebProg jose _) (ownedIf deps client.tenantSlug) := by
  unfold loadSession
  cases cookie with
  | none => exact knows_pure (Knowledge.gives_zero K)
  | some id =>
      dsimp only
      split
      · exact knows_pure (Knowledge.gives_zero K)
      · refine knows_bind (knows_get hslug) fun found => ?_
        cases found with
        | none => exact knows_pure (Knowledge.gives_zero _)
        | some session =>
            refine knows_bind (knows_plain (plain_read _) _) fun now => ?_
            -- A session that has run out is destroyed and not handed on.
            split
            · exact knows_bind (knows_plain (plain_destroySession session) _) fun _ =>
                knows_pure (Knowledge.gives_zero _)
            · exact knows_pure (Knowledge.gives_refl _)

/-- A session is written back under its own tenant. -/
theorem separated_set {s : WebState} {h : List (WebCall jose × Event)}
    (session : TenantSession) (ttl : Int) (hi : Separated deps s h)
    (hslug : isSlug session.tenantSlug.toList = true)
    (hcreated : CreatedAt deps h session.tenantSlug session.id) :
    Separated deps
      { s with
        sessions :=
          Ttl.set s.sessions s.now (sessionKey session.tenantSlug session.id) session ttl }
      h where
  sessions key entry he := by
    rcases put_eq_some he with ⟨rfl, rfl⟩ | ⟨_, he⟩
    · exact ⟨hslug, rfl, hcreated⟩
    · exact hi.sessions key entry he
  preAuth := hi.preAuth
  stored := hi.stored
  used := hi.used
  taken := hi.taken

/-- Saving a session created at the tenant needs no more than that. -/
theorem knows_saveSession (hslug : isSlug slug.toList = true) :
    Knows call (owned deps slug session) (saveSession session : WebProg jose _)
      (owned deps slug) := by
  refine knows_bind (knows_plain (plain_read _) _) fun now => ?_
  refine knows_bind (Q := fun _ => owned deps slug session) ?_ fun _ =>
    knows_pure fun s h hk => hk
  refine knows_logged fun s h hi hk _ => ?_
  have hstored := separated_set { session with lastSeenAt := now }
    (TenantSession.remainingTtl { session with lastSeenAt := now } now) hi (hk.1.symm ▸ hslug)
    (hk.1.symm ▸ hk.2)
  exact ⟨hstored.plain trivial, leads_cons s _ h _, hk.1,
    hk.2.mono fun _ hx => List.mem_cons_of_mem _ hx⟩

/-- A touch answers a session created at the same tenant. -/
theorem knows_touchSession (hslug : isSlug slug.toList = true) :
    Knows call (owned deps slug session) (touchSession session : WebProg jose _)
      (owned deps slug) := by
  refine knows_bind (knows_plain (plain_read _) _) fun now => ?_
  split
  · exact knows_pure (Knowledge.gives_refl _)
  · -- What is written is the session that is found, or the caller's if none is.
    refine knows_bind (Q := fun latest => owned deps slug (latest.getD session)) ?_ fun latest =>
      knows_saveSession hslug
    refine knows_atomic fun s h hi hk => ⟨hi, leads_refl s s h, ?_⟩
    cases hget : Ttl.get s.sessions s.now (sessionKey session.tenantSlug session.id) with
    | none =>
        have hread : Ttl.get (sessions.entries s) (sessions.now s)
            (sessionKey session.tenantSlug session.id) = none := hget
        simp only [hread]
        exact hk
    | some found =>
        have hread : Ttl.get (sessions.entries s) (sessions.now s)
            (sessionKey session.tenantSlug session.id) = some found := hget
        simp only [hread]
        rw [hk.1] at hget
        exact owned_of_get hi hslug hget

/-- A session is created at the tenant its ID Token names. -/
theorem knows_createSession {claims : JWTPayload} {input : NewSessionInput jose}
    (hslug : isSlug input.client.tenantSlug.toList = true)
    (hclaims : NamesTenant deps input.client.tenantSlug claims) :
    Knows call K (createSession claims input) fun _ => 0 := by
  refine knows_bind (knows_plain (plain_read _) _) fun now => ?_
  refine knows_bind (knows_plain plain_randomToken _) fun id => ?_
  refine knows_bind (knows_plain plain_randomToken _) fun csrfToken => ?_
  refine knows_bind (knows_both (Q := fun _ => 0) ?_ (knows_plain (plain_addSid _ _ _) _))
    fun _ => knows_pure (Knowledge.gives_zero _)
  refine knows_logged fun s h hi _ _ => ⟨?_, leads_cons s _ h _, trivial⟩
  refine separated_set _ _ (hi.plain trivial) hslug ?_
  exact ⟨call, _, claims, List.mem_cons_self, rfl, rfl, hclaims⟩

end Sessions

section Fetching

variable {deps : WebDeps jose} {call : WebCall jose} {client : OidcClientConfig}
  {session : TenantSession} {slug : String}

/-- A refresh answers a session created at the same tenant. -/
theorem knows_refresh (hslug : isSlug slug.toList = true) :
    Knows call (owned deps slug session) (refresh session : WebProg jose _)
      (ownedOk deps slug) := by
  refine knows_bind (knows_plain (plain_providerRefresh _ _) _) fun refreshed => ?_
  cases refreshed with
  | error e =>
      cases e with
      | invalidGrant =>
          exact knows_bind (knows_plain (plain_destroySession session) _) fun _ =>
            knows_pure (Knowledge.gives_zero _)
      | _ => exact knows_pure (Knowledge.gives_zero _)
  | ok tokens =>
      refine knows_bind (knows_plain (plain_read _) _) fun now => ?_
      -- The new tokens do not change whose session it is.
      exact knows_bind (knows_of_gives (fun _ _ hk => hk) (fun _ => Knowledge.gives_refl _)
        (knows_saveSession hslug)) fun updated => knows_pure (Knowledge.gives_refl _)

/-- The session read while waiting was created at the tenant of the client. -/
theorem knows_waitForRefresh (hslug : isSlug client.tenantSlug.toList = true) (attempts : Nat) :
    Knows call (0 : Knowledge (tenantsCourse deps))
      (waitForRefresh client session attempts : WebProg jose _)
      (ownedOk deps client.tenantSlug) := by
  induction attempts with
  | zero => exact knows_pure (Knowledge.gives_refl _)
  | succ attempts ih =>
      -- Each round forgets what it loaded before and knows the session it loads.
      refine knows_bind (knows_plain (plain_write fun _ => fewer_of_eq rfl rfl) _) fun _ => ?_
      refine knows_bind (knows_loadSession hslug _) fun loaded => ?_
      cases loaded with
      | none => exact knows_pure (Knowledge.gives_refl _)
      | some latest =>
          refine knows_bind (knows_plain (plain_read _) _) fun now => ?_
          split
          · exact knows_pure (Knowledge.gives_refl _)
          · exact knows_of_gives (Knowledge.gives_zero _) (fun _ => Knowledge.gives_refl _) ih

/-- A refresh under the lock answers a session created at the tenant. -/
theorem knows_refreshLocked (hslug : isSlug client.tenantSlug.toList = true) :
    Knows call (owned deps client.tenantSlug session)
      (refreshLocked client session : WebProg jose _) (ownedOk deps client.tenantSlug) := by
  refine knows_bind (knows_keep (knows_loadSession hslug _)) fun loaded => ?_
  refine knows_bind (knows_plain (plain_read _) _) fun now => ?_
  have hlatest :
        (ownedIf deps client.tenantSlug loaded + owned deps client.tenantSlug session).Gives
      (owned deps client.tenantSlug (loaded.getD session)) := by
    cases loaded with
    | none => exact Knowledge.add_gives_right _ _
    | some latest => exact Knowledge.add_gives_left _ _
  split
  · exact knows_pure hlatest
  · exact knows_of_gives hlatest (fun _ => Knowledge.gives_refl _) (knows_refresh hslug)

/-- The session with the fresh token was created at the tenant. -/
theorem knows_ensureFreshAccessToken (hslug : isSlug client.tenantSlug.toList = true) :
    Knows call (owned deps client.tenantSlug session)
      (ensureFreshAccessToken client session : WebProg jose _)
      (ownedOk deps client.tenantSlug) := by
  refine knows_bind (knows_plain (plain_read _) _) fun now => ?_
  split
  · exact knows_pure (Knowledge.gives_refl _)
  · refine knows_bind (knows_plain (plain_askLock _) _) fun locked => ?_
    split
    · exact knows_of_gives (Knowledge.gives_zero _) (fun _ => Knowledge.gives_refl _)
        (knows_waitForRefresh hslug _)
    · refine knows_bind (knows_refreshLocked hslug) fun result => ?_
      exact knows_bind (knows_plain (plain_freeLock _) _) fun _ =>
        knows_pure (Knowledge.gives_refl _)

/-- The relay goes out with a session created at the tenant. -/
theorem knows_apiFetch (hslug : isSlug client.tenantSlug.toList = true) (url : Whatwg.Url) :
    Knows call (owned deps client.tenantSlug session)
      (apiFetch client session url : WebProg jose _) fun _ => 0 := by
  refine knows_bind (knows_ensureFreshAccessToken hslug) fun fresh => ?_
  cases fresh with
  | error e => exact knows_pure (Knowledge.gives_zero _)
  | ok fresh =>
      refine knows_bind (knows_plain (plain_fetch _ _) _) fun response => ?_
      split
      · exact knows_pure (Knowledge.gives_zero _)
      · refine knows_bind (knows_of_gives (fun _ _ hk => hk) (fun _ => Knowledge.gives_refl _)
          (knows_ensureFreshAccessToken hslug)) fun forced => ?_
        cases forced with
        | error e => exact knows_pure (Knowledge.gives_zero _)
        | ok session =>
            exact knows_bind (knows_plain (plain_fetch _ _) _) fun _ =>
              knows_pure (Knowledge.gives_zero _)

end Fetching

section Routes

variable {deps : WebDeps jose} {call : WebCall jose} {client : OidcClientConfig}
  {K : Knowledge (tenantsCourse deps)}

theorem plain_ask {β : Type} {f : Outside jose → WebState → Option (β × WebState)}
    (h : ∀ i s b s', f i s = some (b, s') → s' = s) :
    Within Fewer Plain (Prog.ask f : WebProg jose β) :=
  within_ask fun i s b s' hrun => by
    rw [h i s b s' hrun]
    exact fewer_of_eq rfl rfl

/-- A login stores the pre-auth entry of the tenant of its Host. -/
theorem knows_login (hslug : isSlug client.tenantSlug.toList = true)
    (hat : call.At deps client.tenantSlug) (returnTo : Option String)
    (session : Option TenantSession) :
    Knows call K (login deps returnTo ⟨client, session⟩) fun _ => 0 := by
  refine knows_bind (knows_plain (plain_ask fun i s b s' h => ?_) _) fun discovery => ?_
  · split at h
    · cases h; rfl
    · cases h
  cases discovery with
  | error e => exact knows_pure (Knowledge.gives_zero _)
  | ok endpoint =>
      refine knows_bind (knows_plain plain_randomToken _) fun id => ?_
      refine knows_bind (knows_plain plain_randomToken _) fun codeVerifier => ?_
      refine knows_bind (knows_plain plain_randomToken _) fun state => ?_
      refine knows_bind (knows_plain plain_randomToken _) fun nonce => ?_
      refine knows_bind (Q := fun _ => 0) ?_ fun _ => knows_pure (Knowledge.gives_zero _)
      -- The entry is stored under a key of the tenant of the Host.
      refine knows_logged fun s h hi _ _ => ⟨?_, leads_cons s _ h _, trivial⟩
      have hlogged := hi.log (e := .preAuthStored client.tenantSlug id
          ⟨state, nonce, codeVerifier, sanitizeReturnTo returnTo⟩)
        (fun slug id' preAuth heq => by cases heq; exact hat)
        (fun slug session heq => nomatch heq) (fun slug id preAuth heq => nomatch heq)
      exact
        { hlogged with
          preAuth := fun key entry he => by
            rcases put_eq_some he with ⟨rfl, rfl⟩ | ⟨_, he⟩
            · exact ⟨call, client.tenantSlug, id, hslug, rfl, List.mem_cons_self⟩
            · exact hlogged.preAuth key entry he }

/-- Only a login begun at a tenant is taken there. -/
theorem knows_takePreAuth (hslug : isSlug client.tenantSlug.toList = true)
    (hat : call.At deps client.tenantSlug) (cookie : Option String) :
    Knows call K (takePreAuth client cookie : WebProg jose _) fun _ => 0 := by
  cases cookie with
  | none => exact knows_pure (Knowledge.gives_zero _)
  | some id =>
      refine knows_logged fun s h hi _ _ => ⟨?_, leads_cons s _ h _, trivial⟩
      have hfewer : Fewer s { s with preAuth := Ttl.delete s.preAuth (preAuthKey client id) } :=
        ⟨fun _ _ he => he, fun _ _ he => (delete_eq_some he).2⟩
      refine (hi.fewer hfewer).log (fun _ _ _ heq => nomatch heq) (fun _ _ heq => nomatch heq) ?_
      intro slug id' preAuth heq
      obtain ⟨rfl, rfl, hget⟩ := Event.preAuthTaken.inj heq
      rcases get_eq_some.mp hget with ⟨entry, he, _, rfl⟩
      rcases hi.preAuth _ entry he with ⟨call', slug, id', hslug', hkey, hmem⟩
      rcases sessionKey_inj (colon_notMem_of_isSlug hslug) (colon_notMem_of_isSlug hslug') hkey with
        ⟨rfl, rfl⟩
      exact ⟨hat, call', hmem⟩

/-- Ending the session of the cookie opens nothing. -/
theorem knows_destroyExisting (hslug : isSlug client.tenantSlug.toList = true)
    (cookie : Option String) :
    Knows call K (destroyExisting client cookie : WebProg jose _) fun _ => 0 := by
  refine knows_bind (knows_loadSession hslug _) fun existing => ?_
  cases existing with
  | none => exact knows_pure (Knowledge.gives_zero _)
  | some existing =>
      exact knows_of_gives (Knowledge.gives_zero _) (fun _ => Knowledge.gives_refl _)
        (knows_plain (plain_destroySession existing) 0)

/-- The session that a login opens is of the tenant that the ID Token names. -/
theorem knows_enterSession (hslug : isSlug client.tenantSlug.toList = true)
    {claims : JWTPayload} {source : JwksSource jose} {now : Int} {idToken : jose.Token}
    {nonce : String} (hverified : OidcProvider.verifyIdToken ⟨deps.issuer, source⟩ now idToken
      deps.service.clientId nonce = .ok claims)
    (cookie : Option String) (pending : PreAuthState) (tokens : TokenResponse jose) :
    Knows call K (enterSession client cookie pending claims tokens) fun _ => 0 := by
  unfold enterSession
  split
  · split
    · exact knows_pure (Knowledge.gives_zero _)
    · next hnames =>
        have hclaims : NamesTenant deps client.tenantSlug claims :=
          ⟨not_not.mp hnames, source, now, idToken, nonce, hverified⟩
        exact knows_bind (knows_destroyExisting hslug cookie) fun _ =>
          knows_bind (knows_createSession hslug hclaims) fun _ =>
            knows_pure (Knowledge.gives_zero _)
  · exact knows_pure (Knowledge.gives_zero _)

theorem plain_jwksSource : Within Fewer Plain (jwksSource : WebProg jose _) := by
  refine plain_ask fun i s b s' h => ?_
  split at h
  · cases h; rfl
  · cases h

theorem plain_exchangeCode (client : OidcClientConfig) (code codeVerifier : String) :
    Within Fewer Plain (exchangeCode client code codeVerifier : WebProg jose _) := by
  refine within_bind (plain_emit trivial) fun _ => plain_ask fun i s b s' h => ?_
  split at h
  · cases h; rfl
  · cases h

theorem plain_revoke : Within Fewer Plain (revoke : WebProg jose _) := by
  refine plain_ask fun i s b s' h => ?_
  split at h
  · cases h; rfl
  · cases h

/-- A session is opened only for an ID Token that verifies. -/
theorem knows_verifyLogin (hslug : isSlug client.tenantSlug.toList = true)
    (hservice : client.toServiceConfig = deps.service) (cookie : Option String)
    (pending : PreAuthState) (tokens : TokenResponse jose) :
    Knows call K (verifyLogin deps client cookie pending tokens) fun _ => 0 := by
  unfold verifyLogin
  cases tokens.idToken with
  | none => exact knows_pure (Knowledge.gives_zero _)
  | some idToken =>
      refine knows_bind (knows_plain plain_jwksSource _) fun source => ?_
      refine knows_bind (knows_plain (plain_read _) _) fun now => ?_
      split
      · exact knows_pure (Knowledge.gives_zero _)
      · next claims hverified =>
          rw [hservice] at hverified
          exact knows_enterSession hslug hverified cookie pending tokens

/-- The callback opens a session of the tenant of its Host alone. -/
theorem knows_callback (hslug : isSlug client.tenantSlug.toList = true)
    (hservice : client.toServiceConfig = deps.service) (hat : call.At deps client.tenantSlug)
    (cookie preAuthCookie : Option String) (query : CallbackQuery)
    (session : Option TenantSession) :
    Knows call K (callback deps cookie preAuthCookie query ⟨client, session⟩) fun _ => 0 := by
  refine knows_bind (knows_takePreAuth hslug hat preAuthCookie) fun taken => ?_
  cases taken with
  | none => exact knows_pure (Knowledge.gives_zero _)
  | some pending =>
      dsimp only
      -- Every early end of the callback opens nothing.
      unfold answerCallback
      split
      · exact knows_pure (Knowledge.gives_zero _)
      split
      · exact knows_pure (Knowledge.gives_zero _)
      split
      · exact knows_pure (Knowledge.gives_zero _)
      split
      · exact knows_pure (Knowledge.gives_zero _)
      split
      · exact knows_pure (Knowledge.gives_zero _)
      refine knows_bind (knows_plain (plain_exchangeCode _ _ _) _) fun tokens => ?_
      cases tokens with
      | error e => exact knows_pure (Knowledge.gives_zero _)
      | ok tokens => exact knows_verifyLogin hslug hservice cookie pending tokens

theorem knows_logout (csrf : Option String) (context : TenantContext) :
    Knows call K (logout csrf context : WebProg jose _) fun _ => 0 := by
  unfold logout
  split
  · exact knows_pure (Knowledge.gives_zero _)
  · split
    · exact knows_pure (Knowledge.gives_zero _)
    · exact knows_bind (knows_plain plain_revoke _) fun _ =>
        knows_bind (knows_plain (plain_destroySession _) _) fun _ =>
          knows_pure (Knowledge.gives_zero _)

/-- The relay uses the session of the tenant of its Host. -/
theorem knows_proxy (hslug : isSlug client.tenantSlug.toList = true) (request : ApiRequest)
    (session : Option TenantSession) :
    Knows call (ownedIf deps client.tenantSlug session) (proxy deps request ⟨client, session⟩)
      fun _ => 0 := by
  unfold proxy
  cases session with
  | none => exact knows_pure (Knowledge.gives_zero _)
  | some session =>
      dsimp only
      split
      · exact knows_pure (Knowledge.gives_zero _)
      split
      · exact knows_pure (Knowledge.gives_zero _)
      split
      · exact knows_pure (Knowledge.gives_zero _)
      refine knows_bind (knows_apiFetch hslug _) fun result => ?_
      split
      all_goals exact knows_pure (Knowledge.gives_zero _)

theorem knows_backchannel (logoutToken : Option jose.Token) :
    Knows call K (backchannel deps logoutToken) fun _ => 0 := by
  unfold backchannel
  split
  · exact knows_pure (Knowledge.gives_zero _)
  · refine knows_bind (knows_plain plain_jwksSource _) fun source => ?_
    refine knows_bind (knows_plain (plain_read _) _) fun now => ?_
    split
    · exact knows_pure (Knowledge.gives_zero _)
    · split
      · exact knows_pure (Knowledge.gives_zero _)
      · exact knows_bind (knows_plain (plain_destroySessionsBySid _) _) fun _ =>
          knows_pure (Knowledge.gives_zero _)

/-- The session put in context is one of the tenant. -/
theorem knows_contextSession (hslug : isSlug client.tenantSlug.toList = true)
    (hat : call.At deps client.tenantSlug) (cookie : Option String) :
    Knows call K (contextSession client cookie : WebProg jose _)
      (ownedIf deps client.tenantSlug) := by
  refine knows_bind (knows_loadSession hslug cookie) fun session => ?_
  cases session with
  | none => exact knows_pure (Knowledge.gives_refl _)
  | some session =>
      refine knows_bind (knows_touchSession hslug) fun touched => ?_
      refine knows_bind (Q := fun _ => owned deps client.tenantSlug touched) ?_ fun _ =>
        knows_pure (Knowledge.gives_refl _)
      refine knows_logged fun s h hi hk _ => ⟨?_, leads_cons s s h _, ?_⟩
      · refine hi.log (fun _ _ _ heq => nomatch heq) ?_ (fun _ _ _ heq => nomatch heq)
        intro slug session heq
        obtain ⟨rfl, rfl⟩ := Event.sessionInContext.inj heq
        exact ⟨hat, hk⟩
      · exact ⟨hk.1, hk.2.mono fun _ hx => List.mem_cons_of_mem _ hx⟩

/-- A route behind `tenantContext` is given a session of its own tenant. -/
theorem knows_tenantContext {host cookie : Option String} (hhost : call.host = host)
    {next : TenantContext → WebProg jose Answer}
    (hnext : ∀ client session, isSlug client.tenantSlug.toList = true →
      client.toServiceConfig = deps.service → call.At deps client.tenantSlug →
      Knows call (ownedIf deps client.tenantSlug session) (next ⟨client, session⟩) fun _ => 0) :
    Knows call K (tenantContext deps host cookie next) fun _ => 0 := by
  unfold tenantContext
  cases hclient : resolveClient deps host with
  | none => exact knows_pure (Knowledge.gives_zero _)
  | some client =>
      have hslug := resolveClient_slug hclient
      have hat : call.At deps client.tenantSlug := ⟨client, hhost ▸ hclient, rfl⟩
      refine knows_bind (knows_contextSession hslug hat cookie) fun session => ?_
      refine knows_bind (hnext client session hslug (resolveClient_service hclient) hat) fun _ => ?_
      exact knows_pure (Knowledge.gives_zero _)

theorem knows_respond (call : WebCall jose) :
    Knows call (0 : Knowledge (tenantsCourse deps)) (respond deps call) fun _ => 0 := by
  cases call with
  | login host cookie returnTo =>
      exact knows_tenantContext rfl fun client session hslug _ hat =>
        knows_login hslug hat returnTo session
  | callback host cookie preAuthCookie query =>
      exact knows_tenantContext rfl fun client session hslug hservice hat =>
        knows_callback hslug hservice hat cookie preAuthCookie query session
  | logout host cookie csrf =>
      exact knows_tenantContext rfl fun client session _ _ _ => knows_logout csrf _
  | session host cookie =>
      exact knows_tenantContext rfl fun client session _ _ _ =>
        knows_pure (Knowledge.gives_zero _)
  | api host cookie request =>
      exact knows_tenantContext rfl fun client session hslug _ _ =>
        knows_proxy hslug request session
  | backchannel logoutToken => exact knows_backchannel logoutToken

end Routes

theorem separated_start (deps : WebDeps jose) (now : Int) : Separated deps (.start now) [] where
  sessions _ _ h := nomatch h
  preAuth _ _ h := nomatch h
  stored _ _ _ _ h := absurd h List.not_mem_nil
  used _ _ _ h := absurd h List.not_mem_nil
  taken _ _ _ _ h := absurd h List.not_mem_nil

/-- The separation holds in every pool of a run. -/
theorem separated_of_reachable {deps : WebDeps jose} {now : Int}
    {p : Pool WebState (Outside jose) Event (WebCall jose) fun _ => Answer}
    (h : Reachable (webSystem deps) anyStep (.start now) p) : Separated deps p.store p.trace := by
  refine inv_of_reachable (C := tenantsCourse deps) knows_respond ?_ (separated_start deps now) h
  rintro s hist seconds s' henv hi
  cases henv
  have hlater : Fewer s { s with now := s.now + seconds } := fewer_of_eq rfl rfl
  exact ⟨Separated.fewer hlater hi, leads_refl _ _ _⟩

/-- In every run, a session is used only at the host of its tenant, which is
    the tenant its ID Token named, and a login is taken only at the host of
    the tenant it was begun at. -/
theorem tenants_separated (deps : WebDeps jose) (now : Int)
    (p : Pool WebState (Outside jose) Event (WebCall jose) fun _ => Answer)
    (h : Reachable (webSystem deps) anyStep (.start now) p) :
    (∀ call slug session, (call, .sessionInContext slug session) ∈ p.trace →
      call.At deps slug ∧ session.tenantSlug = slug ∧ CreatedAt deps p.trace slug session.id) ∧
    ∀ call slug id preAuth, (call, .preAuthTaken slug id (some preAuth)) ∈ p.trace →
      call.At deps slug ∧
        ∃ call', call'.At deps slug ∧ (call', .preAuthStored slug id preAuth) ∈ p.trace := by
  have hinv := separated_of_reachable h
  refine ⟨hinv.used, fun call slug id preAuth hmem => ?_⟩
  rcases hinv.taken call slug id preAuth hmem with ⟨hat, call', hstored⟩
  exact ⟨hat, call', hinv.stored call' slug id preAuth hstored, hstored⟩

section Example

/-- The CRM's web process. -/
def crmWeb : WebDeps openJose where
  issuer := "https://auth.test"
  publicScheme := "https"
  baseHost := "crm.test"
  service := ⟨"crm", "secret", ["openid"], ⟨⟨"https", "crm-api.test", none⟩, ['/']⟩, "CRM"⟩
  toLowerCase host := host
  computeCodeChallenge verifier := verifier
  parseHost host := some (String.ofList host)

/-- A random value of one character. -/
def token32 (c : Char) : String := String.ofList (List.replicate 43 c)

/-- The ID Token of a login whose nonce is the fourth random value. -/
def acmeIdToken : openJose.Token :=
  signJwt openJose "key"
    { issuer := "https://auth.test"
      audience := .string "crm"
      subject := "alice"
      issuedAt := 1000
      expiresAt := 1300
      claims := [("sid", some (.string "sid")), ("nonce", some (.string (token32 'd'))),
        ("tenant_id", some (.string "T")), ("tenant_slug", some (.string "acme"))] }

/-- A login, its callback, and a request with the new session. -/
def loginMoves : List (Move (Outside openJose) (WebCall openJose) Nat) :=
  [.spawn (.login (some "acme.crm.test") none none),
    .run 0 (.discovered (.ok "https://auth.test/authorize"))] ++
  ['a', 'b', 'c', 'd'].map (fun c => .run 0 (.random (token32 c))) ++
  [.run 0 .none,
    .spawn (.callback (some "acme.crm.test") none (some (token32 'a'))
      ⟨some (token32 'c'), none, none, none, some "code"⟩),
    .run 1 .none, .run 1 .none, .run 1 (.tokens (.ok ⟨"A", 900, some acmeIdToken, "R"⟩)),
    .run 1 (.jwks fun _ => .ok ["key"]), .run 1 .none, .run 1 .none,
    .run 1 (.random (token32 'e')), .run 1 (.random (token32 'f')),
    .run 1 .none, .run 1 .none, .run 1 .none,
    .spawn (.session (some "acme.crm.test") (some (token32 'e'))),
    .run 2 .none, .run 2 .none, .run 2 .none, .run 2 .none]

/-- The session used there was created there. -/
theorem session_created_at_acme :
    ∃ p call session, Reachable (webSystem crmWeb) anyStep (.start 1000) p ∧
      (call, .sessionInContext "acme" session) ∈ p.trace ∧
      CreatedAt crmWeb p.trace "acme" session.id := by
  rcases reachable_of_play_any (webSystem crmWeb) anyStep (.start 1000) loginMoves
    (fun p => p.trace.any fun x => match x.2 with
      | .sessionInContext slug _ => slug == "acme"
      | _ => false) (by decide +kernel) with ⟨p, hp, htest⟩
  rcases List.any_eq_true.mp htest with ⟨⟨call, e⟩, hmem, he⟩
  cases e with
  | sessionInContext slug session =>
      rcases beq_iff_eq.mp he with rfl
      exact ⟨p, call, session, hp, hmem,
        ((tenants_separated crmWeb 1000 p hp).1 call "acme" session hmem).2.2⟩
  | _ => cases he

end Example

end Sandbox.Web
