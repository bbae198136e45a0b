import Sandbox.Auth.Token
import Sandbox.Interleave.Served
import Sandbox.Web.Blocks

/-!
# What a Session is Created From

A callback takes a login, sends its code with the login's verifier, and makes
a session of the tokens it gets. Other requests run at the same time, and any
of them may be callbacks with swapped cookies and parameters. Still a session
comes from the one login that its own callback took and from the answer to the
code that it sent.

Which tokens are an answer to a code is left open here. It is the relation
`Given` between what is presented to the token endpoint and what it answers.

## Main definitions

* `Note`, `notes`: What a request has taken and sent.
* `fits`: The tokens a request gets are given for what it has sent.
* `Entered`: What a session is created from.

## Theorems

* `pieces_uncreating`: No other request creates a session.
* `tells_callback`: A callback creates a session from its own login.
* `entered_of_run`: So it is in every run.
-/

namespace Sandbox.Web.Logins

open Interleave Ttl

variable {jose : Jose}

/-- The login that a request has taken, with the tenant and the id, and what
    it has sent to the token endpoint last. -/
structure Note where
  taken : Option (String × String × PreAuthState)
  sent : Option Auth.CodeExchangeInput
  deriving DecidableEq

/-- Taking a login and sending a code are noted. -/
def Note.add (k : Note) : Event → Note
  | .preAuthTaken slug id (some preAuth) => { k with taken := some (slug, id, preAuth) }
  | .codeSent redirectUri code codeVerifier =>
      { k with sent := some ⟨code, redirectUri, codeVerifier⟩ }
  | _ => k

def notes : Notes Event Note where
  start := ⟨none, none⟩
  add := Note.add

/-- What is on a note has happened. -/
structure Kept (call : WebCall jose) (k : Note) (h : List (WebCall jose × Event)) : Prop where
  taken : ∀ slug id preAuth, k.taken = some (slug, id, preAuth) →
    (call, .preAuthTaken slug id (some preAuth)) ∈ h
  sent : ∀ input, k.sent = some input →
    (call, .codeSent input.redirectUri input.code input.codeVerifier) ∈ h

theorem Kept.later {call : WebCall jose} {k : Note} {h : List (WebCall jose × Event)}
    (hk : Kept call k h) (y : WebCall jose × Event) : Kept call k (y :: h) where
  taken slug id preAuth htaken := List.mem_cons_of_mem _ (hk.taken slug id preAuth htaken)
  sent input hsent := List.mem_cons_of_mem _ (hk.sent input hsent)

theorem kept_notes : Interleave.Kept notes (@Kept jose) where
  start _ _ := ⟨nofun, nofun⟩
  add call k x h hk := by
    have hlater := hk.later (call, x)
    cases x with
    | preAuthTaken slug id found =>
        cases found with
        | none => exact hlater
        | some preAuth =>
            -- What the note says was taken is what was taken last.
            refine ⟨fun slug' id' preAuth' htaken => ?_, hlater.sent⟩
            obtain ⟨rfl, rfl, rfl⟩ : slug = slug' ∧ id = id' ∧ preAuth = preAuth' := by
              simpa [notes, Note.add] using htaken
            exact List.mem_cons_self
    | codeSent redirectUri code codeVerifier =>
        refine ⟨hlater.taken, fun input hsent => ?_⟩
        cases hsent
        exact List.mem_cons_self
    | _ => exact hlater
  later _ _ y _ hk := hk.later y

/-- Tokens that come for a code are given for what was sent last. -/
def fits (Given : Auth.CodeExchangeInput → TokenResponse jose → Prop) (k : Note)
    (i : Outside jose) : Prop :=
  ∀ tokens input, i = .tokens (.ok tokens) → k.sent = some input → Given input tokens

/-- What the claims of a session's ID Token say about it. -/
structure ClaimedBy (session : TenantSession) (claims : JWTPayload) : Prop where
  sub : claims.string? "sub" = some session.userId
  sid : claims.string? "sid" = some session.sid
  tenantId : claims.string? "tenant_id" = some session.tenantId
  tenantSlug : claims "tenant_slug" = some (.string session.tenantSlug)

/-- A session was created in a callback at the host of its tenant, from the
    login that the callback had taken and the tokens for the code it had sent,
    with the login's verifier. -/
structure Entered (deps : WebDeps jose) (Given : Auth.CodeExchangeInput → TokenResponse jose → Prop)
    (call : WebCall jose) (k : Note) (session : TenantSession) (claims : JWTPayload) : Prop where
  callback : ∃ host cookie preAuthId query client preAuth code tokens idToken source now,
    call = .callback host cookie (some preAuthId) query ∧
    resolveClient deps host = some client ∧ session.tenantSlug = client.tenantSlug ∧
    k.taken = some (client.tenantSlug, preAuthId, preAuth) ∧
    query.state = some preAuth.state ∧ query.code = some code ∧
    k.sent = some ⟨code, client.redirectUri, preAuth.codeVerifier⟩ ∧
    Given ⟨code, client.redirectUri, preAuth.codeVerifier⟩ tokens ∧
    tokens.idToken = some idToken ∧ OidcProvider.verifyIdToken ⟨deps.issuer, source⟩ now idToken
      deps.service.clientId preAuth.nonce = .ok claims
  claimed : ClaimedBy session claims

/-- What an event has to be for a note: a session is created as it should be. -/
def Good (deps : WebDeps jose) (Given : Auth.CodeExchangeInput → TokenResponse jose → Prop)
    (call : WebCall jose) (k : Note) (x : Event) : Prop :=
  ∀ session claims, x = .sessionCreated session claims → Entered deps Given call k session claims

section Uncreating

/-- An event that is not the creation of a session. -/
def NotCreated (x : Event) : Prop := ∀ session claims, x ≠ .sessionCreated session claims

/-- A program that creates no session. -/
def Uncreating (α : Type) (p : WebProg jose α) : Prop :=
  Within (fun _ _ => True) NotCreated p

theorem notCreated_of_aside {x : Event} (h : Aside x) : NotCreated x := by
  rintro session claims rfl
  exact h

theorem uncreating_write (f : WebState → WebState) :
    Uncreating Unit (Prog.write f : WebProg jose Unit) :=
  within_write fun _ => trivial

theorem uncreating_destroyed (keys : List String) :
    Uncreating Unit (Prog.emit (.sessionsDestroyed keys) : WebProg jose Unit) :=
  within_logged (fun _ => trivial) fun _ => nofun

theorem closed_uncreating : Closed (@Uncreating jose) where
  pure a := within_pure a
  bind := within_bind
  both := within_both
  all h := within_all fun p hp => by
    rcases List.mem_map.mp hp with ⟨x, hx, rfl⟩
    exact h x hx

/-- No building block of the routes creates a session. -/
theorem pieces_uncreating : Pieces (@Uncreating jose) where
  closed := closed_uncreating
  aside h := within_mono h (fun _ _ _ => trivial) fun _ => notCreated_of_aside
  save _ _ := within_logged (fun _ => trivial) fun _ => nofun
  destroy _ := closed_uncreating.bind
    (closed_uncreating.both (uncreating_write _) (uncreating_write _))
    fun _ => uncreating_destroyed _
  destroyBySid _ := closed_uncreating.bind (within_read fun _ => trivial) fun _ =>
    closed_uncreating.bind (closed_uncreating.both
      (closed_uncreating.all fun _ _ => uncreating_write _) (uncreating_write _)) fun _ =>
        closed_uncreating.bind (uncreating_destroyed _) fun _ => closed_uncreating.pure _

theorem uncreating_contextSession (client : OidcClientConfig) (cookie : Option String) :
    Uncreating _ (contextSession client cookie : WebProg jose _) := by
  refine closed_uncreating.bind (pieces_uncreating.loadSession _ _) fun session => ?_
  cases session with
  | none => exact closed_uncreating.pure _
  | some session =>
      refine closed_uncreating.bind (pieces_uncreating.touchSession _) fun touched => ?_
      exact closed_uncreating.bind (pieces_uncreating.aside (aside_emit trivial)) fun _ =>
        closed_uncreating.pure _

end Uncreating

section Callback

variable {deps : WebDeps jose} {Given : Auth.CodeExchangeInput → TokenResponse jose → Prop}
  {call : WebCall jose} {k : Note} {client : OidcClientConfig}

/-- A program without creations tells what is good, whatever it notes. -/
theorem tells_uncreating {α : Type} {p : WebProg jose α} (hp : Uncreating α p) :
    Tells notes (fits Given) (Good deps Given call) k p fun _ _ => True :=
  tells_within (K := fun _ => True)
    (within_mono hp (fun _ _ _ => trivial)
      fun _ hx _ _ => ⟨fun session claims heq => absurd heq (hx session claims), trivial⟩) trivial

/-- An event that is neither a creation nor noted. -/
def Unnoted (x : Event) : Prop := NotCreated x ∧ ∀ k, notes.add k x = k

/-- A program that leaves the note alone. -/
theorem tells_unnoted {α : Type} {p : WebProg jose α}
    (hp : Within (fun _ _ => True) Unnoted p) :
    Tells notes (fits Given) (Good deps Given call) k p fun _ k' => k' = k := by
  refine tells_within (K := (· = k)) (within_mono hp (fun _ _ _ => trivial) ?_) rfl
  rintro x hx k' rfl
  exact ⟨fun session claims heq => absurd heq (hx.1 session claims), hx.2 _⟩

theorem unnoted_destroySession (session : TenantSession) :
    Within (fun _ _ => True) Unnoted (destroySession session : WebProg jose Unit) := by
  refine within_bind (within_both (within_write fun _ => trivial) (within_write fun _ => trivial))
    fun _ => ?_
  exact within_logged (fun _ => trivial) fun _ => ⟨nofun, fun _ => rfl⟩

theorem unnoted_destroyExisting (client : OidcClientConfig) (cookie : Option String) :
    Within (fun _ _ => True) Unnoted (destroyExisting client cookie : WebProg jose Unit) := by
  refine within_bind ?_ fun existing => ?_
  · unfold loadSession
    split
    · exact within_pure _
    · split
      · exact within_pure _
      · refine within_bind (within_read fun _ => trivial) fun found => ?_
        cases found with
        | none => exact within_pure _
        | some session =>
            refine within_bind (within_read fun _ => trivial) fun now => ?_
            split
            · exact within_bind (unnoted_destroySession session) fun _ => within_pure _
            · exact within_pure _
  -- The session that was there is destroyed, by its own keys.
  · cases existing with
    | none => exact within_pure _
    | some existing => exact unnoted_destroySession existing

/-- A creation that is justified by the note. -/
theorem tells_createSession {claims : JWTPayload} {input : NewSessionInput jose}
    (hentered : ∀ session : TenantSession, session.tenantSlug = input.client.tenantSlug →
      session.userId = input.userId → session.tenantId = input.tenantId → session.sid = input.sid →
        Entered deps Given call k session claims) :
    Tells notes (fits Given) (Good deps Given call) k (createSession claims input)
      fun _ _ => True := by
  refine tells_bind (tells_unnoted (within_read fun _ => trivial)) fun now k' hk' => ?_
  have hrandom : Within (fun _ _ => True) Unnoted (randomToken : WebProg jose String) :=
    within_ask fun _ _ _ _ _ => trivial
  refine tells_bind (tells_unnoted hrandom) fun id k₁ hk₁ => ?_
  refine tells_bind (tells_unnoted hrandom) fun csrfToken k₂ hk₂ => ?_
  rw [hk₁, hk'] at hk₂
  subst hk₂
  refine tells_bind (Q := fun _ _ => True) ?_ fun _ _ _ => tells_pure trivial
  -- The creation is one of two branches, so its event has to be good there.
  refine ⟨(· = k₂), rfl, within_logged (fun _ => trivial) fun _ => ?_,
    within_write fun _ => trivial, fun _ _ _ => trivial⟩
  rintro k' rfl
  refine ⟨fun session claims' heq => ?_, rfl⟩
  cases heq
  exact hentered _ rfl rfl rfl rfl

/-- A login that is taken is noted. -/
theorem tells_takePreAuth (cookie : Option String) :
    Tells notes (fits Given) (Good deps Given call) k (takePreAuth client cookie)
      fun found k' => ∀ preAuth, found = some preAuth → ∃ id, cookie = some id ∧
        k'.taken = some (client.tenantSlug, id, preAuth) := by
  cases cookie with
  | none => exact tells_pure nofun
  | some id =>
      refine tells_act fun i s found s' _ _ => ⟨?_, ?_⟩
      · rintro x ⟨⟩ session claims ⟨⟩
      · rintro preAuth rfl
        exact ⟨id, rfl, rfl⟩

/-- The answer to a code fits what was sent. -/
theorem tells_exchangeCode (code codeVerifier : String) :
    Tells notes (fits Given) (Good deps Given call) k (exchangeCode client code codeVerifier)
      fun reply k' => k' = { k with sent := some ⟨code, client.redirectUri, codeVerifier⟩ } ∧
        ∀ tokens, reply = .ok tokens → Given ⟨code, client.redirectUri, codeVerifier⟩ tokens := by
  refine tells_bind (Q := fun _ k' =>
    k' = { k with sent := some ⟨code, client.redirectUri, codeVerifier⟩ }) ?_ ?_
  · refine tells_act fun i s b s' _ _ => ⟨?_, rfl⟩
    rintro x ⟨⟩ session claims ⟨⟩
  · rintro _ k' rfl
    refine tells_act fun i s reply s' hi hrun => ⟨nofun, rfl, ?_⟩
    rintro tokens rfl
    cases i with
    | tokens reply =>
        cases hrun
        exact hi tokens _ rfl rfl
    | _ => cases hrun

/-- The session of a verified ID Token has what the token claims. -/
theorem tells_enterSession {cookie : Option String} {preAuth : PreAuthState} {claims : JWTPayload}
    {tokens : TokenResponse jose}
    (hentered : ∀ session : TenantSession, session.tenantSlug = client.tenantSlug →
      ClaimedBy session claims → Entered deps Given call k session claims) :
    Tells notes (fits Given) (Good deps Given call) k
      (enterSession client cookie preAuth claims tokens) fun _ _ => True := by
  unfold enterSession
  split
  · next sub sid tenantId hsub hsid htenantId =>
      split
      · exact tells_pure trivial
      · next hslug =>
          refine tells_bind (tells_unnoted (unnoted_destroyExisting client cookie)) ?_
          rintro _ k' rfl
          refine tells_bind (tells_createSession fun session hslug' huser htenant hsid' => ?_)
            fun _ _ _ => tells_pure trivial
          -- The session is made of the claims of the ID Token.
          refine hentered session hslug' ⟨?_, ?_, ?_, ?_⟩
          · rw [huser]
            exact hsub
          · rw [hsid']
            exact hsid
          · rw [htenant]
            exact htenantId
          · rw [hslug']
            exact not_not.mp hslug
  · exact tells_pure trivial

/-- A callback creates a session from the login it has taken and the answer to
    the code it has sent. -/
theorem tells_callback {host cookie preAuthCookie : Option String} {query : CallbackQuery}
    {session : Option TenantSession} (hcall : call = .callback host cookie preAuthCookie query)
    (hclient : resolveClient deps host = some client) :
    Tells notes (fits Given) (Good deps Given call) k
      (callback deps cookie preAuthCookie query ⟨client, session⟩) fun _ _ => True := by
  refine tells_bind (tells_takePreAuth preAuthCookie) fun found k₁ htaken => ?_
  cases found with
  | none => exact tells_pure trivial
  | some preAuth =>
      rcases htaken preAuth rfl with ⟨id, hcookie, hk₁⟩
      dsimp only
      -- Every early end of the callback opens no session.
      unfold answerCallback
      split
      · exact tells_pure trivial
      next hstate =>
      split
      · exact tells_pure trivial
      split
      · exact tells_pure trivial
      split
      · exact tells_pure trivial
      next code hcode =>
      split
      · exact tells_pure trivial
      -- The tokens are those given for this code and verifier.
      refine tells_bind (tells_exchangeCode code preAuth.codeVerifier) fun reply k₂ hreply => ?_
      rcases hreply with ⟨hk₂, hgiven⟩
      cases reply with
      | error e => exact tells_pure trivial
      | ok tokens =>
          dsimp only [verifyLogin]
          cases hidToken : tokens.idToken with
          | none => exact tells_pure trivial
          | some idToken =>
              have hask : Within (fun _ _ => True) Unnoted (jwksSource : WebProg jose _) :=
                within_ask fun _ _ _ _ _ => trivial
              refine tells_bind (tells_unnoted hask) fun source k₃ hk₃ => ?_
              refine tells_bind (tells_unnoted (within_read fun _ => trivial)) fun now k₄ hk₄ => ?_
              rw [hk₃, hk₂] at hk₄
              split
              · exact tells_pure trivial
              -- The ID Token verified, so its claims name the login.
              · next claims hverified =>
                  refine tells_enterSession fun session hslug hclaimed => ?_
                  subst hk₄
                  rw [resolveClient_service hclient] at hverified
                  refine ⟨⟨host, cookie, id, query, client, preAuth, code, tokens, idToken, source,
                    now, hcookie ▸ hcall, hclient, hslug, hk₁, not_not.mp hstate, hcode, rfl,
                    hgiven tokens rfl, hidToken, hverified⟩, hclaimed⟩

/-- Every request tells what is good. -/
theorem tells_respond (call : WebCall jose) :
    Tells notes (fits Given) (Good deps Given call) notes.start (respond deps call)
      fun _ _ => True := by
  cases hcall : call.isCallback with
  | false => exact tells_uncreating (pieces_uncreating.respond deps call hcall)
  | true =>
      cases call with
      | callback host cookie preAuthCookie query =>
          change Tells _ _ _ _ (tenantContext deps host cookie _) _
          unfold tenantContext
          cases hclient : resolveClient deps host with
          | none => exact tells_pure trivial
          | some client =>
              refine tells_bind (tells_uncreating (uncreating_contextSession client cookie)) ?_
              intro session k' _
              refine tells_bind (tells_callback rfl hclient) fun _ _ _ => ?_
              exact tells_pure trivial
      | _ => cases hcall

end Callback

section Runs

variable {deps : WebDeps jose} {Given : Auth.CodeExchangeInput → TokenResponse jose → Prop}

/-- In every run in which the tokens for a code are given for it, every session
    is created in a callback from the login it has taken and the code it has
    sent. -/
theorem entered_of_run {now : Int}
    {q : Asked WebState (Outside jose) Event (WebCall jose) Note fun _ => Answer}
    (h : AskedReachable (webSystem deps) notes (fits Given) (.start now) q) {call : WebCall jose}
    {session : TenantSession} {claims : JWTPayload}
    (hmem : (call, .sessionCreated session claims) ∈ q.trace) :
    ∃ k, Kept call k q.trace ∧ Entered deps Given call k session claims := by
  have htold : Told (Good deps Given) Kept q.trace := told_of_run kept_notes tells_respond h
  rcases htold call _ hmem with ⟨k, hkept, hgood⟩
  exact ⟨k, hkept, hgood session claims rfl⟩

end Runs

end Sandbox.Web.Logins
