import Sandbox.Api.AccessToken
import Sandbox.Auth.Installation
import Sandbox.Auth.SignedTokens
import Sandbox.Web.Provider

/-!
# No Token Stands in for Another

Three kinds of tokens meet four kinds of verifiers, and nothing in a token's
header tells the kinds apart. What keeps them apart are the audiences, which
are client ids for ID Tokens and logout tokens and URLs for Access Tokens;
the nonce, which only ID Tokens from codes have; and the event, which only
logout tokens have.

A verifier accepts a token if it does so in any circumstances: at some time,
with some keys, with some rows in the database. That is what the theorem
denies for every pair that does not belong together.

## Main definitions

* `Verifier`, `Verifier.OfSystem`: The verifiers of a system of services.
* `Verifier.Accepts`: A verifier accepts a token in some circumstances.
* `IsUrl`: A text with a scheme.

## Theorems

* `tokens_not_interchangeable`: A token is accepted only by its verifiers.
* `accessToken_accepted`, `idToken_accepted`, `logoutToken_accepted`: And it
  is accepted by them while it lasts.
-/

namespace Sandbox

open Auth Interleave

/-- Where tokens are checked: an API with its audience, the user info
    endpoint, a login of a client with its nonce, the logout endpoint. -/
inductive Verifier where
  | accessToken (audience : String)
  | userinfo
  | idToken (clientId expectedNonce : String)
  | logoutToken
  deriving DecidableEq

/-- The API or the client is one of a service. -/
def Verifier.OfSystem (clients : List OidcClient) : Verifier → Prop
  | .accessToken audience => ∃ client ∈ clients, client.audience = audience
  | .userinfo => True
  | .idToken clientId _ => ∃ client ∈ clients, client.clientId = clientId
  | .logoutToken => True

/-- A verifier accepts a token in some circumstances. -/
def Verifier.Accepts (jose : Jose) (deps : Deps) (token : jose.Token) : Verifier → Prop
  | .accessToken audience => ∃ issuer jwks now claims,
      Api.verifyAccessToken jose token ⟨issuer, audience, jwks, now⟩ = .ok claims
  | .userinfo => ∃ key s es sub profile tenantId s',
      Exec s (Auth.userinfo jose deps key (some token)) es (.claims sub profile tenantId) s'
  | .idToken clientId expectedNonce => ∃ (provider : Web.OidcProvider jose) (now : Int)
      (payload : JWTPayload), provider.verifyIdToken now token clientId expectedNonce = .ok payload
  | .logoutToken => ∃ (provider : Web.OidcProvider jose) (now : Int)
      (claims : Web.OidcProvider.LogoutClaims), provider.verifyLogoutToken now token = .ok claims

/-- An absolute URL starts with a scheme and a colon. -/
def IsUrl (text : String) : Prop := ∃ scheme rest, text = scheme ++ ":" ++ rest

theorem IsUrl.ne_of_isSlug {url clientId : String} (hurl : IsUrl url)
    (hslug : isSlug clientId.toList = true) : clientId ≠ url := by
  rintro rfl
  rcases hurl with ⟨scheme, rest, htext⟩
  refine colon_notMem_of_isSlug hslug ?_
  rw [htext]
  simp

section Signed

variable {jose : Jose} {deps : Deps} {key : jose.Key} {options : SignOptions}

/-- Whoever accepts a token for an audience finds it in the token. -/
theorem mem_audiences {expected : VerifyOptions} {audience : String}
    (h : Accepted expected options.payload) (haudience : expected.audience = some audience) :
    audience ∈ options.audience.audiences := by
  rcases h.aud audience haudience with ⟨claim, hclaim, hmem⟩
  rw [payload_aud, Option.some.injEq] at hclaim
  rwa [hclaim]

theorem answers_userinfo (token : jose.Token) (signingKey : jose.Key) :
    Answers (Auth.userinfo jose deps signingKey (some token)) fun reply =>
      ∀ sub profile tenantId, reply = .claims sub profile tenantId →
        ∃ now payload, verifyJwt jose token [signingKey] deps.issuer (some deps.issuer) now =
          .ok payload := by
  refine answers_then fun now => ?_
  cases hverified : verifyJwt jose token [signingKey] deps.issuer (some deps.issuer) now with
  | error e => exact answers_pure fun _ _ _ h => nomatch h
  | ok payload =>
      exact answers_mono (answers_any _) fun _ _ _ _ _ _ => ⟨now, payload, hverified⟩

/-- What a token says that some verifier accepts. -/
theorem Verifier.Accepts.says {v : Verifier} (h : v.Accepts jose deps (signJwt jose key options)) :
    match v with
    | .accessToken audience => audience ∈ options.audience.audiences
    | .userinfo => deps.issuer ∈ options.audience.audiences
    | .idToken clientId expectedNonce => clientId ∈ options.audience.audiences ∧
        options.payload "nonce" = some (.string expectedNonce)
    | .logoutToken => Web.OidcProvider.hasLogoutEvent options.payload = true := by
  -- Each verifier asks for an audience, and the last two for something more.
  cases v with
  | accessToken audience =>
      rcases h with ⟨issuer, jwks, now, claims, hverified⟩
      exact mem_audiences (Api.verifyAccessToken_sign hverified) rfl
  | userinfo =>
      rcases h with ⟨signingKey, s, es, sub, profile, tenantId, s', hexec⟩
      rcases exec_answers hexec (answers_userinfo _ _) sub profile tenantId rfl with
        ⟨now, payload, hverified⟩
      exact mem_audiences (verifyJwt_sign hverified).1 rfl
  | idToken clientId expectedNonce =>
      rcases h with ⟨provider, now, payload, hverified⟩
      rcases Web.OidcProvider.verifyIdToken_sign hverified with ⟨haccepted, hnonce⟩
      exact ⟨mem_audiences haccepted rfl, hnonce⟩
  | logoutToken =>
      rcases h with ⟨provider, now, claims, hverified⟩
      exact Web.OidcProvider.verifyLogoutToken_sign hverified

end Signed

section Kinds

variable {jose : Jose} {deps : Deps} {key : jose.Key} {clients : List OidcClient} {v : Verifier}

theorem accessToken_events (token : AccessToken) : token.signOptions.payload "events" = none := by
  rw [payload_claim _ (by decide)]
  simp [AccessToken.signOptions, spread]

theorem idToken_nonce (token : IdToken) :
    token.signOptions.payload "nonce" = token.nonce.map .string := by
  rw [payload_claim _ (by decide)]
  cases hnonce : token.nonce with
  | none => simp [IdToken.signOptions, ProfileClaims.claims, spread, hnonce]
  | some nonce => simp [IdToken.signOptions, ProfileClaims.claims, spread, hnonce]

theorem idToken_events (token : IdToken) : token.signOptions.payload "events" = none := by
  rw [payload_claim _ (by decide)]
  simp [IdToken.signOptions, ProfileClaims.claims, spread]

theorem logoutToken_nonce (token : LogoutToken) : token.signOptions.payload "nonce" = none := by
  rw [payload_claim _ (by decide)]
  simp [LogoutToken.signOptions, spread]

theorem not_hasLogoutEvent {options : SignOptions} (h : options.payload "events" = none) :
    Web.OidcProvider.hasLogoutEvent options.payload = false := by
  unfold Web.OidcProvider.hasLogoutEvent
  rw [h]

/-- An Access Token is accepted by an API with one of its audiences and by
    the user info endpoint. -/
theorem accepts_accessToken (hv : v.OfSystem clients) {token : AccessToken} {url : String}
    (haud : token.aud = [url, deps.issuer])
    (hdistinct : ∀ client ∈ clients, client.audience ≠ deps.issuer)
    (hslug : ∀ client ∈ clients, client.clientId ∉ token.aud)
    (h : v.Accepts jose deps (signJwt jose key token.signOptions)) :
    v = .accessToken url ∨ v = .userinfo := by
  have hsays := h.says
  cases v with
  | accessToken audience =>
      rcases hv with ⟨client, hclient, rfl⟩
      have hmem : client.audience ∈ [url, deps.issuer] := haud ▸ hsays
      -- Of its two audiences the issuer is no service's URL.
      rcases List.mem_cons.mp hmem with hurl | hissuer
      · exact .inl (by rw [hurl])
      · exact absurd (List.mem_singleton.mp hissuer) (hdistinct client hclient)
  | userinfo => exact .inr rfl
  | idToken clientId expectedNonce =>
      rcases hv with ⟨client, hclient, rfl⟩
      exact absurd hsays.1 (hslug client hclient)
  | logoutToken =>
      rw [not_hasLogoutEvent (accessToken_events token)] at hsays
      cases hsays

/-- A token for a client id and without an event is accepted only by the
    login of that client with the token's own nonce. -/
theorem accepts_idToken (hv : v.OfSystem clients) {token : IdToken}
    (hurls : ∀ client ∈ clients, token.aud ≠ client.audience) (hissuer : token.aud ≠ deps.issuer)
    (h : v.Accepts jose deps (signJwt jose key token.signOptions)) :
    ∃ nonce, token.nonce = some nonce ∧ v = .idToken token.aud nonce := by
  have hsays := h.says
  cases v with
  | accessToken audience =>
      rcases hv with ⟨client, hclient, rfl⟩
      exact absurd (List.mem_singleton.mp hsays).symm (hurls client hclient)
  -- The audience is a client id, which is neither a service's URL nor the issuer.
  | userinfo => exact absurd (List.mem_singleton.mp hsays).symm hissuer
  | idToken clientId expectedNonce =>
      rcases hsays with ⟨haud, hnonce⟩
      rw [idToken_nonce, Option.map_eq_some_iff] at hnonce
      rcases hnonce with ⟨nonce, hnonce, heq⟩
      rw [← Claim.string.inj heq, List.mem_singleton.mp haud]
      exact ⟨nonce, hnonce, rfl⟩
  | logoutToken =>
      rw [not_hasLogoutEvent (idToken_events token)] at hsays
      cases hsays

/-- A logout token is accepted only by the logout endpoint. -/
theorem accepts_logoutToken (hv : v.OfSystem clients) {token : LogoutToken}
    (hurls : ∀ client ∈ clients, token.aud ≠ client.audience) (hissuer : token.aud ≠ deps.issuer)
    (h : v.Accepts jose deps (signJwt jose key token.signOptions)) : v = .logoutToken := by
  have hsays := h.says
  cases v with
  | accessToken audience =>
      rcases hv with ⟨client, hclient, rfl⟩
      exact absurd (List.mem_singleton.mp hsays).symm (hurls client hclient)
  | userinfo => exact absurd (List.mem_singleton.mp hsays).symm hissuer
  | idToken clientId expectedNonce =>
      rw [logoutToken_nonce] at hsays
      cases hsays.2
  | logoutToken => rfl

end Kinds

section Positive

variable {jose : Jose} {deps : Deps} {key : jose.Key} {source : JwksSource jose}
  {jwks : List jose.Key} {issue : IssueTokensInput} {now later : Int} {jti : String}

/-- A payload for an audience that has not ended meets the expectations. -/
theorem accepted_payload (options : SignOptions) (audience : Option String)
    (haud : ∀ a, audience = some a → a ∈ options.audience.audiences)
    (hnbf : options.payload "nbf" = none)
    (hlater : later - defaultClockTolerance < options.expiresAt) :
    Accepted ⟨options.issuer, audience, later, defaultClockTolerance⟩ options.payload where
  iss := payload_iss options
  aud a ha := ⟨options.audience, payload_aud options, haud a ha⟩
  exp claim hclaim := by
    rw [payload_exp, Option.some.injEq] at hclaim
    exact ⟨options.expiresAt, hclaim.symm, hlater⟩
  nbf claim hclaim := by
    rw [hnbf] at hclaim
    cases hclaim

/-- While it lasts, an Access Token is accepted by the API of its client. -/
theorem accessToken_accepted (hsource : source false = .ok jwks) (hkey : key ∈ jwks)
    (hkids : (jwks.map jose.kid).Nodup)
    (hlater : later - defaultClockTolerance < now + accessTokenTtl) :
    Api.verifyAccessToken jose
        (signJwt jose key (issuedAt deps issue now jti).accessToken.signOptions)
        ⟨deps.issuer, issue.client.audience, source, later⟩ =
      .ok ⟨issue.user.id, issue.tenant.id, issue.tenant.slug, issue.client.clientId⟩ := by
  have haccepted := accepted_payload (issuedAt deps issue now jti).accessToken.signOptions
    (some issue.client.audience) (fun a ha => Option.some.inj ha ▸ List.mem_cons_self)
    (by simp [payload_claim, AccessToken.signOptions, spread]) hlater
  have hverified := verifyJwtWithSource_accepted hsource hkey hkids haccepted
  have hissuer : (issuedAt deps issue now jti).accessToken.signOptions.issuer = deps.issuer := rfl
  rw [hissuer] at hverified
  simp only [Api.verifyAccessToken, hverified]
  simp [Api.requiredClaims, JWTPayload.string?, payload_sub, payload_claim,
    AccessToken.signOptions, spread, issuedAt]

/-- While it lasts, an ID Token from a code is accepted by the login it
    belongs to. -/
theorem idToken_accepted {nonce : String} (hnonce : issue.nonce = some nonce)
    (hsource : source false = .ok jwks) (hkey : key ∈ jwks) (hkids : (jwks.map jose.kid).Nodup)
    (hlater : later - defaultClockTolerance < now + idTokenTtl) :
    Web.OidcProvider.verifyIdToken ⟨deps.issuer, source⟩ later
        (signJwt jose key (issuedAt deps issue now jti).idToken.signOptions)
        issue.client.clientId nonce =
      .ok (issuedAt deps issue now jti).idToken.signOptions.payload := by
  have haccepted := accepted_payload (issuedAt deps issue now jti).idToken.signOptions
    (some issue.client.clientId) (fun a ha => Option.some.inj ha ▸ List.mem_singleton_self _)
    (by simp [payload_claim, IdToken.signOptions, ProfileClaims.claims, spread]) hlater
  have hverified := verifyJwtWithSource_accepted hsource hkey hkids haccepted
  have hissuer : (issuedAt deps issue now jti).idToken.signOptions.issuer = deps.issuer := rfl
  have hclaim : (issuedAt deps issue now jti).idToken.nonce = some nonce := hnonce
  rw [hissuer] at hverified
  simp only [Web.OidcProvider.verifyIdToken, Web.OidcProvider.verify, hverified]
  simp [idToken_nonce, hclaim, JWTPayload.string?, payload_sub]

/-- While it lasts, a logout token is accepted by the logout endpoint. -/
theorem logoutToken_accepted {token : LogoutToken} (hissuer : token.iss = deps.issuer)
    (hsource : source false = .ok jwks) (hkey : key ∈ jwks) (hkids : (jwks.map jose.kid).Nodup)
    (hlater : later - defaultClockTolerance < token.exp) :
    Web.OidcProvider.verifyLogoutToken ⟨deps.issuer, source⟩ later
        (signJwt jose key token.signOptions) = .ok ⟨token.sid, token.aud⟩ := by
  have haccepted := accepted_payload token.signOptions none (fun _ h => nomatch h)
    (by simp [payload_claim, LogoutToken.signOptions, spread]) hlater
  have hverified := verifyJwtWithSource_accepted hsource hkey hkids haccepted
  have hiss : token.signOptions.issuer = deps.issuer := hissuer
  have hevent : Web.OidcProvider.hasLogoutEvent token.signOptions.payload = true := by
    simp [Web.OidcProvider.hasLogoutEvent, payload_claim, LogoutToken.signOptions, spread,
      logoutEvent]
  rw [hiss] at hverified
  simp only [Web.OidcProvider.verifyLogoutToken, Web.OidcProvider.verify, hverified, hevent,
    logoutToken_nonce]
  simp [JWTPayload.string?, payload_claim, Web.OidcProvider.firstAudience, payload_aud,
    LogoutToken.signOptions, spread]

end Positive

/-- In a system whose clients have slugs as ids, and whose APIs and issuer
    have distinct URLs as audiences, every token that is issued is accepted
    by its own verifiers at most: an Access Token by the API of its client
    and by the user info endpoint, an ID Token from a code by the login of
    its client with its own nonce, an ID Token from a refresh by nobody, a
    logout token by the logout endpoint. -/
theorem tokens_not_interchangeable (jose : Jose) (deps : Deps) (key : jose.Key)
    {clients : List OidcClient} (hslug : ∀ client ∈ clients, isSlug client.clientId.toList = true)
    (hurl : ∀ url ∈ deps.issuer :: clients.map (·.audience), IsUrl url)
    (hdistinct : (deps.issuer :: clients.map (·.audience)).Nodup)
    {client : OidcClient} (hclient : client ∈ clients) {v : Verifier}
    (hv : v.OfSystem clients) :
    (∀ s es s' issue tokens, issue.client = client →
      Exec s (issueTokens deps issue) es tokens s' →
        (v.Accepts jose deps (signJwt jose key tokens.accessToken.signOptions) →
          v = .accessToken client.audience ∨ v = .userinfo) ∧
        (v.Accepts jose deps (signJwt jose key tokens.idToken.signOptions) →
          ∃ nonce, issue.nonce = some nonce ∧ v = .idToken client.clientId nonce)) ∧
    (∀ s es s' input response,
      Exec s (exchangeAuthorizationCode deps client input) es (.ok response) s' →
        (v.Accepts jose deps (signJwt jose key response.accessToken.signOptions) →
          v = .accessToken client.audience ∨ v = .userinfo) ∧
        ∃ nonce, response.idToken.nonce = some nonce ∧
          (v.Accepts jose deps (signJwt jose key response.idToken.signOptions) →
            v = .idToken client.clientId nonce)) ∧
    (∀ s es s' value response,
      Exec s (refreshAccessToken deps client value) es (.ok response) s' →
        (v.Accepts jose deps (signJwt jose key response.accessToken.signOptions) →
          v = .accessToken client.audience ∨ v = .userinfo) ∧
        ¬ v.Accepts jose deps (signJwt jose key response.idToken.signOptions)) ∧
    (∀ s es s' sid token, Exec s (issueLogoutToken deps client.clientId sid) es token s' →
      v.Accepts jose deps (signJwt jose key token.signOptions) → v = .logoutToken) := by
  rcases List.nodup_cons.mp hdistinct with ⟨hissuer, _⟩
  have haudience : ∀ c ∈ clients, IsUrl c.audience := fun c hc =>
    hurl _ (List.mem_cons_of_mem _ (List.mem_map_of_mem hc))
  have hne : ∀ c ∈ clients, c.audience ≠ deps.issuer := fun c hc heq =>
    hissuer (heq ▸ List.mem_map_of_mem hc)
  -- A client id is never a URL.
  have hid : ∀ c ∈ clients, ∀ url ∈ deps.issuer :: clients.map (·.audience), c.clientId ≠ url :=
    fun c hc url hmem => (hurl url hmem).ne_of_isSlug (hslug c hc)
  have hids : ∀ c ∈ clients, client.clientId ≠ c.audience := fun c hc =>
    hid client hclient _ (List.mem_cons_of_mem _ (List.mem_map_of_mem hc))
  have hown : client.clientId ≠ deps.issuer := hid client hclient _ List.mem_cons_self
  have haccess : ∀ issue now jti, issue.client = client →
      v.Accepts jose deps (signJwt jose key (issuedAt deps issue now jti).accessToken.signOptions) →
        v = .accessToken client.audience ∨ v = .userinfo := by
    intro issue now jti hissue h
    refine accepts_accessToken hv (by rw [← hissue]; rfl) hne (fun c hc hmem => ?_) h
    have hmem' : c.clientId ∈ [client.audience, deps.issuer] := hissue ▸ hmem
    rcases List.mem_cons.mp hmem' with heq | heq
    · exact hid c hc _ (List.mem_cons_of_mem _ (List.mem_map_of_mem hclient)) heq
    · exact hid c hc _ List.mem_cons_self (List.mem_singleton.mp heq)
  have hidToken : ∀ issue now jti, issue.client = client →
      v.Accepts jose deps (signJwt jose key (issuedAt deps issue now jti).idToken.signOptions) →
        ∃ nonce, issue.nonce = some nonce ∧ v = .idToken client.clientId nonce := by
    intro issue now jti hissue h
    subst hissue
    exact accepts_idToken hv hids hown h
  refine ⟨?_, ?_, ?_, ?_⟩
  · intro s es s' issue tokens hissue hexec
    rcases exec_answers hexec (answers_issueTokens deps issue) with ⟨now, jti, rfl⟩
    exact ⟨haccess issue now jti hissue, hidToken issue now jti hissue⟩
  · intro s es s' input response hexec
    rcases exec_answers hexec (answers_exchange deps client input) response rfl with
      ⟨issue, now, jti, hissue, ⟨nonce, hnonce⟩, hidt, hat⟩
    rw [hidt, hat]
    refine ⟨haccess issue now jti hissue, nonce, hnonce, fun h => ?_⟩
    rcases hidToken issue now jti hissue h with ⟨nonce', hnonce', hverifier⟩
    rw [hnonce, Option.some.injEq] at hnonce'
    rwa [hnonce']
  · intro s es s' value response hexec
    rcases exec_answers hexec (answers_refresh deps client value) response rfl with
      ⟨issue, now, jti, hissue, hnonce, hidt, hat⟩
    rw [hidt, hat]
    refine ⟨haccess issue now jti hissue, fun h => ?_⟩
    rcases hidToken issue now jti hissue h with ⟨nonce', hnonce', _⟩
    rw [hnonce] at hnonce'
    cases hnonce'
  · intro s es s' sid token hexec h
    rcases exec_answers hexec (answers_issueLogoutToken deps client.clientId sid) with
      ⟨now, jti, rfl⟩
    exact accepts_logoutToken hv hids hown h

section Seed

/-- The two services of the seed. -/
def seedCrm : OidcClient :=
  { crm with
    audience := "http://api.crm.localhost:3002" }

def seedCms : OidcClient :=
  { crm with
    id := "01J00000000000000000000CMS"
    clientId := "cms"
    audience := "http://api.cms.localhost:3004" }

def crmIssue : IssueTokensInput where
  client := seedCrm
  user := alice
  scope := "openid"
  nonce := some "nonce"
  sid := sid1
  tenant := acme
  authTime := 1000

/-- An Access Token of one service of the seed is accepted by its API and not
    by the other's. -/
theorem crm_token_only_for_crm :
    ∃ es tokens s', Exec smallStart (issueTokens smallDeps crmIssue) es tokens s' ∧
      (Verifier.accessToken seedCrm.audience).Accepts openJose smallDeps
        (signJwt openJose "key" tokens.accessToken.signOptions) ∧
      ¬ (Verifier.accessToken seedCms.audience).Accepts openJose smallDeps
        (signJwt openJose "key" tokens.accessToken.signOptions) := by
  have hrun : ((issueTokens smallDeps crmIssue).runAlone (.ulid "") 5 [.random jti1]
      smallStart).isSome = true := by decide +kernel
  rcases Option.isSome_iff_exists.mp hrun with ⟨⟨es, tokens, s'⟩, hplayed⟩
  have hexec := exec_of_runAlone _ _ _ _ _ _ _ _ hplayed
  refine ⟨es, tokens, s', hexec, ?_, fun h => ?_⟩
  · rcases exec_answers hexec (answers_issueTokens smallDeps crmIssue) with ⟨now, jti, rfl⟩
    exact ⟨smallDeps.issuer, fun _ => .ok ["key"], now, _, accessToken_accepted rfl
      (List.mem_singleton_self _) (List.nodup_singleton _) (by
        unfold defaultClockTolerance accessTokenTtl
        omega)⟩
  -- The issuer and the two audiences are distinct URLs, and no client id is one.
  · have hurl : ∀ url ∈ ["https://auth.localhost", "http://api.crm.localhost:3002",
        "http://api.cms.localhost:3004"], IsUrl url := by
      intro url hmem
      simp only [List.mem_cons, List.not_mem_nil, or_false] at hmem
      rcases hmem with rfl | rfl | rfl
      · exact ⟨"https", "//auth.localhost", by decide +kernel⟩
      · exact ⟨"http", "//api.crm.localhost:3002", by decide +kernel⟩
      · exact ⟨"http", "//api.cms.localhost:3004", by decide +kernel⟩
    have hslug : ∀ client ∈ [seedCrm, seedCms], isSlug client.clientId.toList = true := by
      decide +kernel
    have hcrm : seedCrm ∈ [seedCrm, seedCms] := List.mem_cons_self
    have hcms : (Verifier.accessToken seedCms.audience).OfSystem [seedCrm, seedCms] :=
      ⟨seedCms, List.mem_cons_of_mem _ List.mem_cons_self, rfl⟩
    have hmain := (tokens_not_interchangeable openJose smallDeps "key" hslug hurl
      (by decide +kernel) hcrm hcms).1
    rcases (hmain smallStart es s' crmIssue tokens rfl hexec).1 h with heq | heq
    · exact absurd heq (by decide +kernel)
    · cases heq

end Seed

end Sandbox
