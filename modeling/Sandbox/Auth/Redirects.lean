import Sandbox.Auth.Blocks
import Sandbox.Auth.Installation
import Sandbox.Interleave.Knowledge

/-!
# Redirects of the Authorization Endpoint

The server redirects a browser only to where a registered client wants its
answers. What a request asks for is looked up once, when it arrives; between
then and the answer there may be a login, and the request waits in a store.

The checks read nothing but the clients and the tenants, so while those rows
stay the same they are a function of the parameters (`validated`). Every
saved request is what that function gives for the parameters of some request
that arrived, and so is every code, whether it was issued at once or after a
login.

## Main definitions

* `settledSystem`: The server, with the same clients and tenants throughout.
* `validated`: The checks on fixed rows.
* `Requested`, `Registered`: The client and tenant that a request and a
  record name.
* `SavedFor`, `IssuedFor`: The parameters a record comes from.
* `course`: What programs keep and learn.

## Theorems

* `requested_of_validated`: Parameters that pass name a client and a tenant.
* `knows_validate`: The checks compute `validated`.
* `knows_authorizeWithSession`: A code is issued for checked parameters.
* `knows_resumeLogin`: A resumed request is one that was saved.
* `redirects_registered`: All redirects and records are registered.
-/

namespace Sandbox.Auth.Redirects

open Interleave Ttl Knowledge

abbrev History : Type := List (AuthCall × Event)

/-- The server, with the same clients and tenants throughout. -/
def settledSystem (deps : Deps) : System State Outside Event AuthCall Change Answer where
  body := AuthCall.body deps
  env change s := (change.apply s).filter fun s' =>
    s'.identity.clients = s.identity.clients ∧ s'.identity.tenants = s.identity.tenants

section Checks

variable {db : Identity} {params : RawParams} {request : ValidatedAuthorizationRequest}

/-- The checks on the parameters, on fixed rows. -/
def validated (db : Identity) (params : RawParams) :
    Except AuthorizationRequestError ValidatedAuthorizationRequest :=
  match params.clientId with
  | none | some "" => .error .invalidClient
  | some clientId =>
    match db.clients.find? (·.clientId = clientId) with
    | none => .error .invalidClient
    | some client =>
      if client.status ≠ .active then .error .invalidClient
      else
        match params.redirectUri with
        | none => .error .invalidRedirectUri
        | some redirectUri =>
          match matchRedirectUriTemplate client.redirectUriTemplate redirectUri with
          | none => .error .invalidRedirectUri
          | some tenantSlug =>
            match db.tenants.find? (·.slug = tenantSlug) with
            | none => .error .invalidRedirectUri
            | some tenant => validateParams client redirectUri tenant params

/-- The client and the tenant that the parameters name. -/
structure Requested (db : Identity) (params : RawParams) (client : OidcClient) (tenant : Tenant) :
    Prop where
  clientId : params.clientId = some client.clientId
  findClient : db.clients.find? (·.clientId = client.clientId) = some client
  active : client.status = .active
  findTenant : db.tenants.find? (·.slug = tenant.slug) = some tenant
  redirectUri : params.redirectUri =
    some (expandRedirectUriTemplate client.redirectUriTemplate tenant.slug)

/-- A redirect URI is the one of a registered client and tenant, and the
    client is active. -/
def Registered (db : Identity) (clientId tenantId redirectUri : String) : Prop :=
  ∃ client tenant, db.clients.find? (·.clientId = clientId) = some client ∧
    client.status = .active ∧ tenant ∈ db.tenants ∧ tenant.id = tenantId ∧
    redirectUri = expandRedirectUriTemplate client.redirectUriTemplate tenant.slug

/-- What is saved of a request. -/
def savedRequest (request : ValidatedAuthorizationRequest) : AuthorizationRequest where
  clientId := request.client.clientId
  tenantId := request.tenant.id
  redirectUri := request.redirectUri
  scope := request.scope
  state := request.state
  nonce := request.nonce
  codeChallenge := request.codeChallenge

/-- The last part of the checks keeps what the first part has found. -/
theorem validateParams_ok {client : OidcClient} {redirectUri : String} {tenant : Tenant}
    (h : validateParams client redirectUri tenant params = .ok request) :
    request.client = client ∧ request.redirectUri = redirectUri ∧ request.tenant = tenant := by
  unfold validateParams at h
  dsimp only at h
  repeat' split at h
  all_goals cases h
  exact ⟨rfl, rfl, rfl⟩

/-- An error of the last part goes to the redirect URI that was found. -/
theorem validateParams_error {client : OidcClient} {redirectUri : String} {tenant : Tenant}
    {e : AuthorizationRequestError}
    (h : validateParams client redirectUri tenant params = .error e) :
    ∃ kind description, e = .redirectable kind redirectUri params.state description := by
  unfold validateParams at h
  dsimp only at h
  repeat' split at h
  all_goals first | cases h; exact ⟨_, _, rfl⟩ | cases h

/-- The checks get to their last part with the client and the tenant that the
    parameters name, or redirect nowhere. -/
theorem validated_cases (db : Identity) (params : RawParams) :
    (validated db params = .error .invalidClient ∨
      validated db params = .error .invalidRedirectUri) ∨
    ∃ client tenant, Requested db params client tenant ∧
      validated db params = validateParams client
        (expandRedirectUriTemplate client.redirectUriTemplate tenant.slug) tenant params := by
  unfold validated
  split
  · exact .inl (.inl rfl)
  · exact .inl (.inl rfl)
  · next clientId _ hclientId =>
      split
      · exact .inl (.inl rfl)
      · next client hclient =>
          -- The client is the one that was asked for.
          have hid := List.find?_some hclient
          rw [decide_eq_true_eq] at hid
          split
          · exact .inl (.inl rfl)
          · next hactive =>
              split
              · exact .inl (.inr rfl)
              · next redirectUri hredirectUri =>
                  split
                  · exact .inl (.inr rfl)
                  · next tenantSlug hmatch =>
                      split
                      · exact .inl (.inr rfl)
                      -- The tenant is the one in the redirect URI, which its template gives.
                      · next tenant htenant =>
                          have hslug := List.find?_some htenant
                          rw [decide_eq_true_eq] at hslug
                          have huri := (eq_expand_of_match hmatch).1
                          refine .inr ⟨client, tenant, ⟨?_, ?_, ?_, ?_, ?_⟩, ?_⟩
                          · rw [hid]
                            exact hclientId
                          · rw [hid]
                            exact hclient
                          · exact not_not.mp hactive
                          · rw [hslug]
                            exact htenant
                          · rw [hslug, ← huri]
                            exact hredirectUri
                          · rw [hslug, ← huri]

/-- Parameters that pass name the client and the tenant of the result. -/
theorem requested_of_validated (h : validated db params = .ok request) :
    Requested db params request.client request.tenant ∧
      request.redirectUri =
        expandRedirectUriTemplate request.client.redirectUriTemplate request.tenant.slug := by
  rcases validated_cases db params with (he | he) | ⟨client, tenant, hreq, heq⟩
  · rw [he] at h
    cases h
  · rw [he] at h
    cases h
  · rw [heq] at h
    rcases validateParams_ok h with ⟨rfl, huri, rfl⟩
    exact ⟨hreq, huri⟩

/-- What passed is registered. -/
theorem registered_of_validated (h : validated db params = .ok request) :
    Registered db request.client.clientId request.tenant.id request.redirectUri := by
  rcases requested_of_validated h with ⟨hreq, huri⟩
  exact ⟨request.client, request.tenant, hreq.findClient, hreq.active,
    List.mem_of_find?_eq_some hreq.findTenant, rfl, huri⟩

/-- An answer to a request is an error page, or the request names a client
    and a tenant and is redirected nowhere else. -/
def AnsweredWell (db : Identity) (params : RawParams) (answer : AuthorizeAnswer) : Prop :=
  answer = .badRequest ∨ ∃ client tenant, Requested db params client tenant ∧
    ∀ r, answer = .redirect r →
      r.target = expandRedirectUriTemplate client.redirectUriTemplate tenant.slug

theorem answeredWell_error {deps : Deps} {e : AuthorizationRequestError}
    (h : validated db params = .error e) :
    AnsweredWell db params (respondValidationError deps e) := by
  rcases validated_cases db params with (he | he) | ⟨client, tenant, hreq, heq⟩
  · rw [he] at h
    cases h
    exact .inl rfl
  · rw [he] at h
    cases h
    exact .inl rfl
  · rw [heq] at h
    rcases validateParams_error h with ⟨kind, description, rfl⟩
    refine .inr ⟨client, tenant, hreq, ?_⟩
    rintro r ⟨⟩
    rfl

/-- Whatever the outcome, the redirect goes to the redirect URI of the request. -/
theorem redirectForOutcome_target (issuer redirectUri state : String)
    (outcome : Except ResumeError String) :
    (redirectForOutcome issuer redirectUri state outcome).target = redirectUri := by
  cases outcome <;> rfl

end Checks

section Course

/-- A request with these parameters was saved under a key. -/
def SavedFor (deps : Deps) (h : History) (params : RawParams) (key : String) : Prop :=
  ∃ cookie environment rid, deps.keyOf rid = key ∧
    (.authorize params cookie environment, .requestSaved rid) ∈ h

/-- A code was issued under a key for a request with these parameters, at once
    or when the saved request was resumed. -/
inductive IssuedFor (deps : Deps) (h : History) (params : RawParams) (key : String) : Prop
  | direct (cookie : Option String) (environment : RequestEnvironment)
      (issued : (.authorize params cookie environment, .codeStored none key) ∈ h)
  | resumed (call : AuthCall) (rid : String) (issued : (call, .codeStored (some rid) key) ∈ h)
      (saved : SavedFor deps h params (deps.keyOf rid))

variable {deps : Deps} {db : Identity} {h h' : History} {params : RawParams} {key : String}

/-- A request that was saved stays so in every longer history. -/
theorem SavedFor.later (hsaved : SavedFor deps h params key) (hh : h ⊆ h') :
    SavedFor deps h' params key := by
  rcases hsaved with ⟨cookie, environment, rid, hkey, hmem⟩
  exact ⟨cookie, environment, rid, hkey, hh hmem⟩

/-- A code that was issued stays so in every longer history. -/
theorem IssuedFor.later (hissued : IssuedFor deps h params key) (hh : h ⊆ h') :
    IssuedFor deps h' params key := by
  cases hissued with
  | direct cookie environment issued => exact .direct cookie environment (hh issued)
  | resumed call rid issued saved => exact .resumed call rid (hh issued) (saved.later hh)

/-- A record is what was saved of a request that passed the checks. -/
def SavedRecord (deps : Deps) (db : Identity) (h : History) (key : String)
    (pending : AuthorizationRequest) : Prop :=
  ∃ params request, validated db params = .ok request ∧ SavedFor deps h params key ∧
    pending = savedRequest request

/-- A grant is what a code stands for that was issued for a request that
    passed the checks. -/
def IssuedGrant (deps : Deps) (db : Identity) (h : History) (key : String) (grant : CodeGrant) :
    Prop :=
  ∃ params request session, validated db params = .ok request ∧ IssuedFor deps h params key ∧
    grant = codeGrant request session

/-- The rows are those of `db`, and requests and codes passed its checks. -/
structure Inv (deps : Deps) (db : Identity) (s : State) (h : History) : Prop where
  clients : s.identity.clients = db.clients
  tenants : s.identity.tenants = db.tenants
  requests : ∀ key e, s.authorizationRequests key = some e → SavedRecord deps db h key e.value
  codes : ∀ key e grant, s.authorizationCodes key = some e → e.value = .unused grant →
    IssuedGrant deps db h key grant

/-- Programs keep the invariant and forget nothing that happened. -/
def course (deps : Deps) (db : Identity) : Course State Event AuthCall where
  guard := anyStep
  Inv := Inv deps db
  Leads _ h _ h' := h ⊆ h'

/-- Requests and codes may go, and time may pass. -/
theorem Inv.fewer {s s' : State} (hi : Inv deps db s h)
    (hclients : s'.identity.clients = s.identity.clients)
    (htenants : s'.identity.tenants = s.identity.tenants)
    (hrequests : ∀ key e, s'.authorizationRequests key = some e →
      s.authorizationRequests key = some e)
    (hcodes : ∀ key e grant, s'.authorizationCodes key = some e → e.value = .unused grant →
      s.authorizationCodes key = some e)
    (hh : h ⊆ h') : Inv deps db s' h' where
  clients := hclients.trans hi.clients
  tenants := htenants.trans hi.tenants
  requests key e he := by
    rcases hi.requests key e (hrequests key e he) with ⟨params, request, hvalid, hsaved, heq⟩
    exact ⟨params, request, hvalid, hsaved.later hh, heq⟩
  codes key e grant he hgrant := by
    rcases hi.codes key e grant (hcodes key e grant he hgrant) hgrant with
      ⟨params, request, session, hvalid, hissued, heq⟩
    exact ⟨params, request, session, hvalid, hissued.later hh, heq⟩

theorem Inv.log {s : State} (hi : Inv deps db s h) (x : AuthCall × Event) :
    Inv deps db s (x :: h) :=
  hi.fewer rfl rfl (fun _ _ he => he) (fun _ _ _ he _ => he) (List.subset_cons_self x h)

/-- A request was saved under a key. -/
def savedAs (deps : Deps) (db : Identity) (key : String) (pending : AuthorizationRequest) :
    Knowledge (course deps db) :=
  ofHistory (fun h => SavedRecord deps db h key pending) fun s h s' h' hlead hk => by
    rcases hk with ⟨params, request, hvalid, hsaved, heq⟩
    exact ⟨params, request, hvalid, hsaved.later hlead, heq⟩

/-- A record that was saved names a client and a tenant. -/
theorem registered_of_saved {pending : AuthorizationRequest}
    (hsaved : SavedRecord deps db h key pending) :
    Registered db pending.clientId pending.tenantId pending.redirectUri := by
  rcases hsaved with ⟨params, request, hvalid, _, rfl⟩
  exact registered_of_validated hvalid

/-- A code was issued for a registered redirect URI. -/
theorem registered_of_issued {grant : CodeGrant} (hissued : IssuedGrant deps db h key grant) :
    Registered db grant.clientId grant.tenantId grant.redirectUri := by
  rcases hissued with ⟨params, request, session, hvalid, _, rfl⟩
  exact registered_of_validated hvalid

end Course

section Programs

variable {deps : Deps} {db : Identity} {call : AuthCall} {α β : Type}
  {K : Knowledge (course deps db)}

/-- The parts that say nothing about requests and codes. -/
def otherParts : List Field :=
  [.ssoSessions, .sidIndex, .refreshTokens, .refreshTokenFamilies, .sidRefreshFamilies,
    .mfaPending, .users, .memberships, .mfaMethods, .sessions, .sessionClients, .audit, .outbox]

theorem knows_aside {p : AuthProg α} (hp : Touches otherParts p)
    (K : Knowledge (course deps db)) : Knows call K p fun _ => K := by
  refine knows_within hp (fun s s' h hch hi => ⟨?_, List.Subset.refl h⟩)
    (fun s h e _ hi => ⟨Inv.log hi _, List.subset_cons_self _ h⟩) K
  have hrequests : s'.authorizationRequests = s.authorizationRequests :=
    hch.same .authorizationRequests (by decide)
  have hcodes : s'.authorizationCodes = s.authorizationCodes :=
    hch.same .authorizationCodes (by decide)
  refine Inv.fewer hi hch.clients hch.tenants ?_ ?_ (List.Subset.refl h)
  · intro key e he
    rwa [hrequests] at he
  · intro key e grant he _
    rwa [hcodes] at he

/-- A program after one that does nothing to requests and codes. -/
theorem knows_after {p : AuthProg α} {f : α → AuthProg β} {Q : β → Knowledge (course deps db)}
    (hp : Touches otherParts p) (hf : ∀ a, Knows call K (f a) Q) : Knows call K (p >>= f) Q :=
  knows_bind (knows_aside hp K) hf

/-- What is looked up in the clients and the tenants is known for good. -/
theorem knows_query {f : Identity → α} {a : α}
    (hf : ∀ identity : Identity, identity.clients = db.clients → identity.tenants = db.tenants →
      f identity = a) :
    Knows call K (query f) fun r => K + fact (r = a) := by
  refine knows_atomic fun s h hi hK => ⟨hi, List.Subset.refl h, hK, ?_⟩
  have hi' : Inv deps db s h := hi
  exact hf s.identity hi'.clients hi'.tenants

/-- The client that is found is the one of the directory. -/
theorem knows_findClient (clientId : String) :
    Knows call K (findClient clientId) fun r =>
      K + fact (r = db.clients.find? (·.clientId = clientId)) :=
  knows_query fun _ hclients _ => by rw [hclients]

/-- The tenant that is found is the one of the directory. -/
theorem knows_findTenantBySlug (slug : String) :
    Knows call K (findTenantBySlug slug) fun r =>
      K + fact (r = db.tenants.find? (·.slug = slug)) :=
  knows_query fun _ _ htenants => by rw [htenants]

theorem knows_findTenantById (id : String) :
    Knows call K (findTenantById id) fun r => K + fact (r = db.tenants.find? (·.id = id)) :=
  knows_query fun _ _ htenants => by rw [htenants]

/-- The answer of the validation is the one over the directory. -/
theorem knows_result {params : RawParams}
    {r : Except AuthorizationRequestError ValidatedAuthorizationRequest}
    (h : r = validated db params) :
    Knows call K (pure r : AuthProg _) fun r => K + fact (r = validated db params) :=
  knows_pure fun _ _ hK => ⟨hK, h⟩

/-- The checks compute their result from the clients and the tenants. -/
theorem knows_validate (params : RawParams) :
    Knows call K (validateAuthorizationRequest params) fun r =>
      K + fact (r = validated db params) := by
  unfold validateAuthorizationRequest
  split
  · next hid => exact knows_result (by simp [validated, hid])
  · next hid => exact knows_result (by simp [validated, hid])
  · next clientId hne hid =>
      refine knows_bind (knows_findClient clientId) fun found => knows_fact fun hfound => ?_
      cases found with
      | none => exact knows_result (by simp [validated, hid, ← hfound])
      | some client =>
          dsimp only
          split
          · next hactive => exact knows_result (by simp [validated, hid, ← hfound, hactive])
          · next hactive =>
              split
              · next huri => exact knows_result (by simp [validated, hid, ← hfound, hactive, huri])
              · next redirectUri huri =>
                  split
                  · next hmatch =>
                      exact knows_result
                        (by simp [validated, hid, ← hfound, hactive, huri, hmatch])
                  · next tenantSlug hmatch =>
                      refine knows_bind (knows_findTenantBySlug tenantSlug) fun tenant =>
                        knows_fact fun htenant => ?_
                      cases tenant <;> exact knows_result
                        (by simp [validated, hid, ← hfound, hactive, huri, hmatch, ← htenant])

/-- A request that passed the checks is saved. -/
theorem knows_storePending {params : RawParams} {cookie : Option String}
    {environment : RequestEnvironment} {request : ValidatedAuthorizationRequest}
    (hvalid : validated db params = .ok request) :
    Knows (.authorize params cookie environment) K (storePendingAuthorization deps request)
      fun _ => K := by
  refine knows_after touches_randomToken fun rid => ?_
  refine knows_bind (Q := fun _ => K) ?_ fun _ => knows_pure (gives_refl K)
  refine knows_logged fun s h hi hK _ => ?_
  have hi' : Inv deps db s h := hi
  have hsub := List.subset_cons_self
    ((.authorize params cookie environment, .requestSaved rid) : AuthCall × Event) h
  refine ⟨⟨hi'.clients, hi'.tenants, fun key e he => ?_, ?_⟩, hsub, K.stable s h _ _ hsub hK⟩
  · rcases put_eq_some he with ⟨rfl, rfl⟩ | ⟨_, hold⟩
    · exact ⟨params, request, hvalid, ⟨cookie, environment, rid, rfl, List.mem_cons_self⟩, rfl⟩
    · exact (Inv.log hi' _).requests key e hold
  · exact (Inv.log hi' _).codes

/-- A code is issued for a request that passed the checks. -/
theorem knows_authorizeWithSession {rid : Option String}
    {request : ValidatedAuthorizationRequest} {session : SsoSession}
    {environment : RequestEnvironment}
    (hissued : ∀ s h key, K.holds s h →
      IssuedGrant deps db ((call, .codeStored rid key) :: h) key (codeGrant request session)) :
    Knows call K (authorizeWithSession deps rid request session environment) fun _ => K := by
  refine knows_after touches_checkTenantAccess fun access => ?_
  cases access with
  | error reason => exact knows_pure (gives_refl K)
  | ok user =>
      refine knows_after touches_randomToken fun codeValue => ?_
      refine knows_bind (Q := fun _ => K) ?_ fun _ => ?_
      -- The code that is stored now is issued for the request.
      · refine knows_logged fun s h hi hK _ => ?_
        have hi' : Inv deps db s h := hi
        have hsub := List.subset_cons_self
          ((call, .codeStored rid (deps.keyOf codeValue)) : AuthCall × Event) h
        refine ⟨⟨hi'.clients, hi'.tenants, (Inv.log hi' _).requests,
          fun key e grant he hgrant => ?_⟩, hsub, K.stable s h _ _ hsub hK⟩
        rcases put_eq_some he with ⟨rfl, rfl⟩ | ⟨_, hold⟩
        · cases hgrant
          exact hissued s h _ hK
        · exact (Inv.log hi' _).codes key e grant hold hgrant
      · exact knows_after (touches_touchSsoSession.mono (by decide)) fun _ =>
          knows_pure (gives_refl K)

/-- What is taken out of the store was saved. -/
def taken (deps : Deps) (db : Identity) (rid : String) :
    Option AuthorizationRequest → Knowledge (course deps db)
  | none => 0
  | some pending => savedAs deps db (deps.keyOf rid) pending

theorem knows_takeRequest (rid : String) :
    Knows call K (takeRequest deps rid) (taken deps db rid) := by
  unfold takeRequest
  split
  · exact knows_pure (gives_zero K)
  · refine knows_atomic fun s h hi _ => ?_
    have hi' : Inv deps db s h := hi
    refine ⟨hi'.fewer rfl rfl (fun key e he => (delete_eq_some he).2) (fun _ _ _ he _ => he)
      (List.Subset.refl h), List.Subset.refl h, ?_⟩
    show (taken deps db rid (Ttl.get s.authorizationRequests s.now (deps.keyOf rid))).holds _ h
    cases hget : Ttl.get s.authorizationRequests s.now (deps.keyOf rid) with
    | none => trivial
    | some pending =>
        rcases get_eq_some.mp hget with ⟨e, he, _, rfl⟩
        exact hi'.requests _ e he

/-- A resumed request is answered to where it was to be answered at once. -/
theorem knows_resumePending {rid : String} {pending : AuthorizationRequest} {session : SsoSession}
    {environment : RequestEnvironment} :
    Knows call (savedAs deps db (deps.keyOf rid) pending)
      (resumePendingAuthorization deps rid pending session environment)
      fun _ => savedAs deps db (deps.keyOf rid) pending := by
  refine knows_bind (Q := fun rows => savedAs deps db (deps.keyOf rid) pending +
    fact (rows.1 = db.clients.find? (·.clientId = pending.clientId) ∧
      rows.2 = db.tenants.find? (·.id = pending.tenantId))) ?_ fun rows => knows_fact ?_
  · refine knows_of_gives (gives_refl _) ?_
      (knows_both (knows_findClient pending.clientId) (knows_findTenantById pending.tenantId))
    rintro rows s h ⟨⟨hsaved, hclient⟩, _, htenant⟩
    exact ⟨hsaved, hclient, htenant⟩
  · rintro ⟨hclient, htenant⟩
    split
    · next client tenant hc ht =>
        -- Client and tenant are those of the request that was saved.
        have hclientId := List.find?_some (hclient.symm.trans hc)
        have htenantId := List.find?_some (htenant.symm.trans ht)
        rw [decide_eq_true_eq] at hclientId htenantId
        split
        · exact knows_pure (gives_refl _)
        · refine knows_bind (knows_authorizeWithSession ?_) fun _ => knows_pure (gives_refl _)
          rintro s h key ⟨params, request, hvalid, hsaved, rfl⟩
          refine ⟨params, request, session, hvalid,
            .resumed call rid List.mem_cons_self (hsaved.later (List.subset_cons_self _ h)), ?_⟩
          simp only [codeGrant, savedRequest, hclientId, htenantId]
    · exact knows_pure (gives_refl _)

/-- A completed login redirects nowhere, or to where a saved request named a
    client and a tenant. -/
def CompletedWell (deps : Deps) (db : Identity) (h : History) (answer : LoginAnswer) : Prop :=
  ∀ r, answer.target = some r → ∃ params client tenant key, SavedFor deps h params key ∧
    Requested db params client tenant ∧
    r.target = expandRedirectUriTemplate client.redirectUriTemplate tenant.slug

def completedWell (deps : Deps) (db : Identity) (answer : LoginAnswer) :
    Knowledge (course deps db) :=
  ofHistory (fun h => CompletedWell deps db h answer) fun s h s' h' hlead hk r hr => by
    rcases hk r hr with ⟨params, client, tenant, key, hsaved, hnamed⟩
    exact ⟨params, client, tenant, key, hsaved.later hlead, hnamed⟩

/-- A resumed login redirects to the URI of the request that was saved. -/
theorem knows_resumeLogin (result : LoginSuccess) (rid : String)
    (environment : RequestEnvironment) :
    Knows call (0 : Knowledge (course deps db)) (resumeLogin deps result rid environment)
      (completedWell deps db) := by
  refine knows_bind (knows_takeRequest rid) fun request => ?_
  cases request with
  | none => exact knows_pure fun _ _ _ => nofun
  | some pending =>
      refine knows_bind knows_resumePending fun outcome => knows_pure ?_
      rintro s h ⟨params, request, hvalid, hsaved, rfl⟩ r ⟨⟩
      rw [redirectForOutcome_target]
      rcases requested_of_validated hvalid with ⟨hreq, huri⟩
      exact ⟨params, request.client, request.tenant, _, hsaved, hreq, huri⟩

end Programs

section Calls

variable {deps : Deps} {db : Identity} {call : AuthCall}

/-- What is done to codes when they are exchanged leaves fewer of them. -/
theorem knows_takeCode (key : String) :
    Knows call (0 : Knowledge (course deps db)) (authorizationCodes.getAndDelete key : AuthProg _)
      fun _ => 0 := by
  refine knows_atomic fun s h hi _ => ⟨?_, List.Subset.refl h, trivial⟩
  exact Inv.fewer hi rfl rfl (fun _ _ he => he) (fun _ _ _ he _ => (delete_eq_some he).2)
    (List.Subset.refl h)

theorem knows_rememberConsumedCode (key familyId : String) :
    Knows call (0 : Knowledge (course deps db)) (rememberConsumedCode key familyId)
      fun _ => 0 := by
  refine knows_write fun s h hi _ => ⟨?_, List.Subset.refl h, trivial⟩
  refine Inv.fewer hi rfl rfl (fun _ _ he => he) (fun key' e grant he hgrant => ?_)
    (List.Subset.refl h)
  rcases put_eq_some he with ⟨_, rfl⟩ | ⟨_, hold⟩
  · cases hgrant
  · exact hold

/-- What is known of where an answer redirects to. -/
def answered (deps : Deps) (db : Identity) :
    (call : AuthCall) → Answer call → Knowledge (course deps db)
  | .authorize params _ _, answer => fact (AnsweredWell db params answer)
  | .postChallenge .., .ok answer => completedWell deps db answer
  | .postSetup .., .ok answer => completedWell deps db answer
  | _, _ => 0

/-- The programs behind every other request keep the invariant. -/
theorem knows_blocks
    (hcall : ∀ params cookie environment, call ≠ .authorize params cookie environment) :
    Blocks deps call fun _ p => Knows call (0 : Knowledge (course deps db)) p fun _ => 0 := by
  have hC := closed_knows (ω := Outside) (course deps db) call
  -- What stores neither requests nor codes keeps all that is known.
  have hother : ∀ {α : Type} {p : AuthProg α}, Touches otherParts p →
      Knows call (0 : Knowledge (course deps db)) p fun _ => 0 := fun hp => knows_aside hp 0
  have hper : HasPeripheral fun _ p =>
      Knows call (0 : Knowledge (course deps db)) p fun _ => 0 := fun hp =>
    hother (hp.mono (by decide))
  have hload : ∀ key, Knows call (0 : Knowledge (course deps db)) (loadSsoSessionByKey key)
      fun _ => 0 := fun _ => hother (touches_loadSsoSessionByKey.mono (by decide))
  have hdestroy : ∀ session, Knows call (0 : Knowledge (course deps db))
      (destroySsoSession session) fun _ => 0 := fun _ =>
    hother (touches_destroySsoSession.mono (by decide))
  have hrevoke : ∀ familyId, Knows call (0 : Knowledge (course deps db))
      (revokeRefreshTokenFamily familyId) fun _ => 0 := fun _ =>
    hother (touches_revokeRefreshTokenFamily.mono (by decide))
  exact
    { closed := hC
      peripheral := hper
      load := hload
      destroy := hdestroy
      create := fun _ _ _ => hother (touches_createSsoSession.mono (by decide))
      save := fun params cookie environment heq => absurd heq (hcall params cookie environment)
      authorize := fun params cookie environment heq =>
        absurd heq (hcall params cookie environment)
      resume := fun result rid environment =>
        knows_of_gives (gives_refl 0) (fun _ => gives_zero _)
          (knows_resumeLogin result rid environment)
      exchange := fun _ _ input _ client => closed_exchange hC hper hload knows_takeCode
        knows_rememberConsumedCode
        (fun _ => hother (touches_createRefreshTokenFamily.mono (by decide))) hrevoke client input
      refresh := fun _ _ value _ client => closed_refresh hC hper hload
        (fun _ => hother (touches_consumeRefreshToken.mono (by decide)))
        (fun _ => hother (touches_rotateRefreshToken.mono (by decide))) hrevoke client value
      revokeFamily := hrevoke
      revokeSession := closed_revokeSessionBySid hC hper
        (fun _ => hother (touches_findSsoSessionBySid.mono (by decide)))
        (closed_revokeFoundSession hC hper hdestroy hrevoke fun _ =>
          hother ((touches_delete onField_sidRefreshFamilies).mono (by decide)))
        (fun _ _ _ => hother (touches_markRevoked.mono (by decide)))
        (fun _ => hother (touches_emit (by decide : Field.sidIndex ∈ otherParts)))
      addMember := fun _ _ _ => hother (touches_upsertServiceMembership.mono (by decide))
      removeMember := fun _ _ _ => hother (touches_removeServiceMembership.mono (by decide)) }

/-- What follows a second factor redirects to a registered client. -/
theorem knows_finish (result : LoginSuccess) (rid : String) (cookie : Option String)
    (environment : RequestEnvironment) :
    Knows call (0 : Knowledge (course deps db)) (finish deps result rid cookie environment)
      (completedWell deps db) := by
  refine knows_after ?_ fun _ => knows_resumeLogin result rid environment
  refine touches_bind (touches_loadSsoSession.mono (by decide)) fun previous => ?_
  cases previous with
  | none => exact touches_pure _
  | some previous => exact touches_destroySsoSession.mono (by decide)

/-- The authorization endpoint answers by what the directory registers. -/
theorem knows_authorize (params : RawParams) (cookie : Option String)
    (environment : RequestEnvironment) :
    Knows (.authorize params cookie environment) (0 : Knowledge (course deps db))
      (Auth.authorize deps params cookie environment)
      fun answer => fact (AnsweredWell db params answer) := by
  refine knows_bind (knows_validate params) fun validated => knows_fact fun hvalid => ?_
  cases validated with
  | error e => exact knows_pure fun _ _ _ => answeredWell_error hvalid.symm
  | ok request =>
      -- The redirect URI is the registered one from here on.
      rcases requested_of_validated hvalid.symm with ⟨hreq, huri⟩
      refine knows_after (touches_loadSsoSession.mono (by decide)) fun session => ?_
      cases session with
      | none =>
          refine knows_bind (knows_storePending hvalid.symm) fun rid => knows_pure ?_
          exact fun _ _ _ => .inr ⟨request.client, request.tenant, hreq, nofun⟩
      | some session =>
          refine knows_bind (knows_authorizeWithSession ?_) fun outcome => knows_pure ?_
          · intro s h key _
            exact ⟨params, request, session, hvalid.symm,
              .direct cookie environment List.mem_cons_self, rfl⟩
          · refine fun _ _ _ => .inr ⟨request.client, request.tenant, hreq, ?_⟩
            rintro r ⟨⟩
            rw [redirectForOutcome_target]
            exact huri

/-- Every request is answered well. -/
theorem knows_body (call : AuthCall) :
    Knows call (0 : Knowledge (course deps db)) (AuthCall.body deps call)
      (answered deps db call) := by
  cases call with
  | authorize params cookie environment => exact knows_authorize params cookie environment
  | postChallenge pendingId code cookie environment =>
      refine knows_bind ((knows_blocks (by rintro _ _ _ ⟨⟩)).outline.completeTotpChallenge _ _ _)
        fun completed => ?_
      cases completed with
      | error e => exact knows_pure fun _ _ _ => trivial
      | ok completed => exact knows_bind (knows_finish _ _ _ _) fun _ => knows_pure (gives_refl _)
  | postSetup pendingId code cookie environment =>
      refine knows_bind ((knows_blocks (by rintro _ _ _ ⟨⟩)).outline.completeTotpSetup _ _ _)
        fun completed => ?_
      cases completed with
      | error e => exact knows_pure fun _ _ _ => trivial
      | ok completed => exact knows_bind (knows_finish _ _ _ _) fun _ => knows_pure (gives_refl _)
  | _ =>
      exact knows_of_gives (gives_refl 0) (fun _ _ _ _ => trivial)
        (knows_blocks (by rintro _ _ _ ⟨⟩)).body

end Calls

section Runs

variable {deps : Deps} {db : Identity}

theorem inv_start (now : Int) : Inv deps db (State.start now db) [] where
  clients := rfl
  tenants := rfl
  requests _ _ he := nomatch he
  codes _ _ _ he := nomatch he

/-- Time passes, and the operator leaves the clients and the tenants alone. -/
theorem inv_env {s s' : State} {h : History} {t : Change}
    (ht : (settledSystem deps).env t s = some s') (hi : Inv deps db s h) : Inv deps db s' h := by
  rcases Option.filter_eq_some_iff.mp ht with ⟨happly, hsame⟩
  rw [decide_eq_true_eq] at hsame
  rcases apply_cases happly with ⟨seconds, rfl⟩ | ⟨identity, _, _, rfl⟩
  · exact hi.fewer rfl rfl (fun _ _ he => he) (fun _ _ _ he _ => he) (List.Subset.refl h)
  · exact hi.fewer hsame.1 hsame.2 (fun _ _ he => he) (fun _ _ _ he _ => he)
      (List.Subset.refl h)

/-- The server redirects only to registered clients. In every run with the
    same clients and tenants, every stored request and every unused code has
    the redirect URI of a registered, active client and tenant; every answer
    of the authorization endpoint that is not an error page is to a request
    that names them, and every redirect is to their redirect URI. A code
    stands for the request it was issued for and a session, in the same way
    whether it was issued at once or for the saved request. -/
theorem redirects_registered (deps : Deps) (db : Identity) (now : Int)
    (p : Pool State Outside Event AuthCall Answer)
    (h : Reachable (settledSystem deps) anyStep (State.start now db) p) :
    (∀ key e, p.store.authorizationRequests key = some e →
      Registered db e.value.clientId e.value.tenantId e.value.redirectUri) ∧
    (∀ key e grant, p.store.authorizationCodes key = some e → e.value = .unused grant →
      Registered db grant.clientId grant.tenantId grant.redirectUri ∧
        ∃ params request session, validated db params = .ok request ∧
          IssuedFor deps p.trace params key ∧ grant = codeGrant request session) ∧
    (∀ (i : Nat) params cookie environment answer,
      p.threads[i]? = some ⟨.authorize params cookie environment, .done answer⟩ →
        AnsweredWell db params answer) ∧
    (∀ (i : Nat) pendingId code cookie environment answer,
      p.threads[i]? = some ⟨.postChallenge pendingId code cookie environment,
          .done (.ok answer)⟩ ∨
        p.threads[i]? = some ⟨.postSetup pendingId code cookie environment,
          .done (.ok answer)⟩ →
        CompletedWell deps db p.trace answer) := by
  -- Every call of the run ends with what its answer claims.
  have hok := knowing_of_reachable (S := settledSystem deps)
    (answered deps db) knows_body (fun s h t s' ht hi => ⟨inv_env ht hi, List.Subset.refl h⟩)
    (inv_start now) h
  have hinv : Inv deps db p.store p.trace := by
    rcases hok with ⟨Ks, _, hinv⟩
    exact hinv.1
  refine ⟨?_, ?_, ?_, ?_⟩
  · exact fun key e he => registered_of_saved (hinv.requests key e he)
  -- A code is stored only for a request that was validated.
  · intro key e grant he hgrant
    have hissued := hinv.codes key e grant he hgrant
    exact ⟨registered_of_issued hissued, hissued⟩
  · intro i params cookie environment answer hi
    exact finished_knows hok hi
  · intro i pendingId code cookie environment answer hi
    rcases hi with hi | hi
    · exact finished_knows hok hi
    · exact finished_knows hok hi

end Runs

section Example

/-- A request without a session is saved, and resumed after the login. -/
def resumedMoves : Moves :=
  [.spawn (.authorize crmParams none browser)] ++ turns 0 2 ++ [.run 0 (.random rid1)] ++
  turns 0 1 ++
  [.spawn (.postLogin ⟨"alice@example.com", "password"⟩ browser rid1)] ++ turns 1 1 ++
  [.run 1 (.authenticated (.ok (.totpRequired "session" "alice"))),
    .run 1 (.random pendingId1)] ++ turns 1 1 ++
  [.spawn (.postChallenge pendingId1 "123456" none browser)] ++ turns 2 1 ++
  [.run 2 (.totp (.ok ⟨"alice-sub", "alice@example.com", none, cognitoTokens⟩))] ++
  turns 2 5 ++
  [.run 2 (.random cookie1), .run 2 (.random sid1), .run 2 (.random "iv")] ++ turns 2 6 ++
  [.run 2 (.audit "event" true)] ++ turns 2 9 ++ [.run 2 (.random code1)] ++ turns 2 1

def isUnused : AuthorizationCode → Bool
  | .unused _ => true
  | .used _ => false

/-- The code that the resumed request is answered with is for the service and
    the tenant of the request. -/
theorem alice_is_redirected :
    ∃ p, Reachable (settledSystem smallDeps) anyStep smallStart p ∧
      ∃ key e grant, p.store.authorizationCodes key = some e ∧ e.value = .unused grant ∧
        Registered smallIdentity grant.clientId grant.tenantId grant.redirectUri := by
  rcases reachable_of_play_any (settledSystem smallDeps) anyStep smallStart resumedMoves
    (fun p => (p.store.authorizationCodes (smallDeps.keyOf code1)).any (isUnused ·.value))
    (by decide +kernel) with ⟨p, hp, htest⟩
  rcases (Option.any_eq_true _ _).mp htest with ⟨e, he, hunused⟩
  cases hvalue : e.value with
  | unused grant =>
      have hcodes := (redirects_registered smallDeps smallIdentity 1000 p hp).2.1
      exact ⟨p, hp, _, e, grant, he, hvalue, (hcodes _ e grant he hvalue).1⟩
  | used familyId =>
      rw [hvalue] at hunused
      cases hunused

end Example

end Sandbox.Auth.Redirects
