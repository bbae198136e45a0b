import Sandbox.Auth.Blocks
import Sandbox.Auth.SignedTokens
import Sandbox.Interleave.Knowledge

/-!
# Where Codes Come From

A code goes from the request it is issued for through a store to whoever
presents it. In between there may be a login, and any other requests run at
the same time. Every code that can be exchanged was asked for with its client,
its redirect URI, its nonce and its challenge in one authorization request.
It was issued under a session by the call that answered this request: the
request itself, under the session whose cookie came with it, or the login
that resumed the request, under the session that this login has opened.

So when tokens are given for a code they answer that request. Whoever presents
the code has to know the verifier of the request's challenge, and the tokens
carry the request's nonce and name the user of the session that answered it.

An operator may change the database at any time, but a tenant keeps its slug.

## Main definitions

* `steadySystem`: The server, whose tenants keep their slugs.
* `AsksFor`: What a request asks for.
* `AnsweredBy`: The call that answered a request with a code, and its session.
* `course`: What programs keep and learn.
* `LoggedIn`: What tokens for a code say.

## Theorems

* `knows_issue`: A code is issued for what was asked.
* `knows_exchange`: Tokens are given for what was asked.
* `tokens_answer_requests`: In every run, all tokens for codes answer requests.
-/

namespace Sandbox.Auth.CodeOrigins

open Interleave Ttl Knowledge

abbrev History : Type := List (AuthCall × Event)

/-- The tenants with their slugs. -/
def slugs (db : Identity) : List (String × String) :=
  db.tenants.map fun tenant => (tenant.id, tenant.slug)

/-- The server, whose tenants keep their slugs. -/
def steadySystem (deps : Deps) : System State Outside Event AuthCall Change Answer where
  body := AuthCall.body deps
  env change s := (change.apply s).filter fun s' =>
    decide (slugs s.identity ⊆ slugs s'.identity)

section Records

/-- The client and the redirect URI that a request is made for, its nonce and its
    challenge. -/
structure AsksFor (params : RawParams) (clientId redirectUri nonce codeChallenge : String) :
    Prop where
  clientId : params.clientId = some clientId
  redirectUri : params.redirectUri = some redirectUri
  nonce : params.nonce = some nonce
  codeChallenge : params.codeChallenge = some codeChallenge

/-- A session was opened by a login. What changes of a session later is neither
    its key nor its `sid` nor its user. -/
def OpenedBy (h : History) (call : AuthCall) (id sid userId : String) : Prop :=
  ∃ x, (call, .sessionStored x) ∈ h ∧ x.id = id ∧ x.sid = sid ∧ x.userId = userId

/-- A code was issued under a key in answer to a request with these parameters,
    under the session that its cookie stands for, or under the one that the
    login has opened which has resumed it. -/
inductive AnsweredBy (deps : Deps) (h : History) (params : RawParams) (key sid userId : String) :
    Prop
  | direct (value : String) (environment : RequestEnvironment) (login : AuthCall)
      (issued : (.authorize params (some value) environment, .codeStored none key) ∈ h)
      (opened : OpenedBy h login (deps.keyOf value) sid userId)
  | resumed (cookie : Option String) (environment : RequestEnvironment) (login : AuthCall)
      (rid rid' id : String) (saved : (.authorize params cookie environment, .requestSaved rid) ∈ h)
      (issued : (login, .codeStored (some rid') key) ∈ h) (hrid : deps.keyOf rid' = deps.keyOf rid)
      (opened : OpenedBy h login id sid userId)

/-- A saved request was made with what it asks for. -/
def WasSaved (deps : Deps) (h : History) (key : String) (request : AuthorizationRequest) : Prop :=
  ∃ params cookie environment rid,
    (.authorize params cookie environment, .requestSaved rid) ∈ h ∧ deps.keyOf rid = key ∧
      AsksFor params request.clientId request.redirectUri request.nonce request.codeChallenge

/-- A session was opened. -/
def WasOpened (h : History) (x : SsoSession) : Prop :=
  ∃ call, OpenedBy h call x.id x.sid x.userId

/-- A code answers a request that asks for what it stands for. -/
def GrantAnswered (deps : Deps) (h : History) (key : String) (grant : CodeGrant) : Prop :=
  ∃ params, AsksFor params grant.clientId grant.redirectUri grant.nonce grant.codeChallenge ∧
    AnsweredBy deps h params key grant.sid grant.userId

variable {deps : Deps} {h h' : History} {params : RawParams} {call : AuthCall}
  {key id sid userId : String}

/-- A session that was opened stays so in every longer history. -/
theorem OpenedBy.later (hopened : OpenedBy h call id sid userId) (hh : h ⊆ h') :
    OpenedBy h' call id sid userId :=
  hopened.imp fun _ hx => ⟨hh hx.1, hx.2⟩

theorem WasOpened.later {x : SsoSession} (hopened : WasOpened h x) (hh : h ⊆ h') :
    WasOpened h' x :=
  hopened.imp fun _ hcall => hcall.later hh

/-- A request that was saved stays so in every longer history. -/
theorem WasSaved.later {request : AuthorizationRequest} (hsaved : WasSaved deps h key request)
    (hh : h ⊆ h') : WasSaved deps h' key request := by
  rcases hsaved with ⟨params, cookie, environment, rid, hmem, hrest⟩
  exact ⟨params, cookie, environment, rid, hh hmem, hrest⟩

/-- A request that was answered stays so in every longer history. -/
theorem AnsweredBy.later (hanswered : AnsweredBy deps h params key sid userId) (hh : h ⊆ h') :
    AnsweredBy deps h' params key sid userId := by
  cases hanswered with
  | direct value environment login issued opened =>
      exact .direct value environment login (hh issued) (opened.later hh)
  | resumed cookie environment login rid rid' id saved issued hrid opened =>
      exact .resumed cookie environment login rid rid' id (hh saved) (hh issued) hrid
        (opened.later hh)

/-- The request behind a grant stays answered in every longer history. -/
theorem GrantAnswered.later {grant : CodeGrant} (hanswered : GrantAnswered deps h key grant)
    (hh : h ⊆ h') : GrantAnswered deps h' key grant :=
  hanswered.imp fun _ hparams => ⟨hparams.1, hparams.2.later hh⟩

/-- What is stored was asked for and answered, and sessions lie under their
    keys and were opened. -/
structure Inv (deps : Deps) (s : State) (h : History) : Prop where
  requests : ∀ k e, s.authorizationRequests k = some e → WasSaved deps h k e.value
  codes : ∀ k e grant, s.authorizationCodes k = some e → e.value = .unused grant →
    GrantAnswered deps h k grant
  sessions : ∀ k e, s.ssoSessions k = some e → e.value.id = k ∧ WasOpened h e.value

/-- Programs keep the invariant, and they forget neither what happened nor a
    tenant. -/
def course (deps : Deps) : Course State Event AuthCall where
  guard := anyStep
  Inv := Inv deps
  Leads s h s' h' := h ⊆ h' ∧ slugs s.identity ⊆ slugs s'.identity

theorem inv_fewer {s s' : State} (hi : Inv deps s h)
    (hrequests : ∀ k e, s'.authorizationRequests k = some e → s.authorizationRequests k = some e)
    (hcodes : ∀ k e grant, s'.authorizationCodes k = some e → e.value = .unused grant →
      s.authorizationCodes k = some e)
    (hsessions : ∀ k e, s'.ssoSessions k = some e → s.ssoSessions k = some e) (hh : h ⊆ h') :
    Inv deps s' h' where
  requests k e he := (hi.requests k e (hrequests k e he)).later hh
  codes k e grant he hgrant := (hi.codes k e grant (hcodes k e grant he hgrant) hgrant).later hh
  sessions k e he :=
    ⟨(hi.sessions k e (hsessions k e he)).1, (hi.sessions k e (hsessions k e he)).2.later hh⟩

theorem inv_log {s : State} (hi : Inv deps s h) (x : AuthCall × Event) : Inv deps s (x :: h) :=
  inv_fewer hi (fun _ _ he => he) (fun _ _ _ he _ => he) (fun _ _ he => he)
    (List.subset_cons_self x h)

/-- A session that was opened is stored under its key. -/
theorem inv_storeSession {s : State} (hi : Inv deps s h) {e : Event} {x : SsoSession} {ttl : Int}
    (hid : x.id = key) (hopened : WasOpened ((call, e) :: h) x) :
    Inv deps (ssoSessions.replace (Ttl.set s.ssoSessions s.now key x ttl) s)
      ((call, e) :: h) where
  requests := (inv_log hi _).requests
  codes := (inv_log hi _).codes
  sessions k entry he := by
    rcases put_eq_some he with ⟨rfl, rfl⟩ | ⟨_, hold⟩
    · exact ⟨hid, hopened⟩
    · exact (inv_log hi _).sessions k entry hold

theorem leads_same {s s' : State} (hh : h ⊆ h')
    (hdb : s'.identity.tenants = s.identity.tenants) : (course deps).Leads s h s' h' := by
  refine ⟨hh, ?_⟩
  unfold slugs
  rw [hdb]
  exact List.Subset.refl _

/-- A request was made. -/
def asked (deps : Deps) (key : String) (request : AuthorizationRequest) :
    Knowledge (course deps) :=
  ofHistory (WasSaved deps · key request) fun _ _ _ _ hlead hk => hk.later hlead.1

/-- A session was opened. -/
def opened (deps : Deps) (x : SsoSession) : Knowledge (course deps) :=
  ofHistory (WasOpened · x) fun _ _ _ _ hlead hk => hk.later hlead.1

/-- A session was opened by this call. -/
def opening (deps : Deps) (c : AuthCall) (x : SsoSession) : Knowledge (course deps) :=
  ofHistory (OpenedBy · c x.id x.sid x.userId) fun _ _ _ _ hlead hk => hk.later hlead.1

/-- The session of a login was opened by its call. -/
theorem opening_gives (c : AuthCall) (x : SsoSession) :
    (opening deps c x).Gives (opened deps x) :=
  fun _ _ h => ⟨c, h⟩

/-- A code answers a request. -/
def granted (deps : Deps) (key : String) (grant : CodeGrant) : Knowledge (course deps) :=
  ofHistory (GrantAnswered deps · key grant) fun _ _ _ _ hlead hk => hk.later hlead.1

/-- A tenant has a slug. -/
def named (deps : Deps) (tenantId slug : String) : Knowledge (course deps) where
  holds s _ := (tenantId, slug) ∈ slugs s.identity
  stable _ _ _ _ hlead hk := hlead.2 hk

end Records

section Sessions

variable {deps : Deps} {c : AuthCall} {K : Knowledge (course deps)} {α β : Type}

/-- The parts that say nothing about requests, codes and sessions. -/
def otherParts : List Field :=
  [.sidIndex, .refreshTokens, .refreshTokenFamilies, .sidRefreshFamilies, .mfaPending, .users,
    .memberships, .mfaMethods, .sessions, .sessionClients, .audit, .outbox]

/-- A program on other fields keeps what is known. -/
theorem knows_aside {p : AuthProg α} (hp : Touches otherParts p) (K : Knowledge (course deps)) :
    Knows c K p fun _ => K := by
  refine knows_within hp (fun s s' h hch hi => ⟨?_, ?_⟩)
    (fun s h e _ hi => ⟨inv_log hi _, leads_same (List.subset_cons_self _ h) rfl⟩) K
  · refine inv_fewer hi ?_ ?_ ?_ (List.Subset.refl h)
    · exact fun k e he => (hch.same .authorizationRequests (by decide) ▸ he : _)
    · exact fun k e _ he _ => (hch.same .authorizationCodes (by decide) ▸ he : _)
    · exact fun k e he => (hch.same .ssoSessions (by decide) ▸ he : _)
  · exact leads_same (List.Subset.refl h) hch.tenants

/-- What follows a program on other fields starts from what was known. -/
theorem knows_after {p : AuthProg α} {f : α → AuthProg β} {Q : β → Knowledge (course deps)}
    (hp : Touches otherParts p) (hf : ∀ a, Knows c K (f a) Q) : Knows c K (p >>= f) Q :=
  knows_bind (knows_aside hp K) hf

/-- Deleting a session. -/
theorem knows_deleteSession (key : String) :
    Knows c K (ssoSessions.delete key : AuthProg _) fun _ => K := by
  refine knows_write fun s h hi hK => ?_
  have hlead : (course deps).Leads s h (ssoSessions.replace (Ttl.delete s.ssoSessions key) s) h :=
    leads_same (List.Subset.refl h) rfl
  refine ⟨inv_fewer hi (fun _ _ he => he) (fun _ _ _ he _ => he)
    (fun _ _ he => (delete_eq_some he).2) (List.Subset.refl h), hlead, K.stable _ _ _ _ hlead hK⟩

theorem knows_destroySsoSession (session : SsoSession) :
    Knows c K (destroySsoSession session) fun _ => K := by
  refine knows_bind (Q := fun _ => K) ?_ fun _ => knows_pure (gives_refl K)
  refine knows_of_gives (gives_refl K) (fun _ => add_gives_left K K)
    (knows_both (knows_deleteSession _) (knows_aside ?_ K))
  exact (touches_delete onField_sidIndex).mono (by decide)

/-- A session that is found was opened. -/
theorem knows_loadByKey (key : String) :
    Knows c K (loadSsoSessionByKey key) fun a =>
      K + a.elim 0 fun x => opened deps x + fact (x.id = key) := by
  refine knows_bind
      (Q := fun stored => K + stored.elim 0 fun x => opened deps x + fact (x.id = key))
    ?_ fun stored => ?_
  · refine knows_atomic fun s h hi hK => ⟨hi, leads_same (List.Subset.refl h) rfl, hK, ?_⟩
    show ((Ttl.get s.ssoSessions s.now key).elim 0
      fun x => opened deps x + fact (x.id = key)).holds s h
    cases hget : Ttl.get s.ssoSessions s.now key with
    | none => trivial
    | some x =>
        rcases get_eq_some.mp hget with ⟨e, he, _, rfl⟩
        rcases Inv.sessions hi key e he with ⟨hid, hopened⟩
        exact ⟨hopened, hid⟩
  -- A session that has run out is destroyed, and the caller is told of none.
  · cases stored with
    | none => exact knows_pure (gives_refl _)
    | some session =>
        refine knows_after touches_nowSeconds fun now => ?_
        split
        · refine knows_bind (knows_destroySsoSession session) fun _ => knows_pure ?_
          exact fun s h hK => ⟨hK.1, trivial⟩
        · exact knows_pure (gives_refl _)

/-- The session that a cookie stands for lies under its digest. -/
theorem knows_loadSession (cookie : Option String) :
    Knows c K (loadSsoSession deps cookie) fun a => K + a.elim 0 fun x =>
      opened deps x + fact (∃ value, cookie = some value ∧ x.id = deps.keyOf value) := by
  cases cookie with
  | none => exact knows_pure fun s h hK => ⟨hK, trivial⟩
  | some value =>
      unfold loadSsoSession
      dsimp only
      split
      · exact knows_pure fun s h hK => ⟨hK, trivial⟩
      · refine knows_of_gives (gives_refl _) (fun found => ?_) (knows_loadByKey _)
        cases found with
        | none => exact gives_refl _
        | some x => exact fun s h hK => ⟨hK.1, hK.2.1, value, rfl, hK.2.2⟩

/-- A session is opened for the user who has logged in. -/
theorem knows_createSsoSession (user : User) (authenticated : CognitoAuthenticated)
    (environment : RequestEnvironment) :
    Knows c (0 : Knowledge (course deps)) (createSsoSession deps user authenticated environment)
      fun a => opening deps c a.session := by
  refine knows_after touches_nowSeconds fun now => ?_
  refine knows_after touches_randomToken fun cookieValue => ?_
  refine knows_after touches_randomToken fun sid => ?_
  refine knows_after touches_randomIv fun iv => ?_
  dsimp only
  generalize hx : SsoSession.mk _ _ _ _ _ _ _ = x
  have hid : x.id = deps.keyOf cookieValue := by rw [← hx]
  refine knows_bind (Q := fun _ => opening deps c x) ?_ fun _ => knows_pure (gives_refl _)
  refine knows_of_gives (gives_refl 0) (fun _ => add_gives_left _ _)
    (knows_both (Q := fun _ => opening deps c x) ?_ (knows_aside ?_ 0))
  -- Storing it is the call's own opening of the session.
  · refine knows_logged fun s h hi _ _ => ?_
    have hopened : OpenedBy ((c, .sessionStored x) :: h) c x.id x.sid x.userId :=
      ⟨x, List.mem_cons_self, rfl, rfl, rfl⟩
    exact ⟨inv_storeSession hi hid ⟨c, hopened⟩,
      leads_same (List.subset_cons_self _ h) rfl, hopened⟩
  · refine touches_both ((touches_setLogged onField_sidIndex rfl).mono (by decide)) ?_
    exact touches_sessionsCreate.mono (by decide)

/-- Touching a session keeps its key, its `sid` and its user. -/
theorem knows_touchSsoSession (session : SsoSession) (client : OidcClient) (tenantId : String)
    (environment : RequestEnvironment) :
    Knows c (K + opened deps session) (touchSsoSession session client tenantId environment)
      fun _ => K + opened deps session := by
  refine knows_after touches_nowSeconds fun now => ?_
  dsimp only
  refine knows_bind (Q := fun _ => K + opened deps session) ?_ fun answers => ?_
  · refine knows_of_gives (gives_refl _) (fun _ => add_gives_left _ _)
      (knows_both (knows_aside (touches_sessionsTouch.mono (by decide)) _) (Q := fun _ => _)
        (R := fun _ => K + opened deps session) ?_)
    refine knows_of_gives (gives_refl _) (fun _ => add_gives_left _ _)
      (knows_both (Q := fun _ => K + opened deps session) ?_
        (knows_aside (touches_recordClient.mono (by decide)) _))
    -- The touched session was opened by the login that opened it.
    refine knows_logged fun s h hi hK _ => ?_
    have hopened : WasOpened ((c, .sessionTouched { session with lastSeenAt := now }) :: h)
        { session with lastSeenAt := now } :=
      WasOpened.later hK.2 (List.subset_cons_self _ h)
    exact ⟨inv_storeSession hi rfl hopened, leads_same (List.subset_cons_self _ h) rfl,
      (K + opened deps session).stable s h _ _ (leads_same (List.subset_cons_self _ h) rfl) hK⟩
  · split
    · exact knows_pure (gives_refl _)
    · split
      · refine knows_after (touches_recordAudit.mono (by decide)) fun _ => ?_
        exact knows_pure (gives_refl _)
      · exact knows_pure (gives_refl _)

end Sessions

section Checks

variable {params : RawParams} {request : ValidatedAuthorizationRequest}

/-- A request that passed the checks asks for what its parameters say. -/
abbrev Asks (params : RawParams) (request : ValidatedAuthorizationRequest) : Prop :=
  AsksFor params request.client.clientId request.redirectUri request.nonce request.codeChallenge

/-- The last part of the checks takes the nonce and the challenge from the
    parameters. -/
theorem validateParams_asks {client : OidcClient} {redirectUri : String} {tenant : Tenant}
    (hclient : params.clientId = some client.clientId)
    (huri : params.redirectUri = some redirectUri)
    (h : validateParams client redirectUri tenant params = .ok request) : Asks params request := by
  unfold validateParams at h
  dsimp only at h
  split at h
  · cases h
  split at h
  · cases h
  · cases h
  split at h
  · cases h
  · cases h
  · next nonce _ hnonce =>
      split at h
      · cases h
      split at h
      · cases h
      · next codeChallenge hchallenge =>
          -- The scopes are left, and they say nothing about these parameters.
          repeat' split at h
          all_goals first | cases h; exact ⟨hclient, huri, hnonce, hchallenge⟩ | cases h

/-- The client that is found has the id that was asked for. -/
theorem answers_findClient (clientId : String) :
    Answers (findClient clientId) fun found => ∀ client, found = some client →
      client.clientId = clientId := by
  rintro i s b s' ⟨⟩ client hfound
  simpa using List.find?_some hfound

/-- The tenant that is found has the id that was asked for. -/
theorem answers_findTenantById (id : String) :
    Answers (findTenantById id) fun found => ∀ tenant, found = some tenant → tenant.id = id := by
  rintro i s b s' ⟨⟩ tenant hfound
  simpa using List.find?_some hfound

/-- The user that is found has the id that was asked for. -/
theorem answers_findUserById (id : String) :
    Answers (findUserById id) fun found => ∀ user, found = some user → user.id = id := by
  rintro i s b s' ⟨⟩ user hfound
  simpa using List.find?_some hfound

/-- A validated request asks for what its parameters ask. -/
theorem answers_validate (params : RawParams) :
    Answers (validateAuthorizationRequest params) fun r => ∀ request, r = .ok request →
      Asks params request := by
  unfold validateAuthorizationRequest
  split
  · exact answers_pure fun _ h => nomatch h
  · exact answers_pure fun _ h => nomatch h
  · next clientId _ hclientId =>
      refine answers_bind (answers_findClient clientId) fun found hfound => ?_
      cases found with
      | none => exact answers_pure fun _ h => nomatch h
      | some client =>
          -- The client that is found is the one of the parameters.
          have hclient : params.clientId = some client.clientId := by
            rw [hfound client rfl]
            exact hclientId
          dsimp only
          split
          · exact answers_pure fun _ h => nomatch h
          split
          · exact answers_pure fun _ h => nomatch h
          · next redirectUri huri =>
              split
              · exact answers_pure fun _ h => nomatch h
              · refine answers_then fun tenant => ?_
                cases tenant with
                | none => exact answers_pure fun _ h => nomatch h
                | some tenant => exact answers_pure fun _ h => validateParams_asks hclient huri h

/-- A client that authenticates is the one whose id it presents. -/
theorem answers_authenticateClient (deps : Deps) (clientId clientSecret : String) :
    Answers (authenticateClient deps clientId clientSecret) fun found =>
      ∀ client, found = some client → client.clientId = clientId := by
  refine answers_bind (answers_findClient clientId) fun found hfound => ?_
  cases found with
  | none => exact answers_pure fun _ h => nomatch h
  | some client =>
      dsimp only
      split
      · exact answers_pure fun _ h => nomatch h
      · split
        · exact answers_pure hfound
        · exact answers_pure fun _ h => nomatch h

end Checks

section Codes

variable {deps : Deps} {c : AuthCall} {K : Knowledge (course deps)}
  {request : ValidatedAuthorizationRequest}
  {session : SsoSession} {environment : RequestEnvironment}

/-- A code is issued in answer to a request. -/
theorem knows_issue {rid : Option String}
    (hanswered : ∀ s h key, (K + opened deps session).holds s h →
      GrantAnswered deps ((c, .codeStored rid key) :: h) key (codeGrant request session)) :
    Knows c (K + opened deps session)
      (authorizeWithSession deps rid request session environment)
      fun _ => (0 : Knowledge (course deps)) := by
  refine knows_after touches_checkTenantAccess fun access => ?_
  cases access with
  | error reason => exact knows_pure (gives_zero _)
  | ok user =>
      refine knows_after touches_randomToken fun codeValue => ?_
      refine knows_bind (Q := fun _ => K + opened deps session) ?_ fun _ => ?_
      -- The code that is stored now was answered to the request.
      · refine knows_logged fun s h hi hK _ => ?_
        have hsub := List.subset_cons_self
          ((c, .codeStored rid (deps.keyOf codeValue)) : AuthCall × Event) h
        refine ⟨⟨(inv_log hi _).requests, fun k e grant he hgrant => ?_, (inv_log hi _).sessions⟩,
          leads_same hsub rfl,
          (K + opened deps session).stable s h _ _ (leads_same hsub rfl) hK⟩
        rcases put_eq_some he with ⟨rfl, rfl⟩ | ⟨_, hold⟩
        · cases hgrant
          exact hanswered s h _ hK
        · exact (inv_log hi _).codes k e grant hold hgrant
      · refine knows_bind (knows_touchSsoSession session _ _ environment) fun _ => ?_
        exact knows_pure (gives_zero _)

/-- A request is saved with what it asks for. -/
theorem knows_savePending {params : RawParams} {cookie : Option String}
    (hc : c = .authorize params cookie environment) (hasks : Asks params request) :
    Knows c K (storePendingAuthorization deps request) fun _ => K := by
  refine knows_after touches_randomToken fun rid => ?_
  refine knows_bind (Q := fun _ => K) ?_ fun _ => knows_pure (gives_refl K)
  refine knows_logged fun s h hi hK _ => ?_
  have hsub := List.subset_cons_self ((c, .requestSaved rid) : AuthCall × Event) h
  refine ⟨⟨fun k e he => ?_, (inv_log hi _).codes, (inv_log hi _).sessions⟩, leads_same hsub rfl,
    K.stable s h _ _ (leads_same hsub rfl) hK⟩
  rcases put_eq_some he with ⟨rfl, rfl⟩ | ⟨_, hold⟩
  · subst hc
    exact ⟨params, cookie, environment, rid, List.mem_cons_self, rfl, hasks⟩
  · exact (inv_log hi _).requests k e hold

/-- `GET /authorize`, with and without a session. -/
theorem knows_authorize (params : RawParams) (cookie : Option String)
    (hc : c = .authorize params cookie environment) :
    Knows c (0 : Knowledge (course deps)) (Auth.authorize deps params cookie environment)
      fun _ => 0 := by
  refine knows_bind (knows_answers (knows_aside touches_validateAuthorizationRequest 0)
    (answers_validate params)) fun validated => knows_fact fun hasks => ?_
  cases validated with
  | error e => exact knows_pure (gives_zero _)
  | ok request =>
      refine knows_bind (knows_loadSession cookie) fun found => ?_
      cases found with
      | none =>
          refine knows_bind (knows_savePending hc (hasks request rfl)) fun rid => ?_
          exact knows_pure (gives_zero _)
      | some x =>
          refine knows_of_gives (K := opened deps x +
            fact (∃ value, cookie = some value ∧ x.id = deps.keyOf value)) ?_
            (fun _ => gives_refl _) (knows_fact fun hcookie => ?_)
          · exact fun s h hK => hK.2
          -- The code is for the session of the cookie.
          rcases hcookie with ⟨value, rfl, hid⟩
          refine knows_bind (knows_of_gives (K := 0 + opened deps x) ?_ (fun _ => gives_refl _)
            (knows_issue ?_)) fun outcome => knows_pure (gives_refl _)
          · exact fun s h hK => ⟨trivial, hK⟩
          rintro s h key ⟨_, login, hopened⟩
          rw [hid] at hopened
          refine ⟨params, hasks request rfl, .direct value environment login ?_
            (hopened.later (List.subset_cons_self _ h))⟩
          rw [hc]
          exact List.mem_cons_self

/-- A saved request that is taken out was made. -/
theorem knows_takeRequest (rid : String) :
    Knows c K (takeRequest deps rid) fun a => K + a.elim 0 (asked deps (deps.keyOf rid)) := by
  unfold takeRequest
  split
  · exact knows_pure fun s h hK => ⟨hK, trivial⟩
  · refine knows_atomic fun s h hi hK => ?_
    have hlead : ∀ m, (course deps).Leads s h { s with authorizationRequests := m } h :=
      fun m => leads_same (List.Subset.refl h) rfl
    refine ⟨inv_fewer hi (fun k e he => (delete_eq_some he).2) (fun _ _ _ he _ => he)
      (fun _ _ he => he) (List.Subset.refl h), hlead _, K.stable s h _ _ (hlead _) hK, ?_⟩
    show ((Ttl.get s.authorizationRequests s.now (deps.keyOf rid)).elim 0
      (asked deps (deps.keyOf rid))).holds _ h
    cases hget : Ttl.get s.authorizationRequests s.now (deps.keyOf rid) with
    | none => trivial
    | some pending =>
        rcases get_eq_some.mp hget with ⟨e, he, _, rfl⟩
        exact Inv.requests hi _ e he

/-- A resumed request asks for what it asked for when it was saved, and is
    answered under the session that the login has opened. -/
theorem knows_resume (pending : AuthorizationRequest) (rid : String) :
    Knows c (opening deps c session + asked deps (deps.keyOf rid) pending)
      (resumePendingAuthorization deps rid pending session environment)
      fun _ => (0 : Knowledge (course deps)) := by
  refine knows_bind (knows_answers (knows_aside (touches_both touches_query touches_query) _)
    (answers_both (answers_findClient pending.clientId) (answers_findTenantById _)))
    fun rows => knows_fact fun hrows => ?_
  rcases rows with ⟨_ | client, _ | tenant⟩
  · exact knows_pure (gives_zero _)
  · exact knows_pure (gives_zero _)
  · exact knows_pure (gives_zero _)
  · dsimp only
    split
    · exact knows_pure (gives_zero _)
    · have hclient : client.clientId = pending.clientId := hrows.1 client rfl
      refine knows_bind (knows_of_gives
        (K := opening deps c session + asked deps (deps.keyOf rid) pending + opened deps session)
        ?_ (fun _ => gives_refl _) (knows_issue ?_)) fun _ => knows_pure (gives_zero _)
      · exact fun s h hK => ⟨hK, opening_gives c session s h hK.1⟩
      -- The request that was put aside asked for what the code grants.
      · rintro s h key ⟨⟨hopened, params, cookie, environment', rid', hsaved, hrid, hasks⟩, _⟩
        have hsub := List.subset_cons_self ((c, .codeStored (some rid) key) : AuthCall × Event) h
        refine ⟨params, ?_, .resumed cookie environment' c rid' rid session.id (hsub hsaved)
          List.mem_cons_self hrid.symm (hopened.later hsub)⟩
        rw [← hclient] at hasks
        exact hasks

/-- The end of a login stores a code for the session of that login. -/
theorem knows_finish (result : LoginSuccess) (rid : String) (cookie : Option String) :
    Knows c (opening deps c result.session) (finish deps result rid cookie environment)
      fun _ => (0 : Knowledge (course deps)) := by
  refine knows_bind (Q := fun _ => opening deps c result.session) ?_ fun _ => ?_
  · refine knows_bind (knows_loadSession cookie) fun previous => ?_
    cases previous with
    | none => exact knows_pure (add_gives_left _ _)
    | some previous =>
        exact knows_of_gives (gives_refl _) (fun _ => add_gives_left _ _)
          (knows_destroySsoSession previous)
  · refine knows_bind (knows_takeRequest rid) fun pending => ?_
    cases pending with
    | none => exact knows_pure (gives_zero _)
    | some pending =>
        exact knows_bind (knows_resume pending rid) fun _ => knows_pure (gives_zero _)

end Codes

section Exchanges

variable {deps : Deps} {c : AuthCall} {K : Knowledge (course deps)} {client : OidcClient}
  {input : CodeExchangeInput}

/-- What the binding of a code ensures. -/
structure Bound (deps : Deps) (grant : CodeGrant) (client : OidcClient)
    (input : CodeExchangeInput) : Prop where
  clientId : grant.clientId = client.clientId
  redirectUri : grant.redirectUri = input.redirectUri
  codeVerifier : isValidCodeVerifier input.codeVerifier = true
  codeChallenge : deps.computeCodeChallenge input.codeVerifier = grant.codeChallenge

/-- A code is accepted exactly for the client, redirect URI and verifier it is bound to. -/
theorem validateCodeBinding_ok {grant : CodeGrant} :
    validateCodeBinding deps grant client input = .ok () ↔ Bound deps grant client input := by
  unfold validateCodeBinding
  constructor
  · intro h
    split_ifs at h with hclient huri hverifier hchallenge
    exact ⟨not_not.mp hclient, not_not.mp huri, by simpa using hverifier, not_not.mp hchallenge⟩
  · intro h
    rw [if_neg (not_not.mpr h.clientId), if_neg (not_not.mpr h.redirectUri),
      if_neg (by simp [h.codeVerifier]), if_neg (not_not.mpr h.codeChallenge)]

/-- Tokens that were given for a code answer a request of the client with the
    redirect URI and the challenge of what was presented. They name the session
    that this code was issued under and its user, and a tenant with its slug. -/
structure LoggedIn (deps : Deps) (s : State) (h : History) (clientId : String)
    (input : CodeExchangeInput) (token : IdToken) : Prop where
  aud : token.aud = clientId
  request : ∃ nonce params, token.nonce = some nonce ∧
    AsksFor params clientId input.redirectUri nonce
      (deps.computeCodeChallenge input.codeVerifier) ∧
    AnsweredBy deps h params (deps.keyOf input.code) token.sid token.sub
  tenant : (token.tenantId, token.tenantSlug) ∈ slugs s.identity

/-- What is known of an answer to a code. -/
def loggedIn (deps : Deps) (clientId : String) (input : CodeExchangeInput)
    (answer : Except TokenError TokenResponse) : Knowledge (course deps) where
  holds s h := ∀ response, answer = .ok response →
    LoggedIn deps s h clientId input response.idToken
  stable s h s' h' hlead hk response hresponse := by
    rcases hk response hresponse with ⟨haud, ⟨nonce, params, hnonce, hasks, hanswered⟩, htenant⟩
    exact ⟨haud, ⟨nonce, params, hnonce, hasks, hanswered.later hlead.1⟩, hlead.2 htenant⟩

theorem knows_refused (e : TokenError) :
    Knows c K (pure (.error e) : AuthProg (Except TokenError TokenResponse))
      (loggedIn deps client.clientId input) :=
  knows_pure fun _ _ _ _ h => nomatch h

/-- What is taken out of the store answers a request. -/
def redeemable (deps : Deps) (key : String) : Option AuthorizationCode → Knowledge (course deps)
  | some (.unused grant) => granted deps key grant
  | _ => 0

/-- The code that is taken was answered to a request. -/
theorem knows_takeCode (key : String) :
    Knows c K (authorizationCodes.getAndDelete key : AuthProg _) (redeemable deps key) := by
  refine knows_atomic fun s h hi _ => ⟨inv_fewer hi (fun _ _ he => he)
    (fun _ _ _ he _ => (delete_eq_some he).2) (fun _ _ he => he) (List.Subset.refl h),
    leads_same (List.Subset.refl h) rfl, ?_⟩
  show (redeemable deps key (Ttl.get s.authorizationCodes s.now key)).holds _ h
  cases hget : Ttl.get s.authorizationCodes s.now key with
  | none => trivial
  | some code =>
      cases code with
      | used familyId => trivial
      | unused grant =>
          rcases get_eq_some.mp hget with ⟨e, he, _, hvalue⟩
          exact Inv.codes hi _ e grant he hvalue

/-- The mark of an exchanged code is no code. -/
theorem knows_markCode (key familyId : String) :
    Knows c K (rememberConsumedCode key familyId) fun _ => K := by
  refine knows_write fun s h hi hK => ?_
  have hlead : (course deps).Leads s h (authorizationCodes.replace
      (Ttl.set s.authorizationCodes s.now key (.used familyId) consumedCodeRetention) s) h :=
    leads_same (List.Subset.refl h) rfl
  refine ⟨inv_fewer hi (fun _ _ he => he) (fun k e grant he hgrant => ?_) (fun _ _ he => he)
    (List.Subset.refl h), hlead, K.stable s h _ _ hlead hK⟩
  rcases put_eq_some he with ⟨_, rfl⟩ | ⟨_, hold⟩
  · cases hgrant
  · exact hold

/-- What is known of the tenant a code is for. -/
def resolved (deps : Deps) (tenantId : String) :
    Except TokenError Tenant → Knowledge (course deps)
  | .ok tenant => named deps tenantId tenant.slug + fact (tenant.id = tenantId)
  | .error _ => 0

/-- The tenant that is resolved has the id of the grant. -/
theorem knows_resolveTenant (tenantId : String) :
    Knows c K (resolveTenant tenantId) fun r => K + resolved deps tenantId r := by
  refine knows_bind (Q := fun found => K + (found.elim 0 (resolved deps tenantId ∘ .ok))) ?_
    fun found => ?_
  · refine knows_atomic fun s h hi hK => ⟨hi, leads_same (List.Subset.refl h) rfl, hK, ?_⟩
    show ((s.identity.tenants.find? fun t : Tenant => t.id = tenantId).elim 0
      (resolved deps tenantId ∘ .ok)).holds s h
    cases hfound : s.identity.tenants.find? fun t : Tenant => t.id = tenantId with
    | none => trivial
    | some tenant =>
        have hid : tenant.id = tenantId := by simpa using List.find?_some hfound
        refine ⟨?_, hid⟩
        show (tenantId, tenant.slug) ∈ slugs s.identity
        rw [← hid]
        exact List.mem_map_of_mem (List.mem_of_find?_eq_some hfound)
  · cases found with
    | none => exact knows_pure (gives_refl _)
    | some tenant => exact knows_pure (gives_refl _)

/-- The tokens for a code are made from the code, the user and the tenant. -/
theorem answers_redeem (codeKey : String) (grant : CodeGrant) (user : User) (tenant : Tenant) :
    Answers (redeemCode deps client codeKey grant user tenant) fun answer =>
      ∀ response, answer = .ok response → response.idToken.aud = client.clientId ∧
        response.idToken.nonce = some grant.nonce ∧ response.idToken.sid = grant.sid ∧
          response.idToken.sub = user.id ∧ response.idToken.tenantId = tenant.id ∧
            response.idToken.tenantSlug = tenant.slug := by
  refine answers_bind (answers_both (answers_any _) (answers_issueTokens deps _))
    fun issued hissued => answers_then fun _ => answers_pure ?_
  rcases hissued with ⟨_, now, jti, htokens⟩
  rintro response ⟨⟩
  dsimp only [toResponse]
  rw [htokens]
  exact ⟨rfl, rfl, rfl, rfl, rfl, rfl⟩

/-- The tokens of a redeemed code name the session, the user and the tenant of its grant. -/
theorem knows_redeem {grant : CodeGrant} (hbound : Bound deps grant client input) {user : User}
    (huser : user.id = grant.userId) {tenant : Tenant} (htenant : tenant.id = grant.tenantId) :
    Knows c (granted deps (deps.keyOf input.code) grant + named deps grant.tenantId tenant.slug)
      (redeemCode deps client (deps.keyOf input.code) grant user tenant)
      (loggedIn deps client.clientId input) := by
  -- Storing the family and marking the code keeps what is known of the grant.
  have hkeep : Knows c
      (granted deps (deps.keyOf input.code) grant + named deps grant.tenantId tenant.slug)
      (redeemCode deps client (deps.keyOf input.code) grant user tenant)
      fun _ => granted deps (deps.keyOf input.code) grant +
        named deps grant.tenantId tenant.slug := by
    refine knows_after (touches_both (touches_createRefreshTokenFamily.mono (by decide))
      touches_issueTokens) fun issued => ?_
    exact knows_bind (knows_markCode _ _) fun _ => knows_pure (gives_refl _)
  refine knows_of_gives (gives_refl _) ?_
    (knows_answers hkeep (answers_redeem (deps.keyOf input.code) grant user tenant))
  rintro answer s h ⟨⟨hgranted, hnamed⟩, hanswer⟩ response hresponse
  rcases hanswer response hresponse with ⟨haud, hnonce, hsid, hsub, hid, hslug⟩
  rcases hgranted with ⟨params, hasks, hanswered⟩
  refine ⟨haud, ⟨grant.nonce, params, hnonce, ?_, ?_⟩, ?_⟩
  · rw [← hbound.clientId, ← hbound.redirectUri, hbound.codeChallenge]
    exact hasks
  · rw [hsid, hsub, huser]
    exact hanswered
  · rw [hid, hslug, htenant]
    exact hnamed

/-- Tokens are given for what was asked. -/
theorem knows_exchange :
    Knows c (0 : Knowledge (course deps)) (exchangeAuthorizationCode deps client input)
      (loggedIn deps client.clientId input) := by
  refine knows_bind (knows_takeCode _) fun stored => ?_
  rcases stored with _ | grant | familyId
  · exact knows_refused _
  · dsimp only
    cases hbinding : validateCodeBinding deps grant client input with
    | error e => exact knows_refused e
    | ok _ =>
        -- The code is bound to this client, this redirect URI and this verifier.
        have hbound := validateCodeBinding_ok.mp hbinding
        refine knows_bind (knows_both
          (knows_loadByKey (K := granted deps (deps.keyOf input.code) grant) grant.ssoSessionId)
          (knows_both (knows_answers (knows_aside touches_query _)
            (answers_findUserById grant.userId)) (knows_resolveTenant grant.tenantId)))
          fun rows => ?_
        -- Tokens are issued only where session, user and tenant are all found.
        rcases rows with ⟨_ | session, _ | user, e | tenant⟩
        · exact knows_refused _
        · exact knows_refused _
        · exact knows_refused _
        · exact knows_refused _
        · exact knows_refused _
        · exact knows_refused _
        · exact knows_refused _
        · refine knows_of_gives (K := granted deps (deps.keyOf input.code) grant +
            named deps grant.tenantId tenant.slug +
              fact (user.id = grant.userId ∧ tenant.id = grant.tenantId)) ?_ (fun _ => gives_refl _)
            (knows_fact fun hids => knows_redeem hbound hids.1 hids.2)
          exact fun s h hK => ⟨⟨hK.1.1, hK.2.2.2.1⟩, hK.2.1.2 user rfl, hK.2.2.2.2⟩
  -- A code that was used before has its family revoked.
  · refine knows_bind (Q := fun _ => (0 : Knowledge (course deps))) ?_ fun _ => ?_
    · exact knows_aside touches_describeRefreshTokenFamily 0
    refine knows_after (touches_revokeRefreshTokenFamily.mono (by decide)) fun _ => ?_
    refine knows_bind (knows_markCode _ _) fun _ => ?_
    exact knows_after (touches_recordAudit.mono (by decide)) fun _ => knows_refused _

end Exchanges

section Calls

variable {deps : Deps}

/-- What is known of an answer. -/
def answered (deps : Deps) : (c : AuthCall) → Answer c → Knowledge (course deps)
  | .exchange clientId _ input, some answer => loggedIn deps clientId input answer
  | _, _ => 0

/-- The judgement of what programs know. -/
def knowing {deps : Deps} (c : AuthCall) : Judgement (Knowledge (course deps)) :=
  fun _ p K Q => Knows c K p Q

/-- What is known obeys the rules of sequence and parallel composition. -/
theorem sound_knowing (c : AuthCall) : Sound (@knowing deps c) where
  pure _ h := knows_pure h
  bind := knows_bind
  weaken h hle := knows_of_gives hle (fun _ => gives_refl _) h
  peripheral K hp := knows_aside (hp.mono (by decide)) K

theorem parts (c : AuthCall) : Parts deps c (knowing c) 0 (opening deps c) := by
  have hC := closed_knows (ω := Outside) (course deps) c
  -- What writes neither sessions, requests nor codes keeps all that is known.
  have hother : ∀ {α : Type} {p : AuthProg α}, Touches otherParts p →
      Knows c (0 : Knowledge (course deps)) p fun _ => 0 := fun hp => knows_aside hp 0
  have hper : HasPeripheral fun _ p => Knows c (0 : Knowledge (course deps)) p fun _ => 0 :=
    fun hp => hother (hp.mono (by decide))
  have hload : ∀ key, Knows c (0 : Knowledge (course deps)) (loadSsoSessionByKey key) fun _ => 0 :=
    fun key => knows_of_gives (gives_refl _) (fun _ => gives_zero _) (knows_loadByKey key)
  have hrevoke : ∀ familyId,
      Knows c (0 : Knowledge (course deps)) (revokeRefreshTokenFamily familyId)
      fun _ => 0 := fun _ => hother (touches_revokeRefreshTokenFamily.mono (by decide))
  exact
    { sound := sound_knowing c
      create := fun user authenticated environment =>
        knows_createSsoSession user authenticated environment
      finish := fun cookie _ result rid environment => knows_finish result rid cookie
      authorize := fun params cookie environment hc => knows_authorize params cookie hc
      load := hload
      exchange := fun _ _ _ _ client =>
        knows_of_gives (gives_refl _) (fun _ => gives_zero _) knows_exchange
      refresh := fun _ _ value _ client => closed_refresh hC hper hload
        (fun _ => hother (touches_consumeRefreshToken.mono (by decide)))
        (fun _ => hother (touches_rotateRefreshToken.mono (by decide))) hrevoke client value
      revokeFamily := hrevoke
      revokeSession := closed_revokeSessionBySid hC hper
        (fun sid => hC.bind (hother ((touches_getLogged (fun _ => rfl) : Touches [.sidIndex] _).mono
          (by decide))) fun key => by
            cases key with
            | none => exact hC.pure _
            | some key => exact hload key)
        (closed_revokeFoundSession hC hper (fun session => knows_destroySsoSession session) hrevoke
          fun _ => hother ((touches_delete onField_sidRefreshFamilies).mono (by decide)))
        (fun _ _ _ => hother (touches_markRevoked.mono (by decide)))
        (fun _ => hother (touches_emit (by decide : Field.sidIndex ∈ otherParts)))
      revokeAccess := closed_revokeClientAccess hC hper hrevoke
      addMember := fun _ _ _ => hother (touches_upsertServiceMembership.mono (by decide))
      removeMember := fun _ _ _ => hother (touches_removeServiceMembership.mono (by decide)) }

/-- Every call is answered with what is known. -/
theorem knows_body (c : AuthCall) :
    Knows c (0 : Knowledge (course deps)) (AuthCall.body deps c) (answered deps c) := by
  cases c with
  | exchange clientId clientSecret input =>
      refine knows_bind (knows_answers (knows_aside touches_authenticateClient 0)
        (answers_authenticateClient deps clientId clientSecret)) fun found =>
          knows_fact fun hfound => ?_
      cases found with
      | none => exact knows_pure (gives_refl _)
      | some client =>
          have hclient : client.clientId = clientId := hfound client rfl
          refine knows_bind knows_exchange fun answer => knows_pure ?_
          rw [hclient]
          exact gives_refl _
  | _ => exact knows_of_gives (gives_refl 0) (fun _ _ _ _ => trivial) (parts _).body

end Calls

section Runs

variable {deps : Deps}

theorem inv_start (now : Int) (db : Identity) : Inv deps (State.start now db) [] where
  requests _ _ he := nomatch he
  codes _ _ _ he := nomatch he
  sessions _ _ he := nomatch he

theorem inv_env {s s' : State} {h : History} {t : Change}
    (ht : (steadySystem deps).env t s = some s') (hi : Inv deps s h) :
    Inv deps s' h ∧ (course deps).Leads s h s' h := by
  rcases Option.filter_eq_some_iff.mp ht with ⟨happly, hslugs⟩
  refine ⟨?_, List.Subset.refl h, of_decide_eq_true hslugs⟩
  rcases apply_cases happly with ⟨seconds, rfl⟩ | ⟨identity, _, _, rfl⟩
  · exact inv_fewer hi (fun _ _ he => he) (fun _ _ _ he _ => he) (fun _ _ he => he)
      (List.Subset.refl h)
  · exact inv_fewer hi (fun _ _ he => he) (fun _ _ _ he _ => he) (fun _ _ he => he)
      (List.Subset.refl h)

/-- In every run, tokens that are given for a code answer an authorization
    request that was made for the client and the redirect URI with the
    challenge of the verifier that is presented, and carry its nonce. They name
    the session under which the request was answered with this code, its user,
    and a tenant. -/
theorem tokens_answer_requests (deps : Deps) (now : Int) (db : Identity)
    (p : Pool State Outside Event AuthCall Answer)
    (h : Reachable (steadySystem deps) anyStep (State.start now db) p)
    (clientId clientSecret : String) (input : CodeExchangeInput) (response : TokenResponse)
    (hdone : ⟨.exchange clientId clientSecret input, .done (some (.ok response))⟩ ∈ p.threads) :
    LoggedIn deps p.store p.trace clientId input response.idToken := by
  rcases List.getElem?_of_mem hdone with ⟨i, hi⟩
  have hok := knowing_of_reachable (S := steadySystem deps) (answered deps) knows_body
    (fun s h t s' ht hinv => inv_env ht hinv) (inv_start now db) h
  have hanswer := finished_knows hok hi
  exact hanswer response rfl

end Runs

end Sandbox.Auth.CodeOrigins
