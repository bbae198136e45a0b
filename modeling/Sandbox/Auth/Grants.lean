import Sandbox.Auth.SessionRecords

/-!
# What Grants Rest On

A code and a refresh token each name a session, a user, a client and a tenant.
None of this is checked against the session when a token is used; the server
relies on having written it down correctly. It was: every grant rests on a
session that was created for its user, and the record of that session names
the client and the tenant before the grant exists. Revocation depends on it,
since it finds the families to revoke through the record.

For the tokens this is said family by family. A family has one `Origin`, all
its tokens have that origin, and the set of the family and the list of the
session refer to nothing else.

Grants change in few ways. A code is stored for a session that is presented,
a family is started from a code, a token gets a successor, and everything else
only takes something away.

## Main definitions

* `Origin`: What a grant names.
* `Rooted`: The session of an origin, and its record.
* `SourcedBy`, `Sourced`: All grants are rooted.
* `Member`: A user may enter.
* `Fewer`, `Granted`, `Redeemed`, `Rotated`: The ways grants change.
* `GrantStep`: A step of a request, seen from grants and sessions.

## Theorems

* `Rooted.step`: What an origin rests on stays.
* `Sourced.step`: Every step keeps all grants rooted.
-/

namespace Sandbox.Auth

open Interleave Ttl

/-- What a grant names. -/
structure Origin where
  sid : String
  ssoSessionId : String
  userId : String
  clientId : String
  tenantId : String
  deriving DecidableEq

def CodeGrant.origin (grant : CodeGrant) : Origin where
  sid := grant.sid
  ssoSessionId := grant.ssoSessionId
  userId := grant.userId
  clientId := grant.clientId
  tenantId := grant.tenantId

def RefreshToken.origin (token : RefreshToken) : Origin where
  sid := token.sid
  ssoSessionId := token.ssoSessionId
  userId := token.userId
  clientId := token.clientId
  tenantId := token.tenantId

/-- The reference to a family on the list of its session. -/
def Origin.familyRef (o : Origin) (familyId : String) : RefreshFamilyRef where
  familyId := familyId
  clientId := o.clientId
  tenantId := o.tenantId

/-- A successor names what its predecessor names. -/
@[simp] theorem origin_successor (token : RefreshToken) (f : String) :
    (token.input.record f).origin = token.origin := rfl

/-- The first token of a family names what its code names. -/
theorem origin_refreshInput {stored : CodeGrant} {client : OidcClient}
    (h : stored.clientId = client.clientId) (f : String) :
    ((stored.refreshInput client).record f).origin = stored.origin := by
  unfold CodeGrant.origin
  rw [h]
  rfl

/-- The record of a session names a client and a tenant. -/
def Visited (s : State) (sid clientId tenantId : String) : Prop :=
  ∃ id, (id, clientId) ∈ s.identity.clients.map (fun c => (c.id, c.clientId)) ∧
    ∃ e ∈ s.sessionClients, e.sessionId = sid ∧ e.oidcClientId = id ∧ e.tenantId = tenantId

/-- The session of an origin was created for its user, and its record names the
    client and the tenant. -/
structure Rooted (deps : Deps) (s : State) (o : Origin) : Prop where
  refers : Refers deps s o.sid o.ssoSessionId
  record : ∃ r ∈ s.sessions, r.id = o.sid ∧ r.userId = o.userId
  visited : Visited s o.sid o.clientId o.tenantId

/-- All grants are rooted, and `origin` says what the families name. -/
structure SourcedBy (deps : Deps) (origin : String → Option Origin) (s : State) : Prop where
  known : ∀ f o, origin f = some o → f ∈ s.issued ∧ ':' ∉ f.toList ∧ Rooted deps s o
  tokens : ∀ k e, s.refreshTokens k = some e → origin e.value.familyId = some e.value.origin
  sets : ∀ f keys, s.refreshTokenFamilies f = some keys → ∀ k ∈ keys.value,
    (∃ v ∈ s.issued, deps.keyOf v = k) ∧
      ∀ e, s.refreshTokens k = some e → e.value.familyId = f
  lists : ∀ sid refs, s.sidRefreshFamilies sid = some refs → ∀ ref ∈ refs.value,
    ∃ f o, origin f = some o ∧ o.sid = sid ∧ ref = encodeFamilyRef (o.familyRef f)
  codes : ∀ k e grant, s.authorizationCodes k = some e → e.value = .unused grant →
    Rooted deps s grant.origin ∧ e.expiresAt ≤ s.now + authorizationCodeTtl

/-- All grants are rooted. -/
def Sourced (deps : Deps) (s : State) : Prop :=
  ∃ origin, SourcedBy deps origin s

/-- The user's membership of the service of the tenant is active. -/
def Member (s : State) (tenantId oidcClientId userId : String) : Prop :=
  ∃ m, s.identity.memberships.find? (·.isFor tenantId oidcClientId userId) = some m ∧
    m.status = .active

section Changes

/-- The entries of the records stay, though they may be seen later. -/
def KeepsEntries (s s' : State) : Prop :=
  ∀ e ∈ s.sessionClients, ∃ e' ∈ s'.sessionClients,
    e'.sessionId = e.sessionId ∧ e'.oidcClientId = e.oidcClientId ∧ e'.tenantId = e.tenantId

/-- Grants were used up or revoked, and nothing was granted. -/
structure Fewer (s s' : State) : Prop where
  codes : ∀ k e grant, s'.authorizationCodes k = some e → e.value = .unused grant →
    s.authorizationCodes k = some e
  tokens : ∀ k e', s'.refreshTokens k = some e' → ∃ e, s.refreshTokens k = some e ∧
    e'.value.familyId = e.value.familyId ∧ e'.value.origin = e.value.origin ∧
      (e' = e ∨ e'.value.status ≠ .active)
  sets : s'.refreshTokenFamilies = s.refreshTokenFamilies
  lists : ∀ sid refs, s'.sidRefreshFamilies sid = some refs → s.sidRefreshFamilies sid = some refs

/-- The parts that hold tokens, their sets and their lists. -/
def tokenParts : List Field := [.refreshTokens, .refreshTokenFamilies, .sidRefreshFamilies]

/-- The parts that hold grants. -/
def grantParts : List Field := .authorizationCodes :: tokenParts

/-- A code was stored for a session that was presented, and entered in its
    record. -/
structure Granted (key : String) (grant : CodeGrant) (client : OidcClient) (s s' : State) :
    Prop where
  others : ∀ f ∈ tokenParts, f.Same s s'
  presented : ∃ x, s.presented x.id = some x ∧ x.sid = grant.sid ∧ x.id = grant.ssoSessionId ∧
    x.userId = grant.userId
  registered : client ∈ s.identity.clients
  clientId : client.clientId = grant.clientId
  member : Member s grant.tenantId client.id grant.userId
  codes : s'.authorizationCodes =
    Ttl.set s.authorizationCodes s.now key (.unused grant) authorizationCodeTtl
  entry : ∃ e ∈ s'.sessionClients, e.sessionId = grant.sid ∧ e.oidcClientId = client.id ∧
    e.tenantId = grant.tenantId

/-- The first token of a new family was stored and listed. -/
structure Redeemed (deps : Deps) (v : String) (record : RefreshToken) (s s' : State) : Prop where
  codes : s'.authorizationCodes = s.authorizationCodes
  rooted : Rooted deps s record.origin
  freshFamily : record.familyId ∉ s.issued
  issuedFamily : record.familyId ∈ s'.issued
  noColon : ':' ∉ record.familyId.toList
  fresh : v ∉ s.issued
  issued : v ∈ s'.issued
  tokens : s'.refreshTokens =
    Ttl.set s.refreshTokens s.now (deps.keyOf v) record refreshTokenTtl
  sets : s'.refreshTokenFamilies =
    Ttl.add s.refreshTokenFamilies s.now record.familyId (deps.keyOf v) refreshTokenTtl
  lists : s'.sidRefreshFamilies =
    Ttl.add s.sidRefreshFamilies s.now record.sid
      (encodeFamilyRef (record.origin.familyRef record.familyId)) refreshTokenTtl

/-- A token of the family names the same. -/
def Known (record : RefreshToken) (s : State) : Prop :=
  ∃ k e, s.refreshTokens k = some e ∧ e.value.familyId = record.familyId ∧
    e.value.origin = record.origin

/-- The next token of a family was stored. -/
structure Rotated (deps : Deps) (v : String) (record : RefreshToken) (s s' : State) : Prop where
  codes : s'.authorizationCodes = s.authorizationCodes
  known : Known record s
  fresh : v ∉ s.issued
  issued : v ∈ s'.issued
  tokens : s'.refreshTokens =
    Ttl.set s.refreshTokens s.now (deps.keyOf v) record refreshTokenTtl
  sets : s'.refreshTokenFamilies =
    Ttl.add s.refreshTokenFamilies s.now record.familyId (deps.keyOf v) refreshTokenTtl
  lists : s'.sidRefreshFamilies = s.sidRefreshFamilies

/-- The ways grants change. -/
inductive GrantChange (deps : Deps) (s s' : State) : Prop
  | fewer (h : Fewer s s')
  | granted {key : String} {grant : CodeGrant} {client : OidcClient}
      (h : Granted key grant client s s')
  | redeemed {v : String} {record : RefreshToken} (h : Redeemed deps v record s s')
  | rotated {v : String} {record : RefreshToken} (h : Rotated deps v record s s')

/-- A step of a request, seen from grants and sessions. Only the memberships in
    `may` are created. -/
structure GrantStep (deps : Deps) (may : String → String → String → Prop)
    (leaving : Option String) (s s' : State) : Prop where
  sessions : Relation.ReflTransGen (SessionStep deps leaving) s s'
  entries : KeepsEntries s s'
  members : ∀ t c u, Member s' t c u → Member s t c u ∨ may t c u
  change : GrantChange deps s s'

variable {s s' s'' : State} {fs : List Field}

theorem keepsEntries_of_eq (h : s'.sessionClients = s.sessionClients) : KeepsEntries s s' :=
  fun e he => ⟨e, h ▸ he, rfl, rfl, rfl⟩

theorem KeepsEntries.trans (h : KeepsEntries s s') (h' : KeepsEntries s' s'') :
    KeepsEntries s s'' := by
  intro e he
  rcases h e he with ⟨e₁, he₁, hsid, hclient, htenant⟩
  rcases h' e₁ he₁ with ⟨e₂, he₂, hsid₂, hclient₂, htenant₂⟩
  exact ⟨e₂, he₂, hsid₂.trans hsid, hclient₂.trans hclient, htenant₂.trans htenant⟩

/-- The grants are no more where their fields are the same. -/
theorem fewer_of_same (h : ∀ f ∈ grantParts, f.Same s s') : Fewer s s' := by
  have hcodes : s'.authorizationCodes = s.authorizationCodes := h .authorizationCodes (by decide)
  have htokens : s'.refreshTokens = s.refreshTokens := h .refreshTokens (by decide)
  have hlists : s'.sidRefreshFamilies = s.sidRefreshFamilies := h .sidRefreshFamilies (by decide)
  refine ⟨fun k e grant he _ => hcodes ▸ he, fun k e he => ⟨e, htokens ▸ he, rfl, rfl, .inl rfl⟩,
    h .refreshTokenFamilies (by decide), fun sid refs he => hlists ▸ he⟩

theorem Fewer.trans (h : Fewer s s') (h' : Fewer s' s'') : Fewer s s'' where
  codes k e grant he hgrant := h.codes k e grant (h'.codes k e grant he hgrant) hgrant
  tokens k e'' he'' := by
    rcases h'.tokens k e'' he'' with ⟨e', he', hfamily', horigin', hsame'⟩
    rcases h.tokens k e' he' with ⟨e, he, hfamily, horigin, hsame⟩
    refine ⟨e, he, hfamily'.trans hfamily, horigin'.trans horigin, ?_⟩
    rcases hsame' with rfl | hstatus
    · exact hsame
    · exact .inr hstatus
  sets := h'.sets.trans h.sets
  lists sid refs hrefs := h.lists sid refs (h'.lists sid refs hrefs)

theorem member_of_eq (h : s'.identity.memberships = s.identity.memberships) {t c u : String} :
    Member s' t c u ↔ Member s t c u := by
  unfold Member
  rw [h]

end Changes

section Steps

variable {deps : Deps} {may : String → String → String → Prop} {leaving : Option String}
  {s s' : State} {o : Origin} {x : SsoSession} {key : String}

/-- Steps of the sessions change their fields alone. -/
theorem sessionSteps_changes (h : Relation.ReflTransGen (SessionStep deps leaving) s s') :
    Changes (sessionParts ++ Auth.noSessions) s s' := by
  induction h with
  | refl => exact changes_refl _
  | tail _ hstep ih => exact ih.trans hstep.changes

theorem recorded_steps (hrec : Recorded deps s) (hinj : Function.Injective deps.keyOf)
    (h : Relation.ReflTransGen (SessionStep deps leaving) s s') : Recorded deps s' := by
  induction h with
  | refl => exact hrec
  | tail _ hstep ih => exact ih.step hinj hstep

/-- A step of the grants keeps every session recorded. -/
theorem GrantStep.recorded (h : GrantStep deps may leaving s s') (hrec : Recorded deps s)
    (hinj : Function.Injective deps.keyOf) : Recorded deps s' :=
  recorded_steps hrec hinj h.sessions

/-- A visit stays so while clients and visits are kept. -/
theorem Visited.mono {sid clientId tenantId : String} (h : Visited s sid clientId tenantId)
    (hclients : s.identity.KeepsClients s'.identity) (hentries : KeepsEntries s s') :
    Visited s' sid clientId tenantId := by
  rcases h with ⟨id, hid, e, he, hsid, hclient, htenant⟩
  rcases hentries e he with ⟨e', he', hsid', hclient', htenant'⟩
  exact ⟨id, hclients _ hid, e', he', hsid'.trans hsid, hclient'.trans hclient,
    htenant'.trans htenant⟩

theorem keepsClients_of_eq (h : s'.identity.clients = s.identity.clients) :
    s.identity.KeepsClients s'.identity := by
  intro key hkey
  rw [h]
  exact hkey

/-- The session of an origin stays what it was, and so does its user. -/
theorem refers_record_steps (h : Relation.ReflTransGen (SessionStep deps leaving) s s')
    (hrec : Recorded deps s) (hinj : Function.Injective deps.keyOf) {sid userId : String}
    (hrefers : Refers deps s sid key) (hr : ∃ r ∈ s.sessions, r.id = sid ∧ r.userId = userId) :
    Refers deps s' sid key ∧ ∃ r ∈ s'.sessions, r.id = sid ∧ r.userId = userId := by
  induction h with
  | refl => exact ⟨hrefers, hr⟩
  -- A step keeps the reference only if the records are sound before it.
  | tail hsteps hstep ih =>
      rcases ih with ⟨hrefers₁, r₁, hr₁, hid₁, huser₁⟩
      rcases hstep.record hr₁ with ⟨r₂, hr₂, hid₂, huser₂⟩
      exact ⟨hrefers₁.step (recorded_steps hrec hinj hsteps) hinj hstep, r₂, hr₂,
        hid₂.trans hid₁, huser₂.trans huser₁⟩

/-- What an origin rests on stays. -/
theorem Rooted.step (h : Rooted deps s o) (hrec : Recorded deps s)
    (hinj : Function.Injective deps.keyOf)
    (hsteps : Relation.ReflTransGen (SessionStep deps leaving) s s')
    (hentries : KeepsEntries s s') : Rooted deps s' o := by
  rcases refers_record_steps hsteps hrec hinj h.refers h.record with ⟨hrefers, hrecord⟩
  exact ⟨hrefers, hrecord,
    h.visited.mono (keepsClients_of_eq (sessionSteps_changes hsteps).clients) hentries⟩

/-- A session that is presented roots a grant that is made under it. -/
theorem Recorded.rooted (hrec : Recorded deps s) (hx : s.presented x.id = some x)
    {clientId tenantId : String} (hvisited : Visited s x.sid clientId tenantId) :
    Rooted deps s ⟨x.sid, x.id, x.userId, clientId, tenantId⟩ := by
  rcases hrec.stored hx with ⟨e, he, hlive, rfl⟩
  rcases hrec.recorded _ e he hlive with ⟨r, hr, hof⟩
  exact ⟨hrec.refers _ e he, ⟨r, hr, hof.id, hof.userId⟩, hvisited⟩

/-- What is kept at the key of a new token is in no set. -/
theorem SourcedBy.fresh_notMem {origin : String → Option Origin} (h : SourcedBy deps origin s)
    (hinj : Function.Injective deps.keyOf) {v : String} (hv : v ∉ s.issued) {f : String}
    {keys : Entry (List String)} (hkeys : s.refreshTokenFamilies f = some keys) :
    deps.keyOf v ∉ keys.value := by
  intro hmem
  rcases (h.sets f keys hkeys _ hmem).1 with ⟨w, hw, heq⟩
  exact hv (hinj heq ▸ hw)

/-- A token that is stored under a new key and added to the set of its family
    leaves the sets right. -/
theorem SourcedBy.sets_store {origin : String → Option Origin} (h : SourcedBy deps origin s)
    (hinj : Function.Injective deps.keyOf) {v : String} {record : RefreshToken}
    (hfresh : v ∉ s.issued) (hissued : v ∈ s'.issued) (hmore : s.issued ⊆ s'.issued)
    (htokens : s'.refreshTokens =
      Ttl.set s.refreshTokens s.now (deps.keyOf v) record refreshTokenTtl)
    (hsets : s'.refreshTokenFamilies =
      Ttl.add s.refreshTokenFamilies s.now record.familyId (deps.keyOf v) refreshTokenTtl) :
    ∀ f keys, s'.refreshTokenFamilies f = some keys → ∀ k ∈ keys.value,
      (∃ w ∈ s'.issued, deps.keyOf w = k) ∧
        ∀ e, s'.refreshTokens k = some e → e.value.familyId = f := by
  -- A key that was in a set before is not the new one.
  have hold : ∀ f keys, s.refreshTokenFamilies f = some keys → ∀ k ∈ keys.value,
      (∃ w ∈ s'.issued, deps.keyOf w = k) ∧
        ∀ e, s'.refreshTokens k = some e → e.value.familyId = f := by
    intro f keys hkeys k hk
    rcases h.sets f keys hkeys k hk with ⟨⟨w, hw, hkey⟩, hfamily⟩
    refine ⟨⟨w, hmore hw, hkey⟩, fun e he => ?_⟩
    rw [htokens] at he
    rcases put_eq_some he with ⟨rfl, _⟩ | ⟨_, he⟩
    · exact absurd hk (h.fresh_notMem hinj hfresh hkeys)
    · exact hfamily e he
  intro f keys hkeys k hk
  rw [hsets] at hkeys
  by_cases hf : f = record.familyId
  · subst hf
    rcases add_self s.refreshTokenFamilies s.now record.familyId (deps.keyOf v) refreshTokenTtl
      with ⟨xs, hput, hxs⟩
    cases hput.symm.trans hkeys
    rcases (hxs k).mp hk with rfl | hmem
    · refine ⟨⟨v, hissued, rfl⟩, fun e he => ?_⟩
      rw [htokens] at he
      cases (put_self _ _ _).symm.trans he
      rfl
    · rcases mem_members.mp hmem with ⟨keys₀, hkeys₀, _, hk₀⟩
      exact hold _ keys₀ hkeys₀ k hk₀
  · rw [add_of_ne _ _ _ _ hf] at hkeys
    exact hold f keys hkeys k hk

/-- The clock stands still, what was issued stays issued, and what origins rest
    on stays. -/
structure Carries (deps : Deps) (s s' : State) : Prop where
  now : s'.now = s.now
  issued : s.issued ⊆ s'.issued
  rooted : ∀ {o}, Rooted deps s o → Rooted deps s' o

/-- A step of the grants carries every root along. -/
theorem GrantStep.carries (h : GrantStep deps may leaving s s') (hrec : Recorded deps s)
    (hinj : Function.Injective deps.keyOf) : Carries deps s s' where
  now := (sessionSteps_changes h.sessions).now
  issued := (sessionSteps_changes h.sessions).issued
  rooted ho := ho.step hrec hinj h.sessions h.entries

section Changed

variable {origin : String → Option Origin}

/-- A family with an origin keeps it, and its root, along a step. -/
theorem SourcedBy.known_carried (h : SourcedBy deps origin s) (hc : Carries deps s s') (f : String)
    (o : Origin) (hf : origin f = some o) :
    f ∈ s'.issued ∧ ':' ∉ f.toList ∧ Rooted deps s' o := by
  rcases h.known f o hf with ⟨hissued, hcolon, hrooted⟩
  exact ⟨hc.issued hissued, hcolon, hc.rooted hrooted⟩

theorem SourcedBy.codes_carried (h : SourcedBy deps origin s) (hc : Carries deps s s')
    {k : String} {e : Entry AuthorizationCode} {grant : CodeGrant}
    (he : s.authorizationCodes k = some e) (hgrant : e.value = .unused grant) :
    Rooted deps s' grant.origin ∧ e.expiresAt ≤ s'.now + authorizationCodeTtl := by
  rw [hc.now]
  exact ⟨hc.rooted (h.codes k e grant he hgrant).1, (h.codes k e grant he hgrant).2⟩

/-- What is taken away leaves no question. -/
theorem SourcedBy.fewer (h : SourcedBy deps origin s) (hc : Carries deps s s')
    (hf : Fewer s s') : SourcedBy deps origin s' where
  known := h.known_carried hc
  tokens k e' he' := by
    rcases hf.tokens k e' he' with ⟨e, he, hfamily, horigin, _⟩
    rw [hfamily, horigin]
    exact h.tokens k e he
  sets f keys hkeys k hk := by
    rw [hf.sets] at hkeys
    rcases h.sets f keys hkeys k hk with ⟨⟨v, hv, hkey⟩, hfamily⟩
    refine ⟨⟨v, hc.issued hv, hkey⟩, fun e' he' => ?_⟩
    rcases hf.tokens k e' he' with ⟨e, he, hsame, _, _⟩
    exact hsame.trans (hfamily e he)
  lists sid refs hrefs := h.lists sid refs (hf.lists sid refs hrefs)
  codes k e grant he hgrant := h.codes_carried hc (hf.codes k e grant he hgrant) hgrant

/-- A code is stored for a session that is presented, so it is rooted. -/
theorem Granted.rooted {grant : CodeGrant} {client : OidcClient}
    (hg : Granted key grant client s s') (hrec : Recorded deps s)
    (hinj : Function.Injective deps.keyOf)
    (hsteps : Relation.ReflTransGen (SessionStep deps leaving) s s') :
    Rooted deps s' grant.origin := by
  rcases hg.presented with ⟨x, hx, hsid, hid, huser⟩
  rcases hrec.stored hx with ⟨e, he, hlive, rfl⟩
  rcases hrec.recorded _ e he hlive with ⟨r, hr, hof⟩
  have hrefers : Refers deps s grant.sid grant.ssoSessionId := by
    rw [← hsid, ← hid]
    exact hrec.refers _ e he
  have hrecord : ∃ r ∈ s.sessions, r.id = grant.sid ∧ r.userId = grant.userId :=
    ⟨r, hr, hof.id.trans hsid, hof.userId.trans huser⟩
  rcases refers_record_steps hsteps hrec hinj hrefers hrecord with ⟨hrefers', hrecord'⟩
  -- The client and the tenant are in the record after the code was stored.
  refine ⟨hrefers', hrecord', client.id, ?_, hg.entry⟩
  rw [(sessionSteps_changes hsteps).clients]
  exact List.mem_map.mpr ⟨client, hg.registered, by rw [hg.clientId]; rfl⟩

/-- A new code with a root keeps every grant sourced. -/
theorem SourcedBy.granted (h : SourcedBy deps origin s) (hc : Carries deps s s')
    {grant : CodeGrant} {client : OidcClient} (hg : Granted key grant client s s')
    (hroot : Rooted deps s' grant.origin) : SourcedBy deps origin s' := by
  have htokens : s'.refreshTokens = s.refreshTokens := hg.others .refreshTokens (by decide)
  have hsets : s'.refreshTokenFamilies = s.refreshTokenFamilies :=
    hg.others .refreshTokenFamilies (by decide)
  have hlists : s'.sidRefreshFamilies = s.sidRefreshFamilies :=
    hg.others .sidRefreshFamilies (by decide)
  refine ⟨h.known_carried hc, fun k e he => h.tokens k e (htokens ▸ he),
    fun f keys hkeys k hk => ?_, fun sid refs hrefs => h.lists sid refs (hlists ▸ hrefs),
    fun k e grant' he hgrant => ?_⟩
  · rcases h.sets f keys (hsets ▸ hkeys) k hk with ⟨⟨v, hv, hkey⟩, hfamily⟩
    exact ⟨⟨v, hc.issued hv, hkey⟩, fun e he => hfamily e (htokens ▸ he)⟩
  · rw [hg.codes] at he
    rcases put_eq_some he with ⟨rfl, rfl⟩ | ⟨_, he⟩
    · cases hgrant
      exact ⟨hroot, by rw [hc.now]⟩
    · exact h.codes_carried hc he hgrant

/-- A new family gets the origin of its first token. -/
theorem SourcedBy.redeemed (h : SourcedBy deps origin s) (hc : Carries deps s s')
    (hinj : Function.Injective deps.keyOf) {v : String} {record : RefreshToken}
    (hr : Redeemed deps v record s s') :
    SourcedBy deps (Function.update origin record.familyId (some record.origin)) s' := by
  have hother : ∀ {f o}, origin f = some o →
      Function.update origin record.familyId (some record.origin) f = some o := by
    intro f o hf
    rw [Function.update_of_ne, hf]
    -- The family did not have an origin, as it was not given out before.
    rintro rfl
    exact hr.freshFamily (h.known _ o hf).1
  have hold : ∀ sid refs, s.sidRefreshFamilies sid = some refs → ∀ ref ∈ refs.value,
      ∃ f o, Function.update origin record.familyId (some record.origin) f = some o ∧
        o.sid = sid ∧ ref = encodeFamilyRef (o.familyRef f) := by
    intro sid refs hrefs ref href
    rcases h.lists sid refs hrefs ref href with ⟨f, o, hf, hsid, heq⟩
    exact ⟨f, o, hother hf, hsid, heq⟩
  refine ⟨fun f o hf => ?_, fun k e he => ?_,
    h.sets_store hinj hr.fresh hr.issued hc.issued hr.tokens hr.sets,
    fun sid refs hrefs ref href => ?_,
    fun k e grant he hgrant => h.codes_carried hc (hr.codes ▸ he) hgrant⟩
  · by_cases hf' : f = record.familyId
    · subst hf'
      rw [Function.update_self] at hf
      cases hf
      exact ⟨hr.issuedFamily, hr.noColon, hc.rooted hr.rooted⟩
    · rw [Function.update_of_ne hf'] at hf
      exact h.known_carried hc f o hf
  · rw [hr.tokens] at he
    rcases put_eq_some he with ⟨_, rfl⟩ | ⟨_, he⟩
    · exact Function.update_self _ _ _
    · exact hother (h.tokens k e he)
  · rw [hr.lists] at hrefs
    by_cases hsid : sid = record.sid
    · subst hsid
      rcases add_self s.sidRefreshFamilies s.now record.sid
        (encodeFamilyRef (record.origin.familyRef record.familyId)) refreshTokenTtl with
        ⟨xs, hput, hxs⟩
      cases hput.symm.trans hrefs
      rcases (hxs ref).mp href with rfl | hmem
      · exact ⟨record.familyId, record.origin, Function.update_self _ _ _, rfl, rfl⟩
      · rcases mem_members.mp hmem with ⟨refs₀, hrefs₀, _, href₀⟩
        exact hold _ refs₀ hrefs₀ ref href₀
    · rw [add_of_ne _ _ _ _ hsid] at hrefs
      exact hold sid refs hrefs ref href

/-- The next token of a family names what the family names. -/
theorem SourcedBy.rotated (h : SourcedBy deps origin s) (hc : Carries deps s s')
    (hinj : Function.Injective deps.keyOf) {v : String} {record : RefreshToken}
    (hr : Rotated deps v record s s') : SourcedBy deps origin s' := by
  refine ⟨h.known_carried hc, fun k e he => ?_,
    h.sets_store hinj hr.fresh hr.issued hc.issued hr.tokens hr.sets,
    fun sid refs hrefs => h.lists sid refs (hr.lists ▸ hrefs),
    fun k e grant he hgrant => h.codes_carried hc (hr.codes ▸ he) hgrant⟩
  rw [hr.tokens] at he
  rcases put_eq_some he with ⟨_, rfl⟩ | ⟨_, he⟩
  · rcases hr.known with ⟨k₀, e₀, he₀, hfamily, horigin⟩
    have hold := h.tokens k₀ e₀ he₀
    rwa [hfamily, horigin] at hold
  · exact h.tokens k e he

end Changed

/-- Every step keeps all grants rooted. -/
theorem Sourced.step (h : Sourced deps s) (hrec : Recorded deps s)
    (hinj : Function.Injective deps.keyOf) (hstep : GrantStep deps may leaving s s') :
    Sourced deps s' := by
  rcases h with ⟨origin, h⟩
  have hc := hstep.carries hrec hinj
  cases hstep.change with
  | fewer hf => exact ⟨origin, h.fewer hc hf⟩
  | granted hg => exact ⟨origin, h.granted hc hg (hg.rooted hrec hinj hstep.sessions)⟩
  | redeemed hr => exact ⟨_, h.redeemed hc hinj hr⟩
  | rotated hr => exact ⟨origin, h.rotated hc hinj hr⟩

end Steps

section Outside

variable {deps : Deps} {s s' : State} {t : Change}

/-- What an origin rests on stays, whatever happens from outside. -/
theorem Rooted.env {o : Origin} (h : Rooted deps s o) (ht : t.apply s = some s') :
    Rooted deps s' o := by
  have hsame : s'.issued = s.issued → s'.ssoSessions = s.ssoSessions →
      Refers deps s' o.sid o.ssoSessionId := by
    intro hissued hsessions
    refine h.refers.mono (by rw [hissued]; exact List.Subset.refl _) fun e he => ⟨e, ?_, rfl⟩
    rw [← hsessions]
    exact he
  rcases apply_cases ht with ⟨seconds, rfl⟩ | ⟨db, _, hkeeps, rfl⟩
  · exact ⟨hsame rfl rfl, h.record, h.visited⟩
  · exact ⟨hsame rfl rfl, h.record, h.visited.mono hkeeps (keepsEntries_of_eq rfl)⟩

/-- What happens from outside moves the clock and the identity database. -/
theorem Sourced.env (h : Sourced deps s) (ht : t.apply s = some s') : Sourced deps s' := by
  rcases h with ⟨origin, h⟩
  have hroot : ∀ {o}, Rooted deps s o → Rooted deps s' o := fun ho => ho.env ht
  rcases apply_cases ht with ⟨seconds, rfl⟩ | ⟨db, _, _, rfl⟩
  · refine ⟨origin, fun f o hf => ?_, h.tokens, h.sets, h.lists, fun k e grant he hgrant => ?_⟩
    · rcases h.known f o hf with ⟨hissued, hcolon, hrooted⟩
      exact ⟨hissued, hcolon, hroot hrooted⟩
    · rcases h.codes k e grant he hgrant with ⟨hrooted, hle⟩
      refine ⟨hroot hrooted, ?_⟩
      dsimp only
      omega
  · refine ⟨origin, fun f o hf => ?_, h.tokens, h.sets, h.lists, fun k e grant he hgrant => ?_⟩
    · rcases h.known f o hf with ⟨hissued, hcolon, hrooted⟩
      exact ⟨hissued, hcolon, hroot hrooted⟩
    · exact ⟨hroot (h.codes k e grant he hgrant).1, (h.codes k e grant he hgrant).2⟩

theorem sourced_start (now : Int) (db : Identity) : Sourced deps (State.start now db) := by
  refine ⟨fun _ => none, ?_, ?_, ?_, ?_, ?_⟩
  · exact fun _ _ h => by cases h
  · exact fun _ _ h => by cases h
  · exact fun _ _ h => by cases h
  · exact fun _ _ h => by cases h
  · exact fun _ _ _ h _ => by cases h

end Outside

end Sandbox.Auth
