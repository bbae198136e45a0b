import Sandbox.Auth.FamilyCuts
import Sandbox.Auth.Notices
import Sandbox.Auth.TokenAnswers

/-!
# What Removing a Member Revokes

A service removes a user from one of its tenants. The refresh token families
of that user, service and tenant are looked for under the active sessions of
the user, by way of each session's record and list. After a run of requests
that do not overlap they are all found there if their session can still be
presented, and nothing else is. The sessions stay, and so does everything that
is granted under them to other services or for other tenants. The service is
told of each of the sessions once, and nobody else is told anything.

## Main definitions

* `Cut`: The families that are revoked.
* `affected`: The sessions that the service is told of.

## Theorems

* `exec_revokeClientAccess`: Which tokens are revoked.
* `told_of_revokeClientAccess`: What the service is told.
* `uninvite_cuts_exactly`: What is revoked after any run.
* `uninvite_leaves_others`: What is not.
-/

namespace Sandbox.Auth.Uninvite

open Interleave Ttl

/-- An active session of the user has been at the service for the tenant, and
    the family is listed under it for them. -/
def Cut (s : State) (client : OidcClient) (tenantId userId f : String) : Prop :=
  ∃ r ∈ s.sessions, r.userId = userId ∧ Sessions.isActive r s.now = true ∧
    (∃ e ∈ s.sessionClients, e.sessionId = r.id ∧ e.oidcClientId = client.id ∧
      e.tenantId = tenantId) ∧
    ∃ ref ∈ refsOf s r.id, ref.clientId = client.clientId ∧ ref.tenantId = tenantId ∧
      ref.familyId = f

/-- The active sessions of the user that have been at the service for the
    tenant. -/
def affected (s : State) (client : OidcClient) (tenantId userId : String) : List String :=
  ((s.sessions.filter fun r => r.userId = userId ∧ Sessions.isActive r s.now).filter fun r =>
    s.sessionClients.any fun e => e.sessionId = r.id ∧ e.oidcClientId = client.id ∧
      e.tenantId = tenantId).map (·.id)

section Access

variable {deps : Deps} {s s' s₀ : State} {c : AuthCall} {es : List Event} {client : OidcClient}
  {tenantId userId : String} {fs : List Field}

/-- The list of a session's families is not changed by revocations. -/
theorem safe_refsOf {F : String → Prop} {sid : String} :
    Safe (retiring F s₀) c (listRefreshFamilies sid) () fun refs _ => refs = refsOf s₀ sid := by
  refine safe_seq (Q := fun found _ => found = members s₀.sidRefreshFamilies s₀.now sid) ?_
    fun found _ hfound => ?_
  · refine safe_read fun _ s _ h => ⟨(), h, ?_⟩
    change members s.sidRefreshFamilies s.now sid = _
    rw [Retired.lists h, Retired.now h]
  · subst hfound
    exact safe_pure rfl

/-- What is done for one session. -/
def cutSession (deps : Deps) (client : OidcClient) (tenantId : String)
    (row : AuthSessionWithClients) : AuthProg BackchannelResult := do
  let families ← listRefreshFamilies row.record.id
  let _ ← Prog.all ((families.filter fun ref =>
    ref.clientId = client.clientId ∧ ref.tenantId = tenantId).map
      fun ref => revokeRefreshTokenFamily ref.familyId)
  notifyClient deps client row.record.id

theorem keeps_cutSession {F : String → Prop} {row : AuthSessionWithClients}
    (hF : ∀ ref ∈ refsOf s₀ row.record.id, ref.clientId = client.clientId →
      ref.tenantId = tenantId → F ref.familyId) :
    Keeps (retiring F s₀) c _ (cutSession deps client tenantId row) := by
  refine safe_seq safe_refsOf fun refs _ hrefs => ?_
  subst hrefs
  refine Keeps.safe ((closed_keeps _ _).bind ((closed_keeps _ _).all fun ref href => ?_)
    fun _ => keeps_unretired touches_notifyClient (by decide)) ()
  rcases List.mem_filter.mp href with ⟨hmem, hnames⟩
  rcases of_decide_eq_true hnames with ⟨hclient, htenant⟩
  exact keeps_retireFamily (hF ref hmem hclient htenant)

/-- The parts that cutting the access changes. -/
def accessParts : List Field := [.refreshTokens, .refreshTokenFamilies, .outbox]

theorem touches_cutSession {row : AuthSessionWithClients} :
    Touches accessParts (cutSession deps client tenantId row) :=
  touches_bind touches_listRefreshFamilies fun _ =>
    touches_bind (touches_all fun _ _ => touches_revokeRefreshTokenFamily.mono (by decide))
      fun _ => touches_notifyClient.mono (by decide)

/-- The families of one session are all revoked. -/
theorem mem_of_amid_cutSession {row : AuthSessionWithClients} {a : BackchannelResult}
    (h : Amid (Changes accessParts) s (cutSession deps client tenantId row) es a s')
    {ref : RefreshFamilyRef} (href : ref ∈ refsOf s row.record.id)
    (hclient : ref.clientId = client.clientId) (htenant : ref.tenantId = tenantId) :
    .familyRevoked ref.familyId ∈ es := by
  rcases amid_bind changes_refl h with ⟨refs, s₁, _, _, hlist, h₁, rfl⟩
  rcases amid_listRefreshFamilies hlist (by decide) with ⟨rfl, _⟩
  rcases amid_bind changes_refl h₁ with ⟨_, s₂, _, _, hall, _, rfl⟩
  refine List.mem_append_left _ (List.mem_append_right _ (mem_of_amid_revokeAll hall (by decide)
    ref ?_))
  exact List.mem_filter.mpr ⟨href, decide_eq_true ⟨hclient, htenant⟩⟩

/-- Cutting the access of a user retires the tokens of the families that are
    found, and they are all revoked. -/
theorem exec_revokeClientAccess {told : List String}
    (h : Exec s (revokeClientAccess deps userId client tenantId) es told s') :
    Retired (Cut s client tenantId userId) s s' ∧
      ∀ f, Cut s client tenantId userId f → .familyRevoked f ∈ es := by
  rcases exec_bind h with ⟨listed, s₁, es₁, es₂, hlist, h₁, rfl⟩
  rcases exec_listActive hlist with ⟨rfl, hrows⟩
  rcases exec_bind h₁ with ⟨_, s₂, es₃, es₄, hall, hdone, rfl⟩
  rcases exec_done hdone with ⟨_, _, rfl⟩
  have hamid : Amid (Changes accessParts) s₁
      (Prog.all ((listed.filter fun x => x.clients.any fun c =>
        c.oidcClientId = client.id ∧ c.tenantId = tenantId).map
          (cutSession deps client tenantId))) es₃ _ s' := amid_of_exec changes_refl hall
  -- A session of the user with a visit to the client there is one that is cut.
  have hrow : ∀ {r : AuthSessionRecord}, r ∈ s₁.sessions → r.userId = userId →
      Sessions.isActive r s₁.now = true → (∃ e ∈ s₁.sessionClients, e.sessionId = r.id ∧
        e.oidcClientId = client.id ∧ e.tenantId = tenantId) →
      (⟨r, s₁.sessionClients.filter (·.sessionId = r.id)⟩ : AuthSessionWithClients) ∈
        listed.filter fun x => x.clients.any fun c =>
          c.oidcClientId = client.id ∧ c.tenantId = tenantId := by
    rintro r hr huser hactive ⟨e, he, hsid, hnames⟩
    refine List.mem_filter.mpr ⟨(hrows _).mpr ⟨r, hr, huser, hactive, rfl⟩, ?_⟩
    exact List.any_eq_true.mpr ⟨e, List.mem_filter.mpr ⟨he, decide_eq_true hsid⟩,
      decide_eq_true hnames⟩
  constructor
  -- Conversely a family that is revoked is listed by a session that is cut.
  · have hall' : Amid (Changes []) s₁ _ es₃ _ s' := amid_of_exec changes_refl hall
    refine amid_retired hall' (by decide) ((closed_keeps _ _).all fun row hmem => ?_)
    rcases List.mem_filter.mp hmem with ⟨hlisted, hany⟩
    rcases (hrows row).mp hlisted with ⟨r, hr, huser, hactive, rfl⟩
    rcases List.any_eq_true.mp hany with ⟨e, he, hnames⟩
    rcases List.mem_filter.mp he with ⟨he, hsid⟩
    refine keeps_cutSession fun ref href hclient htenant => ?_
    exact ⟨r, hr, huser, hactive, ⟨e, he, of_decide_eq_true hsid, of_decide_eq_true hnames⟩, ref,
      href, hclient, htenant, rfl⟩
  · rintro f ⟨r, hr, huser, hactive, hentry, ref, href, hclient, htenant, rfl⟩
    rcases amid_all (moves_changes accessParts) hamid (fun _ _ => touches_cutSession) _
      (hrow hr huser hactive hentry) with ⟨es₅, _, hcut, hes⟩
    refine List.mem_append_left _ (List.mem_append_right _ (hes _ ?_))
    exact mem_of_amid_cutSession hcut href hclient htenant

/-- The service is told of the session. -/
theorem tells_cutSession {row : AuthSessionWithClients} :
    Safe (telling deps client s₀) c (cutSession deps client tenantId row) 0 fun _ r =>
      r = toldOf client row.record.id := by
  have hfamilies : Touches [] (listRefreshFamilies row.record.id) :=
    touches_listRefreshFamilies
  refine safe_seq (safe_untold hfamilies (by decide)) ?_
  rintro refs _ rfl
  refine safe_seq (safe_untold (touches_all fun _ _ => touches_revokeRefreshTokenFamily)
    (by decide)) ?_
  rintro _ _ rfl
  exact safe_notifyClient _

/-- The rows of the affected sessions, in the order of the list. -/
theorem perm_affected {listed : List AuthSessionWithClients}
    (h : Exec s (Sessions.listActiveByUser userId) es listed s') :
    ((listed.filter fun x => x.clients.any fun c =>
      c.oidcClientId = client.id ∧ c.tenantId = tenantId).map (·.record.id)).Perm
        (affected s client tenantId userId) := by
  rcases exec_listActive_eq h with ⟨rfl, rfl⟩
  rw [List.filter_map, List.map_map]
  refine (((List.perm_insertionSort _ _).filter _).map _).trans (List.Perm.of_eq ?_)
  refine congrArg (List.map _) (List.filter_congr fun r _ => ?_)
  -- The row of a session has the entries of the session.
  rw [Bool.eq_iff_iff, Function.comp_apply, List.any_eq_true, List.any_eq_true]
  simp only [List.mem_filter, decide_eq_true_eq]
  constructor
  · rintro ⟨e, ⟨he, hsid⟩, hnames⟩
    exact ⟨e, he, hsid, hnames⟩
  · rintro ⟨e, he, hsid, hnames⟩
    exact ⟨e, ⟨he, hsid⟩, hnames⟩

/-- The service is told of each affected session once. -/
theorem told_of_revokeClientAccess {told : List String}
    (h : Exec s (revokeClientAccess deps userId client tenantId) es told s') :
    Told deps client s
      (if Tellable client then (affected s client tenantId userId : Multiset String) else 0)
      s' := by
  rcases exec_bind h with ⟨listed, s₁, es₁, es₂, hlist, h₁, rfl⟩
  -- The sessions that are cut are the affected ones, in some order.
  have hperm : ((listed.filter fun x => x.clients.any fun c =>
      c.oidcClientId = client.id ∧ c.tenantId = tenantId).map (·.record.id)).Perm
        (affected s client tenantId userId) := perm_affected hlist
  rcases exec_listActive hlist with ⟨rfl, _⟩
  rcases exec_bind h₁ with ⟨_, s₂, es₃, es₄, hall, hdone, rfl⟩
  rcases exec_done hdone with ⟨_, _, rfl⟩
  generalize hrows : (listed.filter fun x => x.clients.any fun c =>
    c.oidcClientId = client.id ∧ c.tenantId = tenantId) = rows at hall hperm
  -- Each of them sends its own notice, so together they send the sum.
  have hsafe := safe_all (P := telling deps client s₁) (c := .uninvite "" "" tenantId userId) rows
    (cutSession deps client tenantId) (fun _ => 0) (fun row _ r => r = toldOf client row.record.id)
    fun _ _ => tells_cutSession
  rcases safe_exec hall (fun _ _ _ => trivial) _ 0 [] _ hsafe (by
    rw [List.map_const', List.sum_replicate, nsmul_zero, add_zero]
    exact told_start s₁) with ⟨r, htold, hr⟩
  have htold' : Told deps client s₁ r s' := by
    rw [← add_zero r]
    exact htold
  have hsum : r = (if Tellable client then
      (affected s₁ client tenantId userId : Multiset String) else 0) := by
    rw [hr.sum_items, ← Multiset.coe_eq_coe.mpr hperm, ← sum_toldOf, List.map_map]
    rfl
  rw [← hsum]
  exact htold'

end Access

section Request

variable {deps : Deps} {s s' : State} {es : List Event} {client : OidcClient}
  {clientId clientSecret tenantId userId : String}

/-- Looking for the tenant only reads. -/
theorem exec_resolveContractedTenant {found : Except ServiceMemberError String}
    (h : Exec s (resolveContractedTenant client tenantId) es found s') :
    s' = s ∧ ∀ id, found = .ok id → id = tenantId := by
  rcases exec_bind h with ⟨row, s₁, _, _, hread, h₁, _⟩
  rcases exec_read hread with ⟨_, hrow, rfl⟩
  cases row with
  | none =>
      rcases exec_done h₁ with ⟨_, rfl, rfl⟩
      exact ⟨rfl, fun _ hc => by cases hc⟩
  | some tenant =>
      have hfound : s₁.identity.tenants.find? (·.id = tenantId) = some tenant := hrow.symm
      -- The tenant that is found has the id that was asked for.
      have hid : tenant.id = tenantId := by simpa using List.find?_some hfound
      rcases exec_bind h₁ with ⟨contract, s₂, _, _, hread₂, h₂, _⟩
      rcases exec_read hread₂ with ⟨_, _, rfl⟩
      cases contract with
      | none =>
          rcases exec_done h₂ with ⟨_, rfl, rfl⟩
          exact ⟨rfl, fun _ hc => by cases hc⟩
      | some contract =>
          dsimp only at h₂
          split at h₂
          · rcases exec_done h₂ with ⟨_, rfl, rfl⟩
            exact ⟨rfl, fun _ hc => by cases hc⟩
          · rcases exec_done h₂ with ⟨_, rfl, rfl⟩
            exact ⟨rfl, fun _ hc => by cases hc; exact hid⟩

/-- The state without the membership. -/
def withoutMember (s : State) (tenantId oidcClientId userId : String) : State :=
  { s with identity := { s.identity with
      memberships := s.identity.memberships.filter
        fun m => !m.isFor tenantId oidcClientId userId } }

theorem changes_withoutMember (s : State) (tenantId oidcClientId userId : String) :
    Changes [.memberships] s (withoutMember s tenantId oidcClientId userId) :=
  ⟨rfl, List.Subset.refl _, rfl, rfl, rfl, fun f hf => by
    cases f <;> first | rfl | exact absurd (List.mem_singleton_self _) hf⟩

/-- What a removal that succeeds does. -/
structure Removed (deps : Deps) (client : OidcClient) (tenantId userId : String) (s s' : State)
    (es : List Event) : Prop where
  retired : Retired (Cut s client tenantId userId) s s'
  revoked : ∀ f, Cut s client tenantId userId f → .familyRevoked f ∈ es
  memberships : s'.identity.memberships =
    s.identity.memberships.filter fun m => !m.isFor tenantId client.id userId
  changes : Changes [.refreshTokens, .memberships, .audit, .outbox] s s'
  told : ∃ notices, s'.outbox = notices ++ s.outbox ∧
    (∀ n ∈ notices, NoticeTo deps client s.now n) ∧
    (notices.map (·.token.sid)).Perm
      (if Tellable client then affected s client tenantId userId else [])

/-- The membership is removed, then the access is cut, and that is recorded. -/
theorem removed_of_exec {client : OidcClient} {told : List String} {es₁ : List Event} {s₁ : State}
    (hcut : Exec (withoutMember s tenantId client.id userId)
      (revokeClientAccess deps userId client tenantId) es₁ told s₁)
    (hes : ∀ e ∈ es₁, e ∈ es) (haudit : Changes [.audit] s₁ s') :
    Removed deps client tenantId userId s s' es := by
  rcases exec_revokeClientAccess hcut with ⟨hretired, hrevoked⟩
  have hmoved := (exec_touches hcut touches_revokeClientAccess).1
  -- The record of the removal writes the log alone.
  have hretired' : Retired (Cut s client tenantId userId) s s' :=
    Retired.changes ⟨hretired.now, hretired.sets, hretired.lists, hretired.tokens⟩ haudit
      (by decide)
  have hall : Changes ([.refreshTokenFamilies] ++ [.refreshTokens, .memberships, .audit, .outbox])
      s s' :=
    ((changes_withoutMember s tenantId client.id userId).mono (by decide)).trans
      ((hmoved.mono (by decide)).trans (haudit.mono (by decide)))
  refine ⟨hretired', fun f hf => hes _ (hrevoked f hf), ?_, hall.unchanged hretired'.sets, ?_⟩
  · rw [show s'.identity.memberships = s₁.identity.memberships from
      haudit.same .memberships (by decide)]
    exact hmoved.same .memberships (by decide)
  · -- The membership has nothing to do with the sessions of the user.
    rcases (told_of_revokeClientAccess hcut).sent with ⟨notices, hsent, hall, hsids⟩
    refine ⟨notices, ?_, hall, Multiset.coe_eq_coe.mp (hsids.trans ?_)⟩
    · rw [show s'.outbox = s₁.outbox from haudit.same .outbox (by decide)]
      exact hsent
    · split
      · rfl
      · rfl

/-- A removal is refused and nothing happens, or it succeeds. -/
theorem exec_uninvite {a : Option (Except ServiceMemberError Unit)}
    (h : Exec s (AuthCall.body deps (.uninvite clientId clientSecret tenantId userId)) es a s') :
    (a ≠ some (.ok ()) ∧ s' = s) ∨
      (a = some (.ok ()) ∧ ∃ client ∈ s.identity.clients, client.clientId = clientId ∧
        Removed deps client tenantId userId s s' es) := by
  -- Client, tenant and user are looked up first, and a miss ends the call.
  rcases exec_bind h with ⟨found, s₁, _, _, hauth, h₁, rfl⟩
  rcases exec_authenticateClient hauth with ⟨rfl, hfound⟩
  cases found with
  | none =>
      rcases exec_done h₁ with ⟨_, rfl, rfl⟩
      exact .inl ⟨(fun hc => by cases hc), rfl⟩
  | some client =>
      rcases hfound client rfl with ⟨hclient, hid⟩
      rcases exec_bind h₁ with ⟨answer, s₂, _, _, hrevoke, hdone, rfl⟩
      rcases exec_done hdone with ⟨rfl, rfl, rfl⟩
      rcases exec_bind hrevoke with ⟨resolved, s₃, _, _, hresolve, h₂, rfl⟩
      rcases exec_resolveContractedTenant hresolve with ⟨rfl, htenant⟩
      cases resolved with
      | error e =>
          rcases exec_done h₂ with ⟨_, rfl, rfl⟩
          exact .inl ⟨(fun hc => by cases hc), rfl⟩
      | ok tenant =>
          obtain rfl := htenant _ rfl
          rcases exec_bind h₂ with ⟨user, s₄, _, _, hread, h₃, rfl⟩
          rcases exec_read hread with ⟨_, hrow, rfl⟩
          cases user with
          | none =>
              rcases exec_done h₃ with ⟨_, rfl, rfl⟩
              exact .inl ⟨(fun hc => by cases hc), rfl⟩
          | some user =>
              have huser : s₄.identity.users.find? (·.id = userId) = some user := hrow.symm
              have huserId : user.id = userId := by simpa using List.find?_some huser
              subst huserId
              -- The membership goes, and then what rests on it.
              rcases exec_bind h₃ with ⟨_, s₅, _, _, hremove, h₄, rfl⟩
              rcases exec_atomic hremove with ⟨_, _, rfl⟩
              rcases exec_bind h₄ with ⟨told, s₆, es₁, _, hcut, h₅, rfl⟩
              rcases exec_bind h₅ with ⟨_, s₇, _, _, haudit, hdone, rfl⟩
              rcases exec_done hdone with ⟨_, rfl, rfl⟩
              refine .inr ⟨rfl, client, hclient, hid, removed_of_exec hcut (fun e he => ?_)
                (exec_touches haudit touches_recordAudit).1⟩
              simp only [List.mem_append]
              tauto

end Request

section Exactness

variable {deps : Deps} {s s' : State} {es : List Event} {client : OidcClient}
  {clientId clientSecret tenantId userId f key : String} {t : RefreshToken}

/-- The record of a session is active. -/
def ActiveRecord (s : State) (sid : String) : Prop :=
  ∃ r ∈ s.sessions, r.id = sid ∧ Sessions.isActive r s.now = true

/-- A family that is revoked belongs to the user, the service and the tenant, and
    the record of its session is active. -/
theorem Cut.origin {origin : String → Option Origin} (h : Cut s client tenantId userId f)
    (hrec : Recorded deps s) (hg : SourcedBy deps origin s) (hcolons : NoColons s) :
    ∃ o, origin f = some o ∧ (o.userId = userId ∧ o.clientId = client.clientId ∧
      o.tenantId = tenantId) ∧ ActiveRecord s o.sid := by
  rcases h with ⟨r, hr, huser, hactive, _, ref, href, hclient, htenant, rfl⟩
  rcases hg.refsOf_sound hcolons href with ⟨o, ho, hsid, hrefo⟩
  rcases (hg.known _ o ho).2.2.record with ⟨r', hr', hid', huser'⟩
  have hsame : r' = r := List.inj_on_of_nodup_map hrec.ids hr' hr (hid'.trans hsid)
  refine ⟨o, ho, ⟨huser'.symm.trans (hsame ▸ huser), ?_, ?_⟩, r, hr, hsid.symm, hactive⟩
  · rw [← hclient, hrefo]
    rfl
  · rw [← htenant, hrefo]
    rfl

/-- A token that can be used is in such a family while its session can be
    presented. -/
theorem cut_of_active (h : Settled deps s) (hcolons : NoColons s)
    (hclient : client ∈ s.identity.clients)
    (hget : Ttl.get s.refreshTokens s.now key = some t) (hactive : t.status = .active)
    (hx : (s.presented t.ssoSessionId).isSome) (huser : t.userId = userId)
    (hid : t.clientId = client.clientId) (htenant : t.tenantId = tenantId) :
    Cut s client tenantId userId t.familyId := by
  rcases Option.isSome_iff_exists.mp hx with ⟨x, hx⟩
  have href := h.refsOf_complete hcolons hget hactive hx
  rcases h.sourced with ⟨origin, hg⟩
  rcases get_eq_some.mp hget with ⟨e, he, _, rfl⟩
  have hrooted := (hg.known _ _ (hg.tokens key e he)).2.2
  -- The token's session is active, has visited the service and lists the family.
  rcases hrooted.active h.recorded hx with ⟨r, hr, hsid, huser', hactive'⟩
  have hlist : e.value.origin.familyRef e.value.familyId ∈ refsOf s r.id := by
    rw [hsid]
    exact href
  rcases hrooted.visited with ⟨id, hmem, entry, hentry, hentrySid, hentryId, hentryTenant⟩
  refine ⟨r, hr, huser'.trans huser, hactive', ⟨entry, hentry, hentrySid.trans hsid.symm, ?_,
    hentryTenant.trans htenant⟩, _, hlist, hid, htenant, rfl⟩
  exact hentryId.trans (id_of_unique h.unique hclient hmem hid.symm)

/-- After a removal no token of the user, the service and the tenant whose session
    can be presented can be used. -/
theorem inactive_of_removed {a : Option (Except ServiceMemberError Unit)}
    (hs : Settled deps s) (hcolons : NoColons s) (hclient : client ∈ s.identity.clients)
    (hexec : Exec s (AuthCall.body deps (.uninvite clientId clientSecret tenantId userId)) es a s')
    (hremoved : Removed deps client tenantId userId s s' es)
    (hget : Ttl.get s'.refreshTokens s'.now key = some t) (huser : t.userId = userId)
    (hid : t.clientId = client.clientId) (htenant : t.tenantId = tenantId)
    (hx : (s.presented t.ssoSessionId).isSome) : t.status ≠ .active := by
  intro hactive
  rcases get_eq_some.mp hget with ⟨e, he, hlive, rfl⟩
  rcases hremoved.retired.tokens key with hsame | ⟨_, _, d, _, hd, hvalue⟩
  · -- It was the same token before, and its family was revoked.
    have hbefore : Ttl.get s.refreshTokens s.now key = some e.value :=
      get_eq_some.mpr ⟨e, hsame ▸ he, hremoved.changes.now ▸ hlive, rfl⟩
    have hcut : Cut s client tenantId userId e.value.familyId :=
      cut_of_active hs hcolons hclient hbefore hactive hx huser hid htenant
    exact hs.noUsable hexec (fun _ _ _ hc => by cases hc) (fun _ _ _ hc => by cases hc)
      (hremoved.revoked _ hcut) key e.value hget rfl hactive
  -- The removal has written it, and as revoked.
  · cases hd.symm.trans he
    rw [hvalue] at hactive
    cases hactive

/-- A token that a removal changes is one of theirs, the record of its session is
    active, and it becomes revoked. -/
theorem changed_of_removed (hs : Settled deps s) (hcolons : NoColons s)
    (hremoved : Removed deps client tenantId userId s s' es) (key : String) :
    s'.refreshTokens key = s.refreshTokens key ∨
      ∃ e e', s.refreshTokens key = some e ∧ s'.refreshTokens key = some e' ∧
        e'.value = { e.value with status := .revoked } ∧ (e.value.userId = userId ∧
          e.value.clientId = client.clientId ∧ e.value.tenantId = tenantId) ∧
            ActiveRecord s e.value.sid := by
  refine (hremoved.retired.tokens key).imp_right ?_
  rintro ⟨⟨f, hf, hkey⟩, e, e', he, he', hvalue⟩
  refine ⟨e, e', he, he', hvalue, ?_⟩
  -- The set of a family leads to its own tokens, and these have its origin.
  rcases hs.sourced with ⟨origin, hg⟩
  rcases hf.origin hs.recorded hg hcolons with ⟨o, ho, hnames⟩
  rcases mem_members.mp hkey with ⟨keys, hkeys, _, hmem⟩
  have hfamily : e.value.familyId = f := (hg.sets f keys hkeys key hmem).2 e he
  have horigin : some e.value.origin = some o := (hg.tokens key e he).symm.trans (hfamily ▸ ho)
  cases horigin
  exact hnames

/-- After any run, removing a member either does nothing or revokes exactly
    what it should. No token of the user, the service and the tenant whose
    session can be presented can be used any more. A token that changes is
    one of theirs and is revoked. The memberships are the others, in their
    order. The service is told of each active session of the user that has been
    there for the tenant, by one request to its URI, if it has one and is
    active. Nothing else changes except the audit trail. -/
theorem uninvite_cuts_exactly (hinj : Function.Injective deps.keyOf) (now : Int) (db : Identity)
    (hdb : db.UniqueClients) (ls : List (Happening Event AuthCall Change Answer)) (s : State)
    (h : Runs (authSystem deps) (State.start now db) ls s) (hls : ∀ l ∈ ls, Unguessed deps l)
    (hcolons : NoColons s) (clientId clientSecret tenantId userId : String) (es : List Event)
    (a : Option (Except ServiceMemberError Unit)) (s' : State)
    (hexec : Exec s (AuthCall.body deps (.uninvite clientId clientSecret tenantId userId)) es a
      s') :
    (a ≠ some (.ok ()) → s' = s) ∧
    (a = some (.ok ()) → ∃ client ∈ s.identity.clients, client.clientId = clientId ∧
      (∀ key t, Ttl.get s'.refreshTokens s'.now key = some t → t.userId = userId →
        t.clientId = clientId → t.tenantId = tenantId →
        (s.presented t.ssoSessionId).isSome → t.status ≠ .active) ∧
      (∀ key, s'.refreshTokens key = s.refreshTokens key ∨
        ∃ e e', s.refreshTokens key = some e ∧ s'.refreshTokens key = some e' ∧
          e'.value = { e.value with status := .revoked } ∧ e.value.userId = userId ∧
            e.value.clientId = clientId ∧ e.value.tenantId = tenantId) ∧
      s'.identity.memberships =
        (s.identity.memberships.filter fun m => !m.isFor tenantId client.id userId) ∧
      (∃ notices, s'.outbox = notices ++ s.outbox ∧
        (∀ n ∈ notices, NoticeTo deps client s.now n) ∧
        (notices.map (·.token.sid)).Perm
          (if Tellable client then affected s client tenantId userId else [])) ∧
      Changes [.refreshTokens, .memberships, .audit, .outbox] s s') := by
  have hs := settled_of_runs hinj hdb h hls
  -- A call that fails changes nothing.
  rcases exec_uninvite hexec with ⟨hne, rfl⟩ | ⟨rfl, client, hclient, rfl, hremoved⟩
  · exact ⟨fun _ => rfl, fun hok => absurd hok hne⟩
  refine ⟨fun hne => absurd rfl hne, fun _ => ⟨client, hclient, rfl,
    fun key t hget huser hid htenant hx =>
      inactive_of_removed hs hcolons hclient hexec hremoved hget huser hid htenant hx,
    fun key => (changed_of_removed hs hcolons hremoved key).imp_right ?_, hremoved.memberships,
    hremoved.told, hremoved.changes⟩⟩
  rintro ⟨e, e', he, he', hvalue, hnames, _⟩
  exact ⟨e, e', he, he', hvalue, hnames⟩

/-- After any run, a removal that fails changes nothing, and one that succeeds
    leaves no active token of the user, the service and the tenant whose session
    is alive. It leaves every token of another user, service or tenant as it was,
    and every token whose session's record is not active, and so it does every
    session, every code and every other membership. What else it does to a token is
    to revoke it. -/
theorem uninvite_leaves_others (hinj : Function.Injective deps.keyOf) (now : Int) (db : Identity)
    (hdb : db.UniqueClients) (ls : List (Happening Event AuthCall Change Answer)) (s : State)
    (h : Runs (authSystem deps) (State.start now db) ls s) (hls : ∀ l ∈ ls, Unguessed deps l)
    (hcolons : NoColons s) (clientId clientSecret tenantId userId : String) (es : List Event)
    (a : Option (Except ServiceMemberError Unit)) (s' : State)
    (hexec : Exec s (AuthCall.body deps (.uninvite clientId clientSecret tenantId userId)) es a
      s') :
    (a ≠ some (.ok ()) → s' = s) ∧
    (a = some (.ok ()) →
      (∀ key t, Ttl.get s'.refreshTokens s'.now key = some t → t.userId = userId →
        t.clientId = clientId → t.tenantId = tenantId →
        (s'.presented t.ssoSessionId).isSome → t.status ≠ .active) ∧
      (∀ key e, ¬ ((e.value.userId = userId ∧ e.value.clientId = clientId ∧
        e.value.tenantId = tenantId) ∧ ActiveRecord s e.value.sid) →
          (s'.refreshTokens key = some e ↔ s.refreshTokens key = some e)) ∧
      (∀ key, s'.refreshTokens key = s.refreshTokens key ∨
        ∃ e e', s.refreshTokens key = some e ∧ s'.refreshTokens key = some e' ∧
          e'.value = { e.value with status := .revoked }) ∧
      s'.ssoSessions = s.ssoSessions ∧ s'.authorizationCodes = s.authorizationCodes ∧
      ∃ client ∈ s.identity.clients, client.clientId = clientId ∧
        s'.identity.memberships =
          s.identity.memberships.filter fun m => !m.isFor tenantId client.id userId) := by
  have hs := settled_of_runs hinj hdb h hls
  rcases exec_uninvite hexec with ⟨hne, rfl⟩ | ⟨rfl, client, hclient, rfl, hremoved⟩
  · exact ⟨fun _ => rfl, fun hok => absurd hok hne⟩
  -- Neither sessions nor codes are touched.
  have hsessions : s'.ssoSessions = s.ssoSessions :=
    hremoved.changes.same .ssoSessions (by decide)
  have hcodes : s'.authorizationCodes = s.authorizationCodes :=
    hremoved.changes.same .authorizationCodes (by decide)
  have hpresented : ∀ key, s'.presented key = s.presented key := by
    intro key
    unfold State.presented
    rw [hsessions, hremoved.changes.now]
  have hchanged := changed_of_removed hs hcolons hremoved
  refine ⟨fun hne => absurd rfl hne, fun _ => ⟨fun key t hget huser hid htenant hx => ?_,
    fun key e hother => ?_, fun key => (hchanged key).imp_right ?_, hsessions, hcodes, client,
    hclient, rfl, hremoved.memberships⟩⟩
  · rw [hpresented] at hx
    exact inactive_of_removed hs hcolons hclient hexec hremoved hget huser hid htenant hx
  · rcases hchanged key with hsame | ⟨d, d', hd, hd', hvalue, hnames⟩
    · rw [hsame]
    · -- A token that changed is one of theirs, before and after.
      constructor
      · intro he
        cases hd'.symm.trans he
        rw [hvalue] at hother
        exact absurd hnames hother
      · intro he
        cases hd.symm.trans he
        exact absurd hnames hother
  · rintro ⟨e, e', he, he', hvalue, _⟩
    exact ⟨e, e', he, he', hvalue⟩

end Exactness

section Example

/-- Alice's service removes her. -/
def removal : AuthProg (Option (Except ServiceMemberError Unit)) :=
  AuthCall.body smallDeps (.uninvite "crm" "crm-secret" acme.id alice.id)

def succeeded : Option (Except ServiceMemberError Unit) → Bool
  | some (.ok ()) => true
  | _ => false

theorem eq_of_succeeded {a : Option (Except ServiceMemberError Unit)}
    (h : succeeded a = true) : a = some (.ok ()) := by
  unfold succeeded at h
  split at h
  · rfl
  · cases h

/-- The token that the service holds for her cannot be used after that. -/
theorem removed_token_revoked : ∃ ls s es s' t,
    Runs (authSystem smallDeps) smallStart ls s ∧
    Exec s removal es (some (.ok ())) s' ∧
    Ttl.get s'.refreshTokens s'.now (smallDeps.keyOf refresh2) = some t ∧ t.status ≠ .active := by
  rcases exists_runs (authSystem smallDeps) (.ulid "") 60 smallStart
    (firstTokenTurns ++ [.env (.tick 3600), refreshTurn refresh1 refresh2 jti2])
    (fun r => r.1.all leavesNothing && noColons r.2 &&
      (removal.runAlone (.ulid "") 60
        [.random "jti-3-000000000000000A", .notified true, .audit "event" true] r.2).any fun x =>
          succeeded x.2.1 &&
          (Ttl.get x.2.2.refreshTokens x.2.2.now (smallDeps.keyOf refresh2)).any fun t =>
            t.userId = alice.id ∧ t.clientId = "crm" ∧ t.tenantId = acme.id ∧
              (r.2.presented t.ssoSessionId).isSome)
    (by decide +kernel) with ⟨ls, s, hruns, htest⟩
  simp only [Bool.and_eq_true, List.all_eq_true, Option.any_eq_true] at htest
  rcases htest with ⟨⟨hall, hcolons⟩, ⟨es, a, s'⟩, hrun, hok, t, ht, hnames⟩
  -- The refreshed token is Alice's, for the service and in the tenant of the removal.
  rcases of_decide_eq_true hnames with ⟨huser, hclient, htenant, hx⟩
  have hexec := exec_of_runAlone _ _ _ _ _ _ _ _ hrun
  obtain rfl := eq_of_succeeded hok
  rcases (uninvite_cuts_exactly smallDeps_keyOf_injective 1000 smallIdentity (by decide) ls s hruns
    (fun l hl => unguessed_of_leavesNothing (hall l hl)) (noColons_iff.mp hcolons) _ _ _ _ es _ s'
    hexec).2 rfl with ⟨_, _, _, hcut, _⟩
  exact ⟨ls, s, es, s', t, hruns, hexec, ht, hcut _ t ht huser hclient htenant hx⟩

def globex : Tenant := ⟨"01J000000000000000000GLOBEX", "globex", .active⟩

/-- Alice is a member at two tenants of the service. -/
def twoTenants : Identity :=
  { smallIdentity with
    tenants := [acme, globex]
    contracts := [⟨acme.id, crm.id, .active⟩, ⟨globex.id, crm.id, .active⟩]
    memberships := [⟨acme.id, crm.id, alice.id, .active⟩, ⟨globex.id, crm.id, alice.id, .active⟩] }

def globexCallback : String := "https://globex.crm.localhost/auth/callback"

def code2 : String := "code-2-00000000000000000000000000000000000A"
def family2 : String := "family-2-000000000000A"

/-- The service gets a token for each of them. -/
def bothTenants : AuthTurns :=
  firstTokenTurns ++
  [.call (.authorize { crmParams with redirectUri := some globexCallback } (some cookie1) browser)
      [.random code2, .audit "event" true],
    .call (.exchange "crm" "crm-secret" ⟨code2, globexCallback, verifier⟩)
      [.random family2, .random refresh2, .random jti2]]

/-- She is removed from one tenant. The token for it is revoked, and the other one is
    as it was. -/
theorem other_tenant_kept : ∃ ls s es s' t e,
    Runs (authSystem smallDeps) (State.start 1000 twoTenants) ls s ∧
    Exec s removal es (some (.ok ())) s' ∧
    Ttl.get s'.refreshTokens s'.now (smallDeps.keyOf refresh1) = some t ∧ t.status ≠ .active ∧
    e.value.tenantId = globex.id ∧ e.value.status = .active ∧
    s'.refreshTokens (smallDeps.keyOf refresh2) = some e := by
  rcases exists_runs (authSystem smallDeps) (.ulid "") 60 (State.start 1000 twoTenants) bothTenants
    (fun r => r.1.all leavesNothing && noColons r.2 &&
      ((r.2.refreshTokens (smallDeps.keyOf refresh2)).any fun e =>
        e.value.tenantId = globex.id ∧ e.value.status = .active) &&
      (removal.runAlone (.ulid "") 60
        [.random "jti-3-000000000000000A", .notified true, .audit "event" true] r.2).any fun x =>
          succeeded x.2.1 &&
          (Ttl.get x.2.2.refreshTokens x.2.2.now (smallDeps.keyOf refresh1)).any fun t =>
            t.userId = alice.id ∧ t.clientId = "crm" ∧ t.tenantId = acme.id ∧
              (x.2.2.presented t.ssoSessionId).isSome)
    (by decide +kernel) with ⟨ls, s, hruns, htest⟩
  simp only [Bool.and_eq_true, List.all_eq_true, Option.any_eq_true, decide_eq_true_eq] at htest
  rcases htest with ⟨⟨⟨hall, hcolons⟩, e, he, htenant, hactive⟩, ⟨es, a, s'⟩, hrun, hok, t, ht,
    huser, hid, hacme, hx⟩
  have hexec := exec_of_runAlone _ _ _ _ _ _ _ _ hrun
  obtain rfl := eq_of_succeeded hok
  rcases (uninvite_leaves_others smallDeps_keyOf_injective 1000 twoTenants (by decide) ls s hruns
    (fun l hl => unguessed_of_leavesNothing (hall l hl)) (noColons_iff.mp hcolons) _ _ _ _ es _ s'
    hexec).2 rfl with ⟨hcut, hother, _⟩
  refine ⟨ls, s, es, s', t, e, hruns, hexec, ht, hcut _ t ht huser hid hacme hx, htenant, hactive,
    (hother _ e ?_).mpr he⟩
  rintro ⟨⟨_, _, hsame⟩, _⟩
  rw [htenant] at hsame
  exact absurd hsame (by decide)

/-- A login in the same browser replaces the session that her token rests on. The
    record of that session stays active, so the removal still finds the token and
    changes it, though its session is gone. -/
theorem replaced_session_token_revoked : ∃ ls s es s' e e',
    Runs (authSystem smallDeps) smallStart ls s ∧ (∀ l ∈ ls, Unguessed smallDeps l) ∧
    NoColons s ∧ Exec s removal es (some (.ok ())) s' ∧
    s.refreshTokens (smallDeps.keyOf refresh1) = some e ∧
    s.presented e.value.ssoSessionId = none ∧ e.value.status = .active ∧
    s'.refreshTokens (smallDeps.keyOf refresh1) = some e' ∧ e'.value.status = .revoked := by
  rcases exists_runs (authSystem smallDeps) (.ulid "") 60 smallStart
    (firstTokenTurns ++ loginTurns pendingId2 cookie2 sid2 (some cookie1))
    (fun r => r.1.all ListedSessions.leavesNoNew && noColons r.2 &&
      ((r.2.refreshTokens (smallDeps.keyOf refresh1)).any fun e =>
        r.2.presented e.value.ssoSessionId = none ∧ e.value.status = .active) &&
      (removal.runAlone (.ulid "") 60
        [.random "jti-3-000000000000000A", .notified true, .audit "event" true] r.2).any fun x =>
          succeeded x.2.1 &&
          (x.2.2.refreshTokens (smallDeps.keyOf refresh1)).any fun e =>
            e.value.status = .revoked)
    (by decide +kernel) with ⟨ls, s, hruns, htest⟩
  simp only [Bool.and_eq_true, List.all_eq_true, Option.any_eq_true, decide_eq_true_eq] at htest
  rcases htest with ⟨⟨⟨hall, hcolons⟩, e, he, hgone, hactive⟩, ⟨es, a, s'⟩, hrun, hok, e', he',
    hrevoked⟩
  obtain rfl := eq_of_succeeded hok
  exact ⟨ls, s, es, s', e, e', hruns,
    fun l hl => ListedSessions.unguessed_of_leavesNoNew (hall l hl), noColons_iff.mp hcolons,
    exec_of_runAlone _ _ _ _ _ _ _ _ hrun, he, hgone, hactive, he', hrevoked⟩

end Example

end Sandbox.Auth.Uninvite
