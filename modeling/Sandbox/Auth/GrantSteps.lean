import Mathlib.Algebra.Order.PUnit
import Sandbox.Auth.Grants
import Sandbox.Auth.Redirects

/-!
# Requests Take Steps on Grants

Every request is a sequence of the steps of `GrantStep`, so what a grant rests
on holds after every run. Most of the work is with the programs that only take
grants away. A revocation reads a token and writes it back later, and so does
the consumption of a token. They follow one protocol: whatever is there now was
there when the program started, or it is not active.

The steps that store a grant are done by three programs. What each of them
found before it stores is carried along by an assertion.

## Main definitions

* `noGrants`: The parts that neither hold grants nor decide about them.
* `dwindling`: The protocol of taking away.
* `Reached`: A request took steps from one state to another.

## Theorems

* `amid_authorizeWithSession`, `amid_createFamily`, `amid_rotateRefreshToken`:
  The programs that store a grant.
* `reachedParts`: The parts of every request.
* `sourced_of_runs`: All grants are rooted after every run.
-/

namespace Sandbox.Auth

open Interleave Ttl

/-- The parts that neither hold grants nor decide about them. -/
def noGrants : List Field :=
  [.authorizationRequests, .mfaPending, .users, .mfaMethods, .audit, .outbox]

section Dwindling

variable {s₀ s s' : State} {c : AuthCall} {deps : Deps} {fs : List Field} {key f : String}
  {token : RefreshToken}

/-- The protocol of programs that take grants away. -/
def dwindling (s₀ : State) : Protocol Unit State Event AuthCall where
  guard := anyStep
  Inv _ s _ := Fewer s₀ s

/-- A change of other fields leaves the grants no more than they were. -/
theorem Fewer.changes (h : Fewer s₀ s) (hch : Changes fs s s') (hfs : ∀ x ∈ grantParts, x ∉ fs) :
    Fewer s₀ s' :=
  h.trans (fewer_of_same fun x hx => hch.same x (hfs x hx))

/-- A program about other things follows the protocol. -/
theorem keeps_ungranted {α : Type} {p : AuthProg α} (hp : Touches fs p)
    (hfs : ∀ x ∈ grantParts, x ∉ fs) : Keeps (dwindling s₀) c α p :=
  (safe_within hp (fun _ _ _ _ hch h => Fewer.changes h hch hfs) (fun _ _ _ _ _ h => h) 0).keeps

/-- A token was there at the start, under the key. -/
def WasThere (s₀ : State) (key : String) (token : RefreshToken) : Prop :=
  ∃ e, s₀.refreshTokens key = some e ∧ token.familyId = e.value.familyId ∧
    token.origin = e.value.origin

/-- A token that is found now was there at the start. -/
theorem Fewer.found (h : Fewer s₀ s) (hget : Ttl.get s.refreshTokens s.now key = some token) :
    WasThere s₀ key token := by
  rcases get_eq_some.mp hget with ⟨e, he, _, rfl⟩
  rcases h.tokens key e he with ⟨d, hd, hfamily, horigin, _⟩
  exact ⟨d, hd, hfamily, horigin⟩

/-- Writing a token back, but not as active. -/
theorem keeps_writeBack {t : RefreshToken} (hthere : WasThere s₀ key t)
    (hstatus : t.status ≠ .active) :
    Keeps (dwindling s₀) c _ (refreshTokens.set key t refreshTokenTtl : AuthProg _) := by
  rcases hthere with ⟨d, hd, hfamily, horigin⟩
  refine safe_write fun _ s _ h => ⟨(), ⟨h.codes, fun k e' he' => ?_, h.sets, h.lists⟩, trivial⟩
  change Ttl.set s.refreshTokens s.now key t refreshTokenTtl k = some e' at he'
  rcases put_eq_some he' with ⟨rfl, rfl⟩ | ⟨_, he'⟩
  · exact ⟨d, hd, hfamily, horigin, .inr hstatus⟩
  · exact h.tokens k e' he'

/-- Revoking a token that was there leaves the grants no more than they were. -/
theorem keeps_revokeStored {stored : Option RefreshToken}
    (hstored : ∀ t, stored = some t → WasThere s₀ key t) :
    Keeps (dwindling s₀) c _ (revokeStored key stored) := by
  cases stored with
  | none => exact (closed_keeps _ _).pure _
  | some t =>
      rcases hstored t rfl with ⟨e, he, hfamily, horigin⟩
      exact keeps_writeBack ⟨e, he, hfamily, horigin⟩ RefreshTokenStatus.noConfusion

/-- Revoking a family. -/
theorem keeps_dropFamily : Keeps (dwindling s₀) c _ (revokeRefreshTokenFamily f) := by
  refine safe_seq (Q := fun _ _ => True) ?_ fun keys _ _ => ?_
  · exact safe_logged fun _ _ _ h _ => ⟨(), h, trivial⟩
  · refine safe_seq (safe_all keys (fun key => refreshTokens.get key) (fun _ => ())
      (fun key stored _ => ∀ t, stored = some t → WasThere s₀ key t) fun key _ => ?_)
      fun records _ hrecords => ?_
    · exact safe_read fun _ s _ h => ⟨(), h, fun t ht => Fewer.found h ht⟩
    · refine Keeps.safe ((closed_keeps _ _).bind ((closed_keeps _ _).all fun x hx => ?_)
        fun _ => ?_) ()
      · exact keeps_revokeStored (hrecords.zip x hx)
      · exact safe_emit fun _ _ _ h _ => ⟨(), h, trivial⟩

/-- Consuming a token. It is not active afterwards, and it was there. -/
theorem safe_dropToken {value : String} :
    Safe (dwindling s₀) c (consumeRefreshToken deps value) ()
      fun _ _ => True := by
  refine safe_seq (Q := fun stored _ => ∀ t, stored = some t → WasThere s₀ (deps.keyOf value) t)
    ?_ fun stored _ hstored => ?_
  · refine safe_atomic fun _ s _ h => ⟨(), ⟨h.codes, fun k e' he' => ?_, h.sets, h.lists⟩,
      fun t ht => Fewer.found h ht⟩
    exact h.tokens k e' (delete_eq_some he').2
  -- What is written back is what was there, as spent.
  · cases stored with
    | none => exact safe_pure trivial
    | some t =>
        dsimp only
        split
        · next hstatus =>
            exact ((closed_keeps _ _).bind (keeps_writeBack (hstored t rfl) hstatus) fun _ =>
              (closed_keeps _ _).pure _).safe ()
        · refine ((closed_keeps _ _).bind (keeps_writeBack ?_ ?_) fun _ =>
            (closed_keeps _ _).pure _).safe ()
          · exact hstored t rfl
          · exact RefreshTokenStatus.noConfusion

/-- Taking a code out. -/
theorem keeps_takeCode :
    Keeps (dwindling s₀) c _ (authorizationCodes.getAndDelete key : AuthProg _) :=
  safe_atomic fun _ _ _ h => ⟨(), ⟨fun k e grant he hgrant =>
    h.codes k e grant (delete_eq_some he).2 hgrant, h.tokens, h.sets, h.lists⟩, trivial⟩

/-- Leaving the mark of a code. -/
theorem keeps_rememberCode : Keeps (dwindling s₀) c _ (rememberConsumedCode key f) := by
  refine safe_write fun _ s _ h => ⟨(), ⟨fun k e grant he hgrant => ?_, h.tokens, h.sets,
    h.lists⟩, trivial⟩
  rcases put_eq_some he with ⟨_, rfl⟩ | ⟨_, he⟩
  · cases hgrant
  · exact h.codes k e grant he hgrant

/-- Forgetting the families of a session. -/
theorem keeps_forgetFamilies :
    Keeps (dwindling s₀) c _ (sidRefreshFamilies.delete f : AuthProg _) :=
  safe_write fun _ _ _ h => ⟨(), ⟨h.codes, h.tokens, h.sets,
    fun sid refs hrefs => h.lists sid refs (delete_eq_some hrefs).2⟩, trivial⟩

theorem hasPeripheral_dwindling : HasPeripheral (Keeps (dwindling s₀) c) :=
  fun hp => keeps_ungranted hp (by decide)

/-- Dropping the family of a reused code adds no grant. -/
theorem keeps_dropReused {client : OidcClient} :
    Keeps (dwindling s₀) c _ (rejectReusedCode client key f) := by
  have hC := closed_keeps (ω := Outside) (dwindling s₀) c
  refine hC.bind (hasPeripheral_dwindling touches_describeRefreshTokenFamily) fun _ => ?_
  refine hC.bind keeps_dropFamily fun _ => hC.bind keeps_rememberCode fun _ => ?_
  exact hC.bind (hasPeripheral_dwindling (touches_recordAudit.mono (by decide))) fun _ => hC.pure _

theorem keeps_dropSession {sid : String} {reason : SessionRevokeReason}
    {environment : Option RequestEnvironment} :
    Keeps (dwindling s₀) c _ (revokeSessionBySid deps sid reason environment) := by
  have hC := closed_keeps (ω := Outside) (dwindling s₀) c
  refine closed_revokeSessionBySid hC hasPeripheral_dwindling
    (fun _ => keeps_ungranted touches_findSsoSessionBySid (by decide)) (fun session sid => ?_)
    (fun _ _ _ => keeps_ungranted touches_markRevoked (by decide))
    (fun _ => keeps_ungranted (touches_emit (List.mem_singleton_self _) : Touches [.sidIndex] _)
      (by decide)) _ _ _
  exact closed_revokeFoundSession hC hasPeripheral_dwindling
    (fun _ => keeps_ungranted touches_destroySsoSession (by decide)) (fun _ => keeps_dropFamily)
    (fun _ => keeps_forgetFamilies) _ _

theorem keeps_dropAccess {userId tenantId : String} {client : OidcClient} :
    Keeps (dwindling s₀) c _ (revokeClientAccess deps userId client tenantId) :=
  closed_revokeClientAccess (closed_keeps _ _) hasPeripheral_dwindling
    (fun _ => keeps_dropFamily) _ _ _

/-- What follows the protocol leaves fewer grants, amid changes of other parts. -/
theorem amid_fewer {α : Type} {p : AuthProg α} {es : List Event} {a : α}
    (h : Amid (Changes fs) s p es a s') (hfs : ∀ x ∈ grantParts, x ∉ fs)
    (hp : Keeps (dwindling s) (.loadSession none) α p) : Fewer s s' := by
  rcases amid_safe h (fun _ _ _ => trivial) (fun _ _ _ _ hch hf => Fewer.changes hf hch hfs)
    () () [] _ hp (fewer_of_same fun x _ => by cases x <;> rfl) with ⟨_, _, hfewer, _⟩
  exact hfewer

end Dwindling

section Assertions

variable {deps : Deps} {may : String → String → String → Prop} {leaving : Option String}
  {s₀ s s' : State} {es : List Event} {fs : List Field} {E : Event → Prop}

/-- A request has come from one state to another by steps on grants. -/
def Reached (deps : Deps) (may : String → String → String → Prop) (leaving : Option String)
    (s₀ s : State) : Prop :=
  Relation.ReflTransGen (GrantStep deps may leaving) s₀ s ∧ Recorded deps s ∧ Sourced deps s

/-- A session is presented and is not the one that is left. -/
def ReachedWith (deps : Deps) (may : String → String → String → Prop) (c : AuthCall)
    (leaving : Option String) (s₀ : State) (x : SsoSession) (s : State) : Prop :=
  Reached deps may leaving s₀ s ∧ s.presented x.id = some x ∧ leaving ≠ some x.id ∧
    leaving = c.leaving deps

theorem Reached.step (h : Reached deps may leaving s₀ s) (hinj : Function.Injective deps.keyOf)
    (hstep : GrantStep deps may leaving s s') : Reached deps may leaving s₀ s' :=
  ⟨h.1.tail hstep, hstep.recorded h.2.1 hinj, h.2.2.step h.2.1 hinj hstep⟩

/-- The parts that a step must leave alone if it is not about entries and
    memberships. -/
def decidingParts : List Field := [.memberships, .sessionClients]

/-- A step that removes grants and writes nothing they rest on. -/
theorem grantStep_fewer (hsteps : Relation.ReflTransGen (SessionStep deps leaving) s s')
    (hch : Changes fs s s') (hfs : ∀ x ∈ decidingParts, x ∉ fs) (hfewer : Fewer s s') :
    GrantStep deps may leaving s s' where
  sessions := hsteps
  entries := keepsEntries_of_eq (hch.same .sessionClients (hfs _ (by decide)))
  members t c u hm :=
    .inl ((member_of_eq (hch.same .memberships (hfs _ (by decide)))).mp hm)
  change := .fewer hfewer

/-- A step that is about sessions only. -/
theorem grantStep_sessions (hsteps : Relation.ReflTransGen (SessionStep deps leaving) s s')
    (hch : Changes fs s s') (hfs : ∀ x ∈ decidingParts ++ grantParts, x ∉ fs) :
    GrantStep deps may leaving s s' :=
  grantStep_fewer hsteps hch (fun x hx => hfs x (List.mem_append_left _ hx))
    (fewer_of_same fun x hx => hch.same x (hfs x (List.mem_append_right _ hx)))

/-- A step that leaves sessions alone and only takes grants away. -/
theorem grantStep_aside (hch : Changes fs s s') (hsub : fs ⊆ noSessions)
    (hfs : ∀ x ∈ decidingParts, x ∉ fs) (hfewer : Fewer s s') : GrantStep deps may leaving s s' :=
  grantStep_fewer (.single (.aside (hch.mono hsub))) hch hfs hfewer

/-- A step that writes nothing the grants rest on. -/
theorem grantStep_apart (hch : Changes noGrants s s') : GrantStep deps may leaving s s' :=
  grantStep_sessions (.single (.aside (hch.mono (by decide)))) hch (by decide)

/-- A program that touches no grants keeps every condition. -/
theorem yields_spare {α : Type} {p : AuthProg α} {P : State → Prop} (hp : Touches noGrants p) :
    Amidst noGrants E _ p P fun _ => P :=
  Yields.within (moves_changes noGrants) hp

theorem sound_noGrants : Sound (Amidst noGrants E) := sound_amidst (by decide) E

/-- What is known of the sessions after a program amid any other changes is
    known amid changes of few parts. -/
theorem steps_amid {α : Type} {p : AuthProg α} {a : α} {P : State → Prop} {Q : α → State → Prop}
    (hp : Amidst noSessions E _ p P Q) (hP : P s) (hQ : ∀ a s', Q a s' → Stepped deps leaving s s')
    (h : Amid (Changes noGrants) s p es a s') (hE : ∀ e ∈ es, E e) :
    Relation.ReflTransGen (SessionStep deps leaving) s s' ∧
      ∃ s₁, Q a s₁ ∧ Changes noSessions s₁ s' := by
  rcases hp s es a s' hP (h.mono fun _ _ hch => hch.mono (by decide)) hE with ⟨s₁, hs₁, hch⟩
  exact ⟨(hQ a s₁ hs₁).1.tail (.aside hch), s₁, hs₁, hch⟩

/-- A program that takes grants away, and nothing else that matters. -/
theorem yields_fewer {α : Type} {p : AuthProg α} {gs : List Field}
    (hinj : Function.Injective deps.keyOf) (hp : Touches gs p)
    (hgs : gs ⊆ noSessions) (hdeciding : ∀ x ∈ decidingParts, x ∉ gs)
    (hkeeps : ∀ s, Keeps (dwindling s) (.loadSession none) α p) :
    Amidst noGrants E _ p (Reached deps may leaving s₀) fun _ => Reached deps may leaving s₀ := by
  intro s es a s' hs hamid _
  refine ⟨s', hs.step hinj (grantStep_aside (amid_touches hamid hp) ?_ ?_ ?_), changes_refl s'⟩
  · exact List.append_subset.mpr ⟨hgs, by decide⟩
  · intro x hx hmem
    rcases List.mem_append.mp hmem with hmem | hmem
    · exact hdeciding x hx hmem
    · exact (by decide : ∀ x ∈ decidingParts, x ∉ noGrants) x hx hmem
  · exact amid_fewer hamid (by decide) (hkeeps s)

end Assertions

section Sessions

variable {deps : Deps} {may : String → String → String → Prop} {leaving : Option String}
  {c : AuthCall} {s₀ s s' : State} {es : List Event} {E : Event → Prop} {x : SsoSession}

/-- Loading a session, and what it finds. -/
theorem amid_reachLoad (hinj : Function.Injective deps.keyOf) (hrec : Recorded deps s)
    {key : String}
    {a : Option SsoSession} (h : Amid (Changes noGrants) s (loadSsoSessionByKey key) es a s') :
    GrantStep deps may leaving s s' ∧ Changes (.ssoSessions :: .sidIndex :: noGrants) s s' ∧
      ∀ y, a = some y → y.id = key ∧ s'.presented key = some y := by
  have hch := amid_touches h touches_loadSsoSessionByKey
  rcases steps_amid (E := fun _ => True) (yields_load hinj key) ⟨.refl, hrec⟩ (fun _ _ hq => hq.1) h
    (fun _ _ => trivial) with ⟨hsteps, s₁, hs₁, hlast⟩
  refine ⟨grantStep_sessions hsteps hch (by decide), hch, fun y hy => ?_⟩
  rcases hs₁.2 y hy with ⟨hid, hpresented⟩
  exact ⟨hid, (hlast.presented key).trans hpresented⟩

theorem yields_reachLoad (hinj : Function.Injective deps.keyOf) (key : String) :
    Amidst noGrants E _ (loadSsoSessionByKey key) (Reached deps may leaving s₀)
      fun _ => Reached deps may leaving s₀ := by
  intro s es a s' hs hamid _
  rcases amid_reachLoad hinj hs.2.1 hamid with ⟨hstep, _, _⟩
  exact ⟨s', hs.step hinj hstep, changes_refl s'⟩

theorem touches_endPrevious {cookie : Option String} :
    Touches [.ssoSessions, .sidIndex] (endPrevious deps cookie) := by
  refine touches_bind touches_loadSsoSession fun previous => ?_
  cases previous with
  | none => exact touches_pure _
  | some previous => exact touches_destroySsoSession

/-- Ending the session of the browser in which a login is finished. -/
theorem yields_reachEnd (hinj : Function.Injective deps.keyOf) {cookie : Option String}
    (hc : c.finishing = some cookie) :
    Amidst noGrants E _ (endPrevious deps cookie) (ReachedWith deps may c leaving s₀ x)
      fun _ => ReachedWith deps may c leaving s₀ x := by
  rintro s es a s' ⟨hs, hx⟩ hamid _
  have hch := amid_touches hamid touches_endPrevious
  rcases steps_amid (E := fun _ => True) (yields_endPrevious hinj hc)
    ⟨⟨.refl, hs.2.1⟩, hx⟩ (fun _ _ hq => hq.1) hamid (fun _ _ => trivial) with
    ⟨hsteps, s₁, ⟨_, hpresented, hne⟩, hlast⟩
  refine ⟨s', ⟨hs.step hinj (grantStep_sessions hsteps hch (by decide)), ?_, hne⟩, changes_refl s'⟩
  exact (hlast.presented x.id).trans hpresented

/-- A new session. -/
theorem yields_reachCreate (hinj : Function.Injective deps.keyOf)
    (hE : ∀ e, E e → leavesFor deps c leaving e) (user : User)
    (authenticated : CognitoAuthenticated) (environment : RequestEnvironment) :
    Amidst noGrants E _ (createSsoSession deps user authenticated environment)
      (Reached deps may leaving s₀) fun a => ReachedWith deps may c leaving s₀ a.session := by
  intro s es a s' hs hamid hes
  rcases amid_createSsoSession (hamid.mono fun _ _ hch => hch.mono (by decide)) with
    ⟨hcreated, hmem⟩
  rcases hE _ (hes _ hmem) _ rfl with ⟨hne, hl⟩
  have hch := amid_touches hamid touches_createSsoSession
  exact ⟨s', ⟨hs.step hinj (grantStep_sessions (.single (.created hcreated hne)) hch (by decide)),
    hcreated.presented, hne, hl⟩, changes_refl s'⟩

end Sessions

section Codes

variable {deps : Deps} {may : String → String → String → Prop} {leaving : Option String}
  {c : AuthCall} {s₀ s s' : State} {es : List Event} {E : Event → Prop} {x : SsoSession}

/-- A user who may enter is a member. -/
theorem amid_checkTenantAccess {client : OidcClient} {tenant : Tenant} {userId : String}
    {user : User} (h : Amid (Changes noGrants) s (checkTenantAccess client tenant userId) es
      (.ok user) s') : Member s tenant.id client.id userId ∧ user.id = userId := by
  rcases amid_bind changes_refl h with ⟨rows, s₁, _, _, hrows, hdone, _⟩
  -- User, tenant and membership are read at once; each is what the table had at the start.
  rcases amid_left hrows (touches_both touches_query touches_query : Touches [] _) with
    ⟨_, huser, _⟩
  rcases amid_read huser with ⟨s₃, _, hfound, _, _⟩
  rcases amid_right hrows (touches_query : Touches [] _) with ⟨_, hthree, _⟩
  rcases amid_right hthree (touches_query : Touches [] _) with ⟨_, hmembership, _⟩
  rcases amid_read hmembership with ⟨s₂, hbefore, hrow, _, _⟩
  have hmemberships : s₂.identity.memberships = s.identity.memberships :=
    hbefore.same .memberships (by decide)
  rcases decideTenantAccess_ok.mp (amid_done hdone).2.1.symm with
    ⟨hsome, _, _, _, m, hm, hstatus⟩
  refine ⟨⟨m, ?_, hstatus⟩, ?_⟩
  · rw [← hmemberships]
    exact hrow.symm.trans hm
  · have hfound' : s₃.identity.users.find? (·.id = userId) = some user := hfound.symm.trans hsome
    simpa using List.find?_some hfound'

/-- A record keeps its entries when one is made or seen again. -/
theorem amid_recordClient {sid oidcClientId tenantId : String} {seenAt : Int} {fs : List Field}
    {a : Unit}
    (h : Amid (Changes fs) s (Sessions.recordClient sid oidcClientId tenantId seenAt) es a s')
    (hfs : .sessionClients ∉ fs) :
    KeepsEntries s s' ∧ ∃ e ∈ s'.sessionClients, e.sessionId = sid ∧
      e.oidcClientId = oidcClientId ∧ e.tenantId = tenantId := by
  rcases amid_write h with ⟨s₁, hbefore, hafter, _⟩
  have hold : s₁.sessionClients = s.sessionClients := hbefore.same .sessionClients hfs
  have hnew := hafter.same .sessionClients hfs
  change s'.sessionClients = if _ then _ else _ at hnew
  rw [hold] at hnew
  -- A visit that is known is renewed, and another one is appended.
  by_cases hany : s.sessionClients.any (fun e : SessionClientEntry =>
      e.sessionId = sid ∧ e.oidcClientId = oidcClientId ∧ e.tenantId = tenantId)
  · rw [if_pos hany] at hnew
    rw [hnew]
    have hmap : ∀ e ∈ s.sessionClients, ∃ e' ∈ s'.sessionClients, e'.sessionId = e.sessionId ∧
        e'.oidcClientId = e.oidcClientId ∧ e'.tenantId = e.tenantId := by
      intro e he
      refine ⟨_, hnew ▸ List.mem_map_of_mem he, ?_⟩
      split <;> exact ⟨rfl, rfl, rfl⟩
    rcases List.any_eq_true.mp hany with ⟨e, he, hentry⟩
    rcases of_decide_eq_true hentry with ⟨hsid, hclient, htenant⟩
    rcases hmap e he with ⟨e', he', hsid', hclient', htenant'⟩
    exact ⟨hmap, e', hnew ▸ he', hsid'.trans hsid, hclient'.trans hclient, htenant'.trans htenant⟩
  · rw [if_neg hany] at hnew
    refine ⟨fun e he => ⟨e, ?_, rfl, rfl, rfl⟩,
      ⟨sid, oidcClientId, tenantId, seenAt, seenAt⟩, ?_, rfl, rfl, rfl⟩
    · rw [hnew]
      exact List.mem_append_left _ he
    · rw [hnew]
      exact List.mem_append_right _ (List.mem_singleton_self _)

/-- Touching a session enters the client and the tenant in its record. -/
theorem amid_touchEntries {client : OidcClient} {tenantId : String}
    {environment : RequestEnvironment} {a : SsoSession}
    (h : Amid (Changes noGrants) s (touchSsoSession x client tenantId environment) es a s') :
    KeepsEntries s s' ∧ ∃ e ∈ s'.sessionClients, e.sessionId = x.sid ∧
      e.oidcClientId = client.id ∧ e.tenantId = tenantId := by
  rcases amid_bind changes_refl h with ⟨now, s₁, _, _, hnow, h₁, _⟩
  have hfirst : Changes noGrants s s₁ := (amid_nowSeconds hnow).2
  rcases amid_bind changes_refl h₁ with ⟨answers, s₂, _, _, hboth, hrest, _⟩
  -- What follows the writes is at most an entry of the log.
  have hlast : Changes noGrants s₂ s' := by
    refine amid_among hrest (?_ : Touches [.audit] _) (by decide)
    split
    · exact touches_pure _
    · split
      · exact touches_bind touches_recordAudit fun _ => touches_pure _
      · exact touches_pure _
  rcases amid_right hboth touches_sessionsTouch with ⟨_, hothers, _⟩
  rcases amid_right hothers (touches_setLogged onField_ssoSessions rfl) with ⟨_, hrecord, _⟩
  rcases amid_recordClient hrecord (by decide) with ⟨hkeeps, e, he, hentry⟩
  have hbefore : s₁.sessionClients = s.sessionClients := hfirst.same .sessionClients (by decide)
  have hafter : s'.sessionClients = s₂.sessionClients := hlast.same .sessionClients (by decide)
  refine ⟨((keepsEntries_of_eq hbefore).trans hkeeps).trans (keepsEntries_of_eq hafter), e, ?_,
    hentry⟩
  rw [hafter]
  exact he

/-- A code that is issued is granted. -/
theorem amid_authorizeWithSession {rid : Option String} {request : ValidatedAuthorizationRequest}
    {environment : RequestEnvironment} {code : String}
    (hx : s.presented x.id = some x) (hclient : request.client ∈ s.identity.clients)
    (h : Amid (Changes noGrants) s (authorizeWithSession deps rid request x environment) es
      (.ok code) s') :
    Granted (deps.keyOf code) (codeGrant request x) request.client s s' ∧
      GrantStep deps may leaving s s' := by
  have hwiden : ∀ s s', Changes noGrants s s' → Changes noSessions s s' :=
    fun _ _ hch => hch.mono (by decide)
  rcases amid_bind changes_refl h with ⟨access, s₁, _, _, haccess, h₁, _⟩
  have hch₁ : Changes noGrants s s₁ :=
    amid_touches haccess (touches_checkTenantAccess : Touches [] _)
  cases access with
  | error reason => cases (amid_done h₁).2.1
  | ok user =>
      have hmember := (amid_checkTenantAccess haccess).1
      rcases amid_bind changes_refl h₁ with ⟨value, s₂, _, _, hrandom, h₂, _⟩
      rcases amid_randomToken hrandom with ⟨_, _, _, hch₂⟩
      rcases amid_bind changes_refl h₂ with ⟨_, s₃, _, _, hstore, h₃, _⟩
      rcases amid_bind changes_refl h₃ with ⟨_, s₄, _, _, htouch, hdone, _⟩
      rcases amid_done hdone with ⟨_, heq, hch₄⟩
      cases heq
      -- The write itself happens at some moment between the step's ends.
      rcases amid_logged hstore with ⟨s₅, hbefore, _, hafter, _⟩
      have hfirst : Changes noGrants s s₅ := (hch₁.trans hch₂).trans hbefore
      have hch₃ : Changes (.authorizationCodes :: noGrants) s₂ s₃ :=
        amid_touches hstore (touches_setLogged onField_authorizationCodes rfl)
      have hbeforeTouch : Changes (.authorizationCodes :: noGrants) s s₃ :=
        ((hch₁.trans hch₂).mono (by decide)).trans hch₃
      have htouches := amid_touches htouch touches_touchSsoSession
      have hlast : Changes ([.ssoSessions, .sessions, .sessionClients, .audit] ++ noGrants) s₃ s' :=
        htouches.trans (hch₄.mono (by decide))
      have htouched := amid_touchSsoSession (htouch.mono hwiden)
      rcases amid_touchEntries htouch with ⟨hkeeps, e, he, hentry⟩
      have hfinal : s'.sessionClients = s₄.sessionClients := hch₄.same .sessionClients (by decide)
      have hentries : KeepsEntries s s' :=
        ((keepsEntries_of_eq (hbeforeTouch.same .sessionClients (by decide))).trans hkeeps).trans
          (keepsEntries_of_eq hfinal)
      -- Nothing but that write touches the codes.
      have hcodes : s'.authorizationCodes = Ttl.set s.authorizationCodes s.now (deps.keyOf code)
          (.unused (codeGrant request x)) authorizationCodeTtl := by
        rw [show s'.authorizationCodes = s₃.authorizationCodes from
            hlast.same .authorizationCodes (by decide),
          show s₃.authorizationCodes = _ from hafter.same .authorizationCodes (by decide),
          ← show s₅.authorizationCodes = s.authorizationCodes from
            hfirst.same .authorizationCodes (by decide), ← hfirst.now]
        rfl
      have hall : Changes
          ([.ssoSessions, .sessions, .sessionClients, .authorizationCodes] ++ noGrants) s s' :=
        (hbeforeTouch.mono (by decide)).trans (hlast.mono (by decide))
      have hgranted : Granted (deps.keyOf code) (codeGrant request x) request.client s s' :=
        { others := fun f hf => hall.same f fun hmem =>
            (by decide : ∀ f ∈ tokenParts, f ∉
              [Field.ssoSessions, .sessions, .sessionClients, .authorizationCodes] ++ noGrants)
                f hf hmem
          presented := ⟨x, hx, rfl, rfl, rfl⟩
          registered := hclient
          clientId := rfl
          member := hmember
          codes := hcodes
          entry := ⟨e, hfinal ▸ he, hentry⟩ }
      refine ⟨hgranted, ?_, hentries, fun t c u hm => ?_, .granted hgranted⟩
      -- The session is touched after the code was stored.
      · have haside : Changes noSessions s s₃ := hbeforeTouch.mono (by decide)
        refine .tail (.tail (.single (.aside haside)) (.touched htouched ?_))
          (.aside (hwiden _ _ hch₄))
        exact (haside.presented x.id).trans hx
      · exact .inl ((member_of_eq (hall.same .memberships (by decide))).mp hm)

/-- A request that passes the checks is about a registered client. -/
theorem amid_validate {params : RawParams} {request : ValidatedAuthorizationRequest}
    (h : Amid (Changes noGrants) s (validateAuthorizationRequest params) es (.ok request) s') :
    request.client ∈ s.identity.clients := by
  unfold validateAuthorizationRequest at h
  split at h
  · cases (amid_done h).2.1
  · cases (amid_done h).2.1
  · rcases amid_bind changes_refl h with ⟨found, s₁, _, _, hfind, h₁, _⟩
    -- The client is read from the directory, which stays as it is.
    rcases amid_read hfind with ⟨s₂, hbefore, hfound, _, _⟩
    cases found with
    | none => cases (amid_done h₁).2.1
    | some client =>
        dsimp only at h₁
        split at h₁
        · cases (amid_done h₁).2.1
        · split at h₁
          · cases (amid_done h₁).2.1
          · split at h₁
            · cases (amid_done h₁).2.1
            · rcases amid_bind changes_refl h₁ with ⟨tenant, s₃, _, _, _, h₂, _⟩
              cases tenant with
              | none => cases (amid_done h₂).2.1
              | some tenant =>
                  rw [(Redirects.validateParams_ok (amid_done h₂).2.1.symm).1, ← hbefore.clients]
                  exact List.mem_of_find?_eq_some hfound.symm

/-- Storing a code for a session is a step of the grants. -/
theorem yields_reachCode (hinj : Function.Injective deps.keyOf) (rid : Option String)
    (request : ValidatedAuthorizationRequest) (environment : RequestEnvironment) :
    Amidst noGrants E _ (authorizeWithSession deps rid request x environment)
      (fun s => ReachedWith deps may c leaving s₀ x s ∧ request.client ∈ s.identity.clients)
      fun _ => Reached deps may leaving s₀ := by
  rintro s es a s' ⟨⟨hs, hx, _⟩, hclient⟩ hamid _
  cases a with
  | ok code =>
      exact ⟨s', hs.step hinj (amid_authorizeWithSession hx hclient hamid).2,
        changes_refl s'⟩
  -- Access is denied before anything is stored.
  | error reason =>
      refine ⟨s, hs, ?_⟩
      rcases amid_bind changes_refl hamid with ⟨access, s₁, _, _, haccess, h₁, _⟩
      have hch₁ : Changes noGrants s s₁ :=
        amid_touches haccess (touches_checkTenantAccess : Touches [] _)
      cases access with
      | error reason => exact hch₁.trans (amid_done h₁).2.2
      | ok user =>
          rcases amid_bind changes_refl h₁ with ⟨value, s₂, _, _, _, h₂, _⟩
          rcases amid_bind changes_refl h₂ with ⟨_, s₃, _, _, _, h₃, _⟩
          rcases amid_bind changes_refl h₃ with ⟨_, s₄, _, _, _, hdone, _⟩
          cases (amid_done hdone).2.1

theorem yields_reachResume (hinj : Function.Injective deps.keyOf) (result : LoginSuccess)
    (rid : String) (environment : RequestEnvironment) :
    Amidst noGrants E _ (resumeLogin deps result rid environment)
      (ReachedWith deps may c leaving s₀ result.session) fun _ => Reached deps may leaving s₀ := by
  refine sound_noGrants.bind (Q := fun _ => ReachedWith deps may c leaving s₀ result.session) ?_
    fun request => ?_
  -- Taking the request out touches no grant.
  · unfold takeRequest
    split
    · exact sound_noGrants.pure _ le_rfl
    · exact yields_spare ((touches_getAndDelete onField_authorizationRequests).mono (by decide))
  · cases request with
    | none => exact sound_noGrants.pure _ fun _ hs => hs.1
    | some pending =>
        refine sound_noGrants.bind (Q := fun _ => Reached deps may leaving s₀) ?_ fun _ =>
          sound_noGrants.pure _ le_rfl
        refine sound_noGrants.bind (Q := fun rows s =>
          ReachedWith deps may c leaving s₀ result.session s ∧
            ∀ client, rows.1 = some client → client ∈ s.identity.clients) ?_ fun rows => ?_
        · intro s es rows s' hs hamid _
          have hch : Changes noGrants s s' :=
            amid_touches hamid (touches_both touches_query touches_query : Touches [] _)
          -- The client is read from the directory, so it is a registered one.
          rcases amid_left hamid (touches_query : Touches [] _) with ⟨_, hfind, _⟩
          rcases amid_read hfind with ⟨s₁, hbefore, hfound, _, _⟩
          refine ⟨s, ⟨hs, fun client hclient => ?_⟩, hch⟩
          rw [← hbefore.clients]
          exact List.mem_of_find?_eq_some (hfound.symm.trans hclient)
        · split
          · next client tenant hclient _ =>
              split
              · exact sound_noGrants.pure _ fun _ hs => hs.1.1
              · refine sound_noGrants.bind (sound_noGrants.weaken (yields_reachCode hinj _ _ _)
                  fun s hs => ⟨hs.1, hs.2 client hclient⟩) fun _ => ?_
                exact sound_noGrants.pure _ le_rfl
          · exact sound_noGrants.pure _ fun _ hs => hs.1.1

/-- The authorization endpoint makes steps of the grants alone. -/
theorem yields_reachEndpoint (hinj : Function.Injective deps.keyOf) {params : RawParams}
    {cookie : Option String} {environment : RequestEnvironment} (hc : c.finishing = none)
    (hl : leaving = none ∨ leaving = c.leaving deps) :
    Amidst noGrants E _ (authorize deps params cookie environment) (Reached deps may leaving s₀)
      fun _ => Reached deps may leaving s₀ := by
  have hnone : c.leaving deps = none := by
    rw [AuthCall.leaving, hc]
    rfl
  have hleaving : leaving = none := hl.elim id fun h => h.trans hnone
  -- A request that passes the checks is of a registered client.
  refine sound_noGrants.bind (Q := fun validated s => Reached deps may leaving s₀ s ∧
    ∀ request, validated = .ok request → request.client ∈ s.identity.clients) ?_
    fun validated => ?_
  · intro s es validated s' hs hamid _
    have hch : Changes noGrants s s' :=
      amid_touches hamid (touches_validateAuthorizationRequest : Touches [] _)
    refine ⟨s, ⟨hs, fun request hrequest => ?_⟩, hch⟩
    subst hrequest
    exact amid_validate hamid
  · cases validated with
    | error e => exact sound_noGrants.pure _ fun _ hs => hs.1
    | ok request =>
        refine sound_noGrants.bind (Q := fun a s => request.client ∈ s.identity.clients ∧
          a.elim (Reached deps may leaving s₀ s) fun x => ReachedWith deps may c leaving s₀ x s) ?_
          fun session => ?_
        · cases cookie with
          | none => exact sound_noGrants.pure _ fun _ hs => ⟨hs.2 request rfl, hs.1⟩
          | some value =>
              unfold loadSsoSession
              dsimp only
              split
              · exact sound_noGrants.pure _ fun _ hs => ⟨hs.2 request rfl, hs.1⟩
              · rintro s es a s' ⟨hs, hclient⟩ hamid _
                rcases amid_reachLoad hinj hs.2.1 hamid with ⟨hstep, hch, hfound⟩
                have hs' := hs.step hinj hstep
                have hclients : request.client ∈ s'.identity.clients :=
                  hch.clients ▸ hclient request rfl
                refine ⟨s', ⟨hclients, ?_⟩, changes_refl s'⟩
                cases a with
                | none => exact hs'
                | some x =>
                    rcases hfound x rfl with ⟨hid, hx⟩
                    refine ⟨hs', hid.symm ▸ hx, fun hleft => ?_, hleaving.trans hnone.symm⟩
                    cases hleaving.symm.trans hleft
        -- Without a session the request is put aside, with one a code is stored.
        · cases session with
          | none =>
              refine sound_noGrants.bind (sound_noGrants.weaken (yields_spare
                (touches_storePendingAuthorization.mono (by decide))) fun _ hs => hs.2) fun _ => ?_
              exact sound_noGrants.pure _ le_rfl
          | some x =>
              refine sound_noGrants.bind (sound_noGrants.weaken (yields_reachCode hinj _ _ _)
                fun _ hs => ⟨hs.2, hs.1⟩) fun _ => ?_
              exact sound_noGrants.pure _ le_rfl

end Codes

section Tokens

variable {deps : Deps} {may : String → String → String → Prop} {leaving : Option String}
  {c : AuthCall} {s₀ s s' : State} {es : List Event} {E : Event → Prop} {o : Origin}

/-- What an origin rests on stays while a session is loaded. -/
theorem yields_loadRooted (hinj : Function.Injective deps.keyOf) (key : String) :
    Amidst noGrants E _ (loadSsoSessionByKey key)
      (fun s => Reached deps may leaving s₀ s ∧ Rooted deps s o)
      fun _ s => Reached deps may leaving s₀ s ∧ Rooted deps s o := by
  rintro s es a s' ⟨hs, ho⟩ hamid _
  rcases amid_reachLoad hinj hs.2.1 hamid with ⟨hstep, _, _⟩
  exact ⟨s', ⟨hs.step hinj hstep, ho.step hs.2.1 hinj hstep.sessions hstep.entries⟩,
    changes_refl s'⟩

/-- A token that is stored under a fresh value. -/
theorem amid_storeRefreshToken {input : NewRefreshTokenInput} {f : String}
    {issued : IssuedRefreshToken}
    (h : Amid (Changes noGrants) s (storeRefreshToken deps input f) es issued s') :
    issued.record = input.record f ∧ issued.value ∉ s.issued ∧ issued.value ∈ s'.issued ∧
      s'.refreshTokens =
        Ttl.set s.refreshTokens s.now (deps.keyOf issued.value) (input.record f) refreshTokenTtl ∧
      Changes (.refreshTokens :: noGrants) s s' := by
  have hch := amid_touches h touches_storeRefreshToken
  rcases amid_bind changes_refl h with ⟨v, s₁, _, _, hrandom, h₁, _⟩
  rcases amid_randomToken hrandom with ⟨hfresh, hissued, _, hch₁⟩
  rcases amid_bind changes_refl h₁ with ⟨_, s₂, _, _, hstore, hdone, _⟩
  rcases amid_done hdone with ⟨_, rfl, hch₂⟩
  rcases amid_logged hstore with ⟨s₃, hbefore, _, hafter, _⟩
  have hlater : s₁.issued ⊆ s'.issued :=
    List.Subset.trans (amid_touches hstore (touches_setLogged onField_refreshTokens rfl)).issued
      hch₂.issued
  refine ⟨rfl, hfresh, hlater hissued, ?_, hch⟩
  -- Before and after the write the tokens are left alone.
  rw [show s'.refreshTokens = s₂.refreshTokens from hch₂.same .refreshTokens (by decide),
    show s₂.refreshTokens = _ from hafter.same .refreshTokens (by decide),
    ← show s₃.refreshTokens = s.refreshTokens from
      (hch₁.trans hbefore).same .refreshTokens (by decide), ← (hch₁.trans hbefore).now]
  rfl

/-- A program that only stores tokens takes a step. -/
theorem grantStep_tokens (hch : Changes (tokenParts ++ noGrants) s s')
    (h : GrantChange deps s s') : GrantStep deps may leaving s s' where
  sessions := .single (.aside (hch.mono (by decide)))
  entries := keepsEntries_of_eq (hch.same .sessionClients (by decide))
  members t c u hm := .inl ((member_of_eq (hch.same .memberships (by decide))).mp hm)
  change := h

/-- A family is started under an origin. -/
theorem amid_createFamily {input : NewRefreshTokenInput} {issued : IssuedRefreshToken}
    (h : Amid (Changes noGrants) s (createRefreshTokenFamily deps input) es issued s')
    (ho : ∀ f, Rooted deps s (input.record f).origin) :
    Redeemed deps issued.value issued.record s s' := by
  rcases amid_bind changes_refl h with ⟨f, s₁, _, _, hrandom, h₁, _⟩
  rcases amid_randomToken hrandom with ⟨hfreshF, hissuedF, hform, hch₁⟩
  rcases amid_bind changes_refl h₁ with ⟨stored, s₂, _, _, hstore, h₂, _⟩
  rcases amid_storeRefreshToken hstore with ⟨hrecord, hfresh, hissued, htokens, hch₂⟩
  rcases amid_bind changes_refl h₂ with ⟨_, s₃, _, _, hboth, hdone, _⟩
  rcases amid_done hdone with ⟨_, rfl, hch₄⟩
  have hch₃ : Changes ([.refreshTokenFamilies, .sidRefreshFamilies] ++ noGrants) s₂ s₃ :=
    amid_touches hboth (touches_both
      ((touches_addLogged onField_refreshTokenFamilies rfl).mono (by decide))
      ((touches_add onField_sidRefreshFamilies).mono (by decide)))
  -- The list of the family and the set of the `sid` are written at once.
  rcases amid_left hboth (touches_add onField_sidRefreshFamilies) with ⟨_, hset, _⟩
  rcases amid_right hboth (touches_addLogged onField_refreshTokenFamilies rfl) with ⟨_, hlist, _⟩
  rcases amid_logged hset with ⟨s₄, hbefore, _, hafter, _⟩
  rcases amid_write hlist with ⟨s₅, hbefore', hafter', _⟩
  have hlast : Changes ([.refreshTokenFamilies, .sidRefreshFamilies] ++ noGrants) s₂ s' :=
    hch₃.trans (hch₄.mono (by decide))
  have hfirst : Changes (.refreshTokens :: noGrants) s s₂ := (hch₁.mono (by decide)).trans hch₂
  have hmore : s₂.issued ⊆ s'.issued := hlast.issued
  constructor
  · exact (show s'.authorizationCodes = s₂.authorizationCodes from
      hlast.same .authorizationCodes (by decide)).trans
        (hfirst.same .authorizationCodes (by decide))
  · rw [hrecord]
    exact ho f
  · rw [hrecord]
    exact hfreshF
  · rw [hrecord]
    exact hmore (hch₂.issued hissuedF)
  · rw [hrecord]
    exact colon_notMem_of_isBase64Url hform
  · exact fun hmem => hfresh (hch₁.issued hmem)
  · exact hmore hissued
  · rw [show s'.refreshTokens = s₂.refreshTokens from hlast.same .refreshTokens (by decide),
      htokens, hrecord,
      show s₁.refreshTokens = s.refreshTokens from hch₁.same .refreshTokens (by decide),
      hch₁.now]
  · rw [show s'.refreshTokenFamilies = s₃.refreshTokenFamilies from
        hch₄.same .refreshTokenFamilies (by decide),
      show s₃.refreshTokenFamilies = _ from hafter.same .refreshTokenFamilies (by decide),
      ← show s₄.refreshTokenFamilies = s.refreshTokenFamilies from
        ((show s₄.refreshTokenFamilies = s₂.refreshTokenFamilies from
          hbefore.same .refreshTokenFamilies (by decide)).trans
          (hfirst.same .refreshTokenFamilies (by decide))),
      ← hfirst.now, ← hbefore.now, hrecord]
    rfl
  · rw [show s'.sidRefreshFamilies = s₃.sidRefreshFamilies from
        hch₄.same .sidRefreshFamilies (by decide),
      show s₃.sidRefreshFamilies = _ from hafter'.same .sidRefreshFamilies (by decide),
      ← show s₅.sidRefreshFamilies = s.sidRefreshFamilies from
        ((show s₅.sidRefreshFamilies = s₂.sidRefreshFamilies from
          hbefore'.same .sidRefreshFamilies (by decide)).trans
          (hfirst.same .sidRefreshFamilies (by decide))),
      ← hfirst.now, ← hbefore'.now, hrecord]
    rfl

/-- The next token of a family. -/
theorem amid_rotateRefreshToken {current : RefreshToken} {issued : IssuedRefreshToken}
    (h : Amid (Changes noGrants) s (rotateRefreshToken deps current) es issued s')
    (hknown : Known current s) : Rotated deps issued.value issued.record s s' := by
  rcases amid_bind changes_refl h with ⟨stored, s₂, _, _, hstore, h₂, _⟩
  rcases amid_storeRefreshToken hstore with ⟨hrecord, hfresh, hissued, htokens, hfirst⟩
  rcases amid_bind changes_refl h₂ with ⟨_, s₃, _, _, hset, hdone, _⟩
  rcases amid_done hdone with ⟨_, rfl, hch₄⟩
  -- The token is stored first, and its key is added to the family afterwards.
  have hch₃ : Changes (.refreshTokenFamilies :: noGrants) s₂ s₃ :=
    amid_touches hset (touches_addLogged onField_refreshTokenFamilies rfl)
  rcases amid_logged hset with ⟨s₄, hbefore, _, hafter, _⟩
  have hlast : Changes (.refreshTokenFamilies :: noGrants) s₂ s' :=
    hch₃.trans (hch₄.mono (by decide))
  -- Each part is what its own write left, since others touch no grant meanwhile.
  constructor
  · exact (show s'.authorizationCodes = s₂.authorizationCodes from
      hlast.same .authorizationCodes (by decide)).trans
        (hfirst.same .authorizationCodes (by decide))
  · rw [hrecord]
    exact hknown
  · exact hfresh
  · exact hlast.issued hissued
  · rw [show s'.refreshTokens = s₂.refreshTokens from hlast.same .refreshTokens (by decide),
      htokens, hrecord]
  · rw [show s'.refreshTokenFamilies = s₃.refreshTokenFamilies from
        hch₄.same .refreshTokenFamilies (by decide),
      show s₃.refreshTokenFamilies = _ from hafter.same .refreshTokenFamilies (by decide),
      ← show s₄.refreshTokenFamilies = s.refreshTokenFamilies from
        ((show s₄.refreshTokenFamilies = s₂.refreshTokenFamilies from
          hbefore.same .refreshTokenFamilies (by decide)).trans
          (hfirst.same .refreshTokenFamilies (by decide))),
      ← hfirst.now, ← hbefore.now, hrecord]
    rfl
  · exact (show s'.sidRefreshFamilies = s₂.sidRefreshFamilies from
      hlast.same .sidRefreshFamilies (by decide)).trans
        (hfirst.same .sidRefreshFamilies (by decide))

/-- A code that is taken out was rooted. -/
theorem yields_takeCode (hinj : Function.Injective deps.keyOf) (key : String) :
    Amidst noGrants E _ (authorizationCodes.getAndDelete key) (Reached deps may leaving s₀)
      fun stored s => Reached deps may leaving s₀ s ∧
        ∀ grant, stored = some (.unused grant) → Rooted deps s grant.origin := by
  intro s es stored s' hs hamid _
  have hch := amid_touches hamid (touches_getAndDelete onField_authorizationCodes)
  have hstep : GrantStep deps may leaving s s' :=
    grantStep_aside hch (by decide) (by decide) (amid_fewer hamid (by decide) keeps_takeCode)
  refine ⟨s', ⟨hs.step hinj hstep, fun grant hgrant => ?_⟩, changes_refl s'⟩
  rcases amid_atomic hamid with ⟨s₁, hbefore, hfound, _, _⟩
  have hget : Ttl.get s₁.authorizationCodes s₁.now key = some (.unused grant) :=
    hfound.symm.trans hgrant
  rcases get_eq_some.mp hget with ⟨e, he, _, hvalue⟩
  rw [show s₁.authorizationCodes = s.authorizationCodes from
    hbefore.same .authorizationCodes (by decide)] at he
  rcases hs.2.2 with ⟨origin, hsourced⟩
  exact (hsourced.codes key e grant he hvalue).1.step hs.2.1 hinj hstep.sessions hstep.entries

/-- Redeeming a code that has a root gives a family with one. -/
theorem yields_reachRedeem (hinj : Function.Injective deps.keyOf) {client : OidcClient}
    {codeKey : String} {stored : CodeGrant} {user : User} {tenant : Tenant}
    (hclient : stored.clientId = client.clientId) :
    Amidst noGrants E _ (redeemCode deps client codeKey stored user tenant)
      (fun s => Reached deps may leaving s₀ s ∧ Rooted deps s stored.origin)
      fun _ => Reached deps may leaving s₀ := by
  refine sound_noGrants.bind (Q := fun _ => Reached deps may leaving s₀) ?_ fun issued => ?_
  · rintro s es issued s' ⟨hs, ho⟩ hamid _
    have hch := amid_touches hamid
      (touches_both touches_createRefreshTokenFamily touches_issueTokens)
    rcases amid_left hamid (touches_issueTokens : Touches [] _) with ⟨_, hcreate, _⟩
    refine ⟨s', hs.step hinj (grantStep_tokens (hch.mono (by decide)) (.redeemed
      (amid_createFamily hcreate fun f => ?_))), changes_refl s'⟩
    rw [origin_refreshInput hclient]
    exact ho
  · refine sound_noGrants.bind ?_ fun _ => sound_noGrants.pure _ le_rfl
    exact yields_fewer hinj touches_rememberConsumedCode (by decide) (by decide)
      fun _ => keeps_rememberCode

theorem yields_reachExchange (hinj : Function.Injective deps.keyOf) (client : OidcClient)
    (input : CodeExchangeInput) :
    Amidst noGrants E _ (exchangeAuthorizationCode deps client input) (Reached deps may leaving s₀)
      fun _ => Reached deps may leaving s₀ := by
  refine sound_noGrants.bind (yields_takeCode hinj _) fun stored => ?_
  split
  · exact sound_noGrants.pure _ fun _ hs => hs.1
  · exact sound_noGrants.weaken (yields_fewer hinj touches_rejectReusedCode (by decide) (by decide)
      fun _ => keeps_dropReused) fun _ hs => hs.1
  · next grant =>
      split
      · exact sound_noGrants.pure _ fun _ hs => hs.1
      · next hbinding =>
          -- The code was issued to the client that presents it.
          have hclient : grant.clientId = client.clientId := by
            unfold validateCodeBinding at hbinding
            split at hbinding
            · cases hbinding
            · next hne => exact not_not.mp hne
          refine sound_noGrants.weaken (P := fun s => Reached deps may leaving s₀ s ∧
            ∀ g, some (AuthorizationCode.unused grant) = some (.unused g) →
              Rooted deps s g.origin) (R := fun s => Reached deps may leaving s₀ s ∧
              Rooted deps s grant.origin) ?_ fun s hs => ⟨hs.1, hs.2 grant rfl⟩
          -- The root of the grant is kept while the session is loaded.
          refine sound_noGrants.bind (Yields.both_left (moves_changes noGrants)
            (yields_loadRooted hinj _)
            (touches_both touches_query touches_resolveTenant : Touches noGrants _)) fun rows => ?_
          split
          · exact sound_noGrants.pure _ fun _ hs => hs.1
          · exact sound_noGrants.pure _ fun _ hs => hs.1
          · exact sound_noGrants.pure _ fun _ hs => hs.1
          · exact yields_reachRedeem hinj hclient

/-- A consumed token is known afterwards. -/
theorem yields_reachConsume (hinj : Function.Injective deps.keyOf) (value : String) :
    Amidst noGrants E _ (consumeRefreshToken deps value) (Reached deps may leaving s₀)
      fun consumed s => Reached deps may leaving s₀ s ∧
        ∀ token, consumed = .consumed token → Known token s := by
  intro s es consumed s' hs hamid _
  have hch := amid_touches hamid touches_consumeRefreshToken
  refine ⟨s', ⟨hs.step hinj (grantStep_aside hch (by decide) (by decide)
    (amid_fewer hamid (by decide) safe_dropToken)), fun token htoken => ?_⟩, changes_refl s'⟩
  subst htoken
  rcases amid_bind changes_refl hamid with ⟨stored, s₁, _, _, _, h₁, _⟩
  cases stored with
  | none => cases (amid_done h₁).2.1
  | some t =>
      dsimp only at h₁
      split at h₁
      · rcases amid_bind changes_refl h₁ with ⟨_, s₂, _, _, _, hdone, _⟩
        cases (amid_done hdone).2.1
      · rcases amid_bind changes_refl h₁ with ⟨_, s₂, _, _, hset, hdone, _⟩
        rcases amid_done hdone with ⟨_, heq, hlast⟩
        cases heq
        -- The token was put back as rotated, so it is known.
        rcases amid_write hset with ⟨s₃, _, hafter, _⟩
        refine ⟨deps.keyOf value, ⟨{ token with status := .rotated }, s₃.now + refreshTokenTtl⟩, ?_,
          rfl, rfl⟩
        rw [show s'.refreshTokens = s₂.refreshTokens from hlast.same .refreshTokens (by decide),
          show s₂.refreshTokens = _ from hafter.same .refreshTokens (by decide)]
        exact put_self _ _ _

/-- Loading a session keeps what is known of a token. -/
theorem yields_loadKnown (hinj : Function.Injective deps.keyOf) (key : String)
    (token : RefreshToken) :
    Amidst noGrants E _ (loadSsoSessionByKey key)
      (fun s => Reached deps may leaving s₀ s ∧ Known token s)
      fun _ s => Reached deps may leaving s₀ s ∧ Known token s := by
  rintro s es a s' ⟨hs, hknown⟩ hamid _
  rcases amid_reachLoad hinj hs.2.1 hamid with ⟨hstep, hch, _⟩
  refine ⟨s', ⟨hs.step hinj hstep, ?_⟩, changes_refl s'⟩
  unfold Known
  rw [show s'.refreshTokens = s.refreshTokens from hch.same .refreshTokens (by decide)]
  exact hknown

theorem yields_reachRefresh (hinj : Function.Injective deps.keyOf) (client : OidcClient)
    (value : String) :
    Amidst noGrants E _ (refreshAccessToken deps client value) (Reached deps may leaving s₀)
      fun _ => Reached deps may leaving s₀ := by
  -- Revoking a family and writing the log add no grant.
  have hrevoke : ∀ f, Amidst noGrants E _ (revokeRefreshTokenFamily f) (Reached deps may leaving s₀)
      fun _ => Reached deps may leaving s₀ := fun _ =>
    yields_fewer hinj touches_revokeRefreshTokenFamily (by decide) (by decide)
      fun _ => keeps_dropFamily
  have haudit : ∀ subject detail, Amidst noGrants E _ (recordAudit subject detail)
      (Reached deps may leaving s₀) fun _ => Reached deps may leaving s₀ :=
    fun _ _ => yields_spare (touches_recordAudit.mono (by decide))
  refine sound_noGrants.bind (yields_reachConsume hinj _) fun consumed => ?_
  cases consumed with
  | unknown => exact sound_noGrants.pure _ fun _ hs => hs.1
  | reused token =>
      exact sound_noGrants.weaken (sound_noGrants.bind (hrevoke _) fun _ =>
        sound_noGrants.bind (haudit _ _) fun _ => sound_noGrants.pure _ le_rfl) fun _ hs => hs.1
  | consumed stored =>
      refine sound_noGrants.weaken (R := fun s => Reached deps may leaving s₀ s ∧ Known stored s) ?_
        fun _ hs => ⟨hs.1, hs.2 stored rfl⟩
      dsimp only [refreshConsumed]
      split
      · exact sound_noGrants.weaken (sound_noGrants.bind (hrevoke _) fun _ =>
          sound_noGrants.bind (haudit _ _) fun _ => sound_noGrants.pure _ le_rfl) fun _ hs => hs.1
      -- Loading the session and reading the directory keep what is known of the token.
      · refine sound_noGrants.bind (Q := fun _ s => Reached deps may leaving s₀ s ∧
          Known stored s) ?_ fun validated => ?_
        · refine sound_noGrants.bind (Yields.both_left (moves_changes noGrants)
            (yields_loadKnown hinj _ _) (touches_resolveTenant : Touches noGrants _)) fun rows => ?_
          split
          · exact sound_noGrants.pure _ le_rfl
          · exact sound_noGrants.pure _ le_rfl
          · refine sound_noGrants.bind (yields_spare touches_checkTenantAccess) fun access => ?_
            cases access <;> exact sound_noGrants.pure _ le_rfl
        · cases validated with
          | error e =>
              exact sound_noGrants.weaken (sound_noGrants.bind (hrevoke _) fun _ =>
                sound_noGrants.pure _ le_rfl) fun _ hs => hs.1
          | ok rows =>
              refine sound_noGrants.bind (Q := fun _ => Reached deps may leaving s₀) ?_
                fun _ => sound_noGrants.pure _ le_rfl
              rintro s es issued s' ⟨hs, hknown⟩ hamid _
              -- The rotation is the one step, since issuing the tokens stores nothing.
              have hch := amid_touches hamid
                (touches_both touches_rotateRefreshToken touches_issueTokens)
              rcases amid_left hamid (touches_issueTokens : Touches [] _) with ⟨_, hrotate, _⟩
              exact ⟨s', hs.step hinj (grantStep_tokens (hch.mono (by decide)) (.rotated
                (amid_rotateRefreshToken hrotate hknown))), changes_refl s'⟩

end Tokens

section Members

variable {deps : Deps} {may : String → String → String → Prop} {leaving : Option String}
  {s₀ s s' : State} {E : Event → Prop} {t c u : String}

theorem isFor_iff {m : ServiceMembership} :
    m.isFor t c u = true ↔ m.tenantId = t ∧ m.oidcClientId = c ∧ m.userId = u :=
  decide_eq_true_iff

/-- Making a membership active makes one member. -/
theorem member_upsert {tenantId oidcClientId userId : String} {es : List Event} {a : Unit}
    (h : Amid (Changes noGrants) s (upsertServiceMembership tenantId oidcClientId userId) es a s')
    (hm : Member s' t c u) :
    Member s t c u ∨ (tenantId = t ∧ oidcClientId = c ∧ userId = u) := by
  rcases amid_logged h with ⟨s₁, hbefore, _, hafter, _⟩
  have hold : s₁.identity.memberships = s.identity.memberships :=
    hbefore.same .memberships (by decide)
  have hnew := hafter.same .memberships (by decide)
  change s'.identity.memberships = if _ then _ else _ at hnew
  rw [hold] at hnew
  rcases hm with ⟨m, hm, hstatus⟩
  rw [hnew] at hm
  split at hm
  · rw [List.find?_map] at hm
    rcases Option.map_eq_some_iff.mp hm with ⟨row, hrow, rfl⟩
    have hsame : s.identity.memberships.find? (·.isFor t c u) = some row := by
      rw [← hrow]
      congr 1
      funext r
      dsimp only [Function.comp_apply]
      split <;> rfl
    -- A row that is updated in place is the one of these keys.
    by_cases hfor : row.isFor tenantId oidcClientId userId = true
    · rcases isFor_iff.mp hfor with ⟨rfl, rfl, rfl⟩
      exact .inr (isFor_iff.mp
        (List.find?_some (p := fun r : ServiceMembership => r.isFor t c u) hsame))
    · rw [if_neg hfor] at hstatus
      exact .inl ⟨row, hsame, hstatus⟩
  · rw [List.find?_append, Option.or_eq_some_iff] at hm
    rcases hm with hm | ⟨_, hm⟩
    · exact .inl ⟨m, hm, hstatus⟩
    · exact .inr (isFor_iff.mp
        (List.find?_some (p := fun r : ServiceMembership => r.isFor t c u)
          (hm.trans (congrArg some (List.mem_singleton.mp (List.mem_of_find?_eq_some hm))))))

/-- Without one membership there is one member less. -/
theorem member_filter {tenantId oidcClientId userId : String}
    (h : s'.identity.memberships =
      s.identity.memberships.filter fun m => !m.isFor tenantId oidcClientId userId) :
    Member s' t c u ↔ Member s t c u ∧ ¬(tenantId = t ∧ oidcClientId = c ∧ userId = u) := by
  unfold Member
  rw [h, List.find?_filter]
  -- The rows that go are those of the three keys.
  by_cases hsame : tenantId = t ∧ oidcClientId = c ∧ userId = u
  · rcases hsame with ⟨rfl, rfl, rfl⟩
    refine ⟨?_, fun hm => absurd ⟨rfl, rfl, rfl⟩ hm.2⟩
    rintro ⟨m, hm, _⟩
    have hfound := List.find?_some hm
    rw [decide_eq_true_eq, Bool.not_eq_true'] at hfound
    exact absurd (hfound.1.symm.trans hfound.2) Bool.false_ne_true
  · have heq : (fun m : ServiceMembership => decide
        ((!m.isFor tenantId oidcClientId userId) = true ∧ m.isFor t c u = true)) =
        fun m => m.isFor t c u := by
      funext m
      rw [Bool.eq_iff_iff, decide_eq_true_eq, Bool.not_eq_true', ← Bool.not_eq_true]
      refine ⟨And.right, fun hm => ⟨fun hremoved => hsame ?_, hm⟩⟩
      rcases isFor_iff.mp hm with ⟨htenant, hclient, huser⟩
      rcases isFor_iff.mp hremoved with ⟨htenant', hclient', huser'⟩
      exact ⟨htenant'.symm.trans htenant, hclient'.symm.trans hclient, huser'.symm.trans huser⟩
    rw [heq]
    simp only [hsame, not_false_eq_true, and_true]

/-- Removing a membership makes no member. -/
theorem member_remove {tenantId oidcClientId userId : String} {es : List Event} {a : Unit}
    (h : Amid (Changes noGrants) s (removeServiceMembership tenantId oidcClientId userId) es a s')
    (hm : Member s' t c u) : Member s t c u := by
  rcases amid_write h with ⟨s₁, hbefore, hafter, _⟩
  have hold : s₁.identity.memberships = s.identity.memberships :=
    hbefore.same .memberships (by decide)
  have hnew := hafter.same .memberships (by decide)
  change s'.identity.memberships = s₁.identity.memberships.filter _ at hnew
  rw [hold] at hnew
  exact ((member_filter hnew).mp hm).1

end Members

section Runs

variable {deps : Deps} {may : String → String → String → Prop} {leaving : Option String}
  {c : AuthCall} {s₀ s s' : State} {E : Event → Prop}

/-- Only the memberships in `may` are created. -/
def membersFor (may : String → String → String → Prop) (e : Event) : Prop :=
  ∀ t c u, e = .memberAdded t c u → may t c u

/-- The parts that revoking a session changes. -/
def revokedParts : List Field := sessionParts ++ tokenParts ++ peripheral

theorem touches_revokeSessionBySid {sid : String} {reason : SessionRevokeReason}
    {environment : Option RequestEnvironment} :
    Touches revokedParts (revokeSessionBySid deps sid reason environment) := by
  have hC := closed_touches revokedParts
  have hper : HasPeripheral fun _ p => Touches revokedParts p := fun hp => hp.mono (by decide)
  refine closed_revokeSessionBySid hC hper
    (fun _ => touches_findSsoSessionBySid.mono (by decide)) (fun session sid => ?_)
    (fun _ _ _ => touches_markRevoked.mono (by decide))
    (fun _ => (touches_emit (List.mem_singleton_self _) : Touches [.sidIndex] _).mono (by decide))
    _ _ _
  exact closed_revokeFoundSession hC hper
    (fun _ => touches_destroySsoSession.mono (by decide))
    (fun _ => touches_revokeRefreshTokenFamily.mono (by decide))
    (fun _ => (touches_delete onField_sidRefreshFamilies).mono (by decide)) _ _

/-- What a request does to grants is steps. -/
theorem reachedParts (hinj : Function.Injective deps.keyOf) (s₀ : State)
    (hl : leaving = none ∨ leaving = c.leaving deps) :
    Parts deps c (Amidst noGrants fun e => leavesFor deps c leaving e ∧ membersFor may e)
      (Reached deps may leaving s₀) (ReachedWith deps may c leaving s₀) where
  sound := sound_noGrants
  create := yields_reachCreate hinj fun _ hE => hE.1
  finish cookie hc result rid environment :=
    sound_noGrants.bind (yields_reachEnd hinj hc) fun _ => yields_reachResume hinj _ _ _
  authorize params cookie environment hc := yields_reachEndpoint hinj (by rw [hc]; rfl) hl
  load := yields_reachLoad hinj
  exchange _ _ _ _ := fun client => yields_reachExchange hinj client _
  refresh _ _ _ _ := fun client => yields_reachRefresh hinj client _
  revokeFamily _ := yields_fewer hinj touches_revokeRefreshTokenFamily (by decide) (by decide)
    fun _ => keeps_dropFamily
  revokeSession sid reason environment := by
    intro s es a s' hs hamid hE
    rcases amid_revokeSessionBySid (hamid.mono fun _ _ hch => hch.mono (by decide)) with
      ⟨s₁, hsought, hmark⟩
    refine ⟨s', hs.step hinj (grantStep_fewer (.single (.revoked hsought hmark))
      (amid_touches hamid touches_revokeSessionBySid) (by decide)
      (amid_fewer hamid (by decide) keeps_dropSession)), changes_refl s'⟩
  revokeAccess _ _ _ := yields_fewer hinj touches_revokeClientAccess (by decide) (by decide)
    fun _ => keeps_dropAccess
  -- A new member is one of those the run may add.
  addMember t c u := by
    intro s es a s' hs hamid hE
    have hch := amid_touches hamid touches_upsertServiceMembership
    refine ⟨s', hs.step hinj ⟨.single (.aside (hch.mono (by decide))),
      keepsEntries_of_eq (hch.same .sessionClients (by decide)), fun t' c' u' hm => ?_,
      .fewer (fewer_of_same fun f hf => hch.same f ?_)⟩, changes_refl s'⟩
    · refine (member_upsert hamid hm).imp_right ?_
      rintro ⟨rfl, rfl, rfl⟩
      rcases amid_logged hamid with ⟨_, _, _, _, rfl⟩
      exact (hE _ (List.mem_singleton_self _)).2 _ _ _ rfl
    · exact (by decide : ∀ f ∈ grantParts, f ∉ Field.memberships :: noGrants) f hf
  removeMember t c u := by
    intro s es a s' hs hamid hE
    have hch := amid_touches hamid touches_removeServiceMembership
    refine ⟨s', hs.step hinj ⟨.single (.aside (hch.mono (by decide))),
      keepsEntries_of_eq (hch.same .sessionClients (by decide)),
      fun t' c' u' hm => .inl (member_remove hamid hm),
      .fewer (fewer_of_same fun f hf => hch.same f ?_)⟩, changes_refl s'⟩
    exact (by decide : ∀ f ∈ grantParts, f ∉ Field.memberships :: noGrants) f hf

/-- A request takes steps on grants. -/
theorem grants_of_exec {es : List Event} {a : Answer c} (hinj : Function.Injective deps.keyOf)
    (hs : Recorded deps s) (hg : Sourced deps s) (h : Exec s (AuthCall.body deps c) es a s')
    (hE : ∀ e ∈ es, notLeaving deps c e) (hmay : ∀ e ∈ es, membersFor may e) :
    ∃ leaving, Reached deps may leaving s s' := by
  have hrun : ∀ leaving, leaving = none ∨ leaving = c.leaving deps →
      (∀ e ∈ es, leavesFor deps c leaving e) → Reached deps may leaving s s' := by
    intro leaving hl hes
    refine Yields.exec (P := Reached deps may leaving s) (Q := fun _ => Reached deps may leaving s)
      (reachedParts hinj s hl).body (moves_changes noGrants) ⟨.refl, hs, hg⟩ h
      (fun e he => ⟨hes e he, hmay e he⟩) ?_
    exact fun _ _ hst hch => hst.step hinj (grantStep_apart hch)
  by_cases hstored : ∃ x, .sessionStored x ∈ es
  · exact ⟨c.leaving deps, hrun _ (.inr rfl) fun e he x hx => ⟨hE e he x hx, rfl⟩⟩
  · refine ⟨none, hrun _ (.inl rfl) fun e he x hx => ?_⟩
    exact absurd ⟨x, hx ▸ he⟩ hstored

/-- Every membership may be created. -/
def anyMember (_ _ _ : String) : Prop := True

/-- A request takes steps on grants, whatever members it creates. -/
theorem anyGrants_of_exec {es : List Event} {a : Answer c} (hinj : Function.Injective deps.keyOf)
    (hs : Recorded deps s) (hg : Sourced deps s) (h : Exec s (AuthCall.body deps c) es a s')
    (hE : ∀ e ∈ es, notLeaving deps c e) : ∃ leaving, Reached deps anyMember leaving s s' :=
  grants_of_exec hinj hs hg h hE fun _ _ _ _ _ _ => trivial

/-- Sessions and grants are in order after every run from a state where they
    are. -/
theorem sourced_of_runs {ls : List (Happening Event AuthCall Change Answer)}
    (hinj : Function.Injective deps.keyOf) (hs : Recorded deps s₀) (hg : Sourced deps s₀)
    (h : Runs (authSystem deps) s₀ ls s) (hls : ∀ l ∈ ls, Unguessed deps l) :
    Recorded deps s ∧ Sourced deps s :=
  h.induct (I := fun s => Recorded deps s ∧ Sourced deps s) (fun _ _ _ _ _ hE hs hexec => by
      rcases anyGrants_of_exec hinj hs.1 hs.2 hexec hE with ⟨_, hreached⟩
      exact hreached.2)
    (fun _ _ _ _ hs ht => ⟨recorded_env ht hs.1, hs.2.env ht⟩) hls ⟨hs, hg⟩

/-- After every run, what codes and tokens name is right. The session was
    created for the user, no other session is ever under its key, and its
    record names the client and the tenant. A family has one origin, its set
    leads to its own tokens only, and the list of a session to its own
    families only. No code lasts longer than it should. -/
theorem grants_rooted (hinj : Function.Injective deps.keyOf) (now : Int) (db : Identity)
    (ls : List (Happening Event AuthCall Change Answer)) (s : State)
    (h : Runs (authSystem deps) (State.start now db) ls s) (hls : ∀ l ∈ ls, Unguessed deps l) :
    (∀ k e, s.refreshTokens k = some e → Rooted deps s e.value.origin) ∧
    (∀ k e grant, s.authorizationCodes k = some e → e.value = .unused grant →
      Rooted deps s grant.origin ∧ e.expiresAt ≤ s.now + authorizationCodeTtl) ∧
    (∀ k k' e e', s.refreshTokens k = some e → s.refreshTokens k' = some e' →
      e.value.familyId = e'.value.familyId → e.value.origin = e'.value.origin) ∧
    (∀ f keys k e, s.refreshTokenFamilies f = some keys → k ∈ keys.value →
      s.refreshTokens k = some e → e.value.familyId = f) ∧
    ∀ sid refs ref, s.sidRefreshFamilies sid = some refs → ref ∈ refs.value →
      ∃ f o, ref = encodeFamilyRef (o.familyRef f) ∧ o.sid = sid ∧ Rooted deps s o ∧
        ∀ k e, s.refreshTokens k = some e → e.value.familyId = f → e.value.origin = o := by
  rcases sourced_of_runs hinj (recorded_start now db) (sourced_start now db) h hls with
    ⟨_, origin, hg⟩
  refine ⟨fun k e he => (hg.known _ _ (hg.tokens k e he)).2.2, hg.codes, ?_, ?_, ?_⟩
  -- Each family has one origin, and each list names it.
  · intro k k' e e' he he' hfamily
    have horigin := hg.tokens k e he
    rw [hfamily] at horigin
    exact Option.some.inj (horigin.symm.trans (hg.tokens k' e' he'))
  · exact fun f keys k e hkeys hk he => (hg.sets f keys hkeys k hk).2 e he
  · intro sid refs ref hrefs href
    rcases hg.lists sid refs hrefs ref href with ⟨f, o, hf, hsid, heq⟩
    refine ⟨f, o, heq, hsid, (hg.known f o hf).2.2, fun k e he hfamily => ?_⟩
    have horigin := hg.tokens k e he
    rw [hfamily] at horigin
    exact Option.some.inj (horigin.symm.trans hf)

end Runs

section Example

/-- A call that leaves no session of its browser. -/
def leavesNothing : Happening Event AuthCall Change Answer → Bool
  | .call c _ _ => (c.leaving smallDeps).isNone
  | .env _ => true

theorem unguessed_of_leavesNothing {l : Happening Event AuthCall Change Answer}
    (h : leavesNothing l = true) : Unguessed smallDeps l := by
  cases l with
  | env t => trivial
  | call c a es =>
      intro e _ x _ hleaving
      rw [leavesNothing, hleaving] at h
      cases h

/-- The token that Alice's service got for its first one an hour later names
    her session, her and the tenant she entered. -/
theorem refreshed_token_rooted : ∃ ls s key e,
    Runs (authSystem smallDeps) smallStart ls s ∧ s.refreshTokens key = some e ∧
      e.value.origin.userId = alice.id ∧ e.value.origin.tenantId = acme.id ∧
        Rooted smallDeps s e.value.origin := by
  rcases exists_runs (authSystem smallDeps) (.ulid "") 60 smallStart
    (firstTokenTurns ++ [.env (.tick 3600), refreshTurn refresh1 refresh2 jti2])
    (fun r => r.1.all leavesNothing && (r.2.refreshTokens (smallDeps.keyOf refresh2)).any
      fun e => e.value.origin.userId = alice.id ∧ e.value.origin.tenantId = acme.id)
    (by decide +kernel) with ⟨ls, s, hruns, htest⟩
  rw [Bool.and_eq_true, List.all_eq_true, Option.any_eq_true] at htest
  rcases htest with ⟨hall, e, he, hnames⟩
  rcases of_decide_eq_true hnames with ⟨huser, htenant⟩
  exact ⟨ls, s, _, e, hruns, he, huser, htenant, (grants_rooted smallDeps_keyOf_injective 1000
    smallIdentity ls s hruns fun l hl => unguessed_of_leavesNothing (hall l hl)).1 _ e he⟩

end Example

end Sandbox.Auth
