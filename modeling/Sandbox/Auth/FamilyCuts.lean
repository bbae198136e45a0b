import Mathlib.Data.List.Sort
import Sandbox.Auth.FamilyIndex
import Sandbox.Auth.GrantSteps
import Sandbox.Auth.ListedSessions
import Sandbox.Auth.TokenRevocations

/-!
# Finding the Families of a Session

A revocation finds the families under a session through the list of the
session, whose members are texts. After every run of requests that do not
overlap it finds what it should: a text is the reference of a family that
rests on this session, and every family with a token that can be used is among
them while the session can be presented.

A text joins three names with colons, so a name must not have any. Families
have none, being random. Clients and tenants are named by whoever registers
them.

## Main definitions

* `NoColons`: The names of clients and tenants.
* `Settled`: What holds after every run.
* `refsOf`: The families that a revocation finds.

## Theorems

* `settled_of_runs`: It does hold.
* `Settled.refsOf_sound`, `Settled.refsOf_complete`: What is found.
* `quiet_body`: Only two kinds of requests store tokens.
-/

namespace Sandbox.Auth

open Interleave Ttl

/-- Neither the clients nor the tenants that a session can have visited have a
    colon in their names. -/
def NoColons (s : State) : Prop :=
  (∀ c ∈ s.identity.clients, ':' ∉ c.clientId.toList) ∧
    ∀ e ∈ s.sessionClients, ':' ∉ e.tenantId.toList

/-- The same as a test. -/
def noColons (s : State) : Bool :=
  s.identity.clients.all (fun c => ':' ∉ c.clientId.toList) &&
    s.sessionClients.all fun e => ':' ∉ e.tenantId.toList

theorem noColons_iff {s : State} : noColons s = true ↔ NoColons s := by
  simp [noColons, NoColons]

/-- What holds after every run of requests that do not overlap. -/
structure Settled (deps : Deps) (s : State) : Prop where
  recorded : Recorded deps s
  sourced : Sourced deps s
  unique : s.identity.UniqueClients
  families : FamilyIndex.Inv {.mode .free} s []

/-- The families on the list of a session. -/
def refsOf (s : State) (sid : String) : List RefreshFamilyRef :=
  (members s.sidRefreshFamilies s.now sid).filterMap decodeFamilyRef

section Runs

variable {deps : Deps} {s s' : State} {c : AuthCall} {es : List Event}

/-- Requests do not change the clients. -/
theorem clients_of_exec {a : Answer c} (h : Exec s (AuthCall.body deps c) es a s')
    (hrec : Recorded deps s) (hg : Sourced deps s) (hinj : Function.Injective deps.keyOf)
    (hE : ∀ e ∈ es, notLeaving deps c e) : s'.identity.clients = s.identity.clients := by
  rcases anyGrants_of_exec hinj hrec hg h hE with ⟨_, hsteps, -⟩
  clear h hrec hg
  induction hsteps with
  | refl => rfl
  | tail _ hstep ih => exact (sessionSteps_changes hstep.sessions).clients.trans ih

theorem settled_of_runs {now : Int} {db : Identity}
    {ls : List (Happening Event AuthCall Change Answer)} (hinj : Function.Injective deps.keyOf)
    (hdb : db.UniqueClients) (h : Runs (authSystem deps) (State.start now db) ls s)
    (hls : ∀ l ∈ ls, Unguessed deps l) : Settled deps s := by
  rcases sourced_of_runs hinj (recorded_start now db) (sourced_start now db) h hls with ⟨hrec, hg⟩
  refine ⟨hrec, hg, ?_, FamilyIndex.inv_of_runs h⟩
  -- No call writes the table of clients, and the operator keeps it unique.
  refine (h.induct (I := fun s => (Recorded deps s ∧ Sourced deps s) ∧ s.identity.UniqueClients)
    ?_ ?_ hls ⟨⟨recorded_start now db, sourced_start now db⟩, hdb⟩).2
  · rintro c a es s s' hE ⟨⟨hrec, hg⟩, hunique⟩ hexec
    rcases anyGrants_of_exec hinj hrec hg hexec hE with ⟨_, _, hrec', hg'⟩
    refine ⟨⟨hrec', hg'⟩, ?_⟩
    unfold Identity.UniqueClients at hunique ⊢
    rw [clients_of_exec hexec hrec hg hinj hE]
    exact hunique
  · rintro t s s' - ⟨⟨hrec, hg⟩, hunique⟩ ht
    refine ⟨⟨recorded_env ht hrec, hg.env ht⟩, ?_⟩
    rcases apply_cases ht with ⟨_, rfl⟩ | ⟨_, hdb', _, rfl⟩
    · exact hunique
    · exact hdb'

end Runs

section Lists

variable {deps : Deps} {s : State} {sid key : String} {x : SsoSession} {o : Origin} {f : String}
  {t : RefreshToken}

/-- The reference of a family that is rooted survives its encoding. -/
theorem Rooted.decode (ho : Rooted deps s o) (hcolons : NoColons s) (hf : ':' ∉ f.toList) :
    decodeFamilyRef (encodeFamilyRef (o.familyRef f)) = some (o.familyRef f) := by
  rcases ho.visited with ⟨id, hid, e, he, _, _, htenant⟩
  rcases List.mem_map.mp hid with ⟨client, hclient, heq⟩
  have hname : client.clientId = o.clientId := (Prod.mk.inj heq).2
  have hclientId : ':' ∉ o.clientId.toList := hname ▸ hcolons.1 client hclient
  have htenantId : ':' ∉ o.tenantId.toList := htenant ▸ hcolons.2 e he
  exact decodeFamilyRef_encodeFamilyRef hclientId htenantId hf

/-- While its session can be presented, an origin has an active record. -/
theorem Rooted.active (ho : Rooted deps s o) (hrec : Recorded deps s)
    (hx : s.presented o.ssoSessionId = some x) :
    ∃ r ∈ s.sessions, r.id = o.sid ∧ r.userId = o.userId ∧ Sessions.isActive r s.now = true := by
  have hexpired := (presented_eq_some.mp hx).2
  rcases get_eq_some.mp (presented_eq_some.mp hx).1 with ⟨d, hd, hlive, rfl⟩
  rcases hrec.recorded _ d hd hlive with ⟨r, hr, hof⟩
  rcases ho.record with ⟨r', hr', hid, huser⟩
  have hsid : r.id = o.sid := hof.id.trans (ho.refers.only d hd)
  -- Both records are about the session, so they are one.
  have hsame : r = r' :=
    List.inj_on_of_nodup_map hrec.ids hr hr' (hsid.trans hid.symm)
  rcases SessionExpiry.lt_of_not_isExpired hexpired with ⟨hidle, habsolute⟩
  refine ⟨r, hr, hsid, hsame ▸ huser, ListedSessions.isActive_iff.mpr ⟨hof.revokedAt, ?_, ?_⟩⟩
  · rw [hof.lastSeenAt]
    exact hidle
  · rw [hof.createdAt]
    exact habsolute

/-- The public name of a client leads to one row. -/
theorem id_of_unique {db : Identity} (hdb : db.UniqueClients) {client : OidcClient}
    (hclient : client ∈ db.clients) {id clientId : String}
    (hmem : (id, clientId) ∈ db.clients.map fun c => (c.id, c.clientId))
    (hname : client.clientId = clientId) : id = client.id := by
  rcases List.mem_map.mp hmem with ⟨other, hother, heq⟩
  rcases Prod.mk.inj heq with ⟨rfl, hid⟩
  rw [List.inj_on_of_nodup_map hdb.2 hother hclient (hid.trans hname.symm)]

/-- A family that is found rests on the session. -/
theorem SourcedBy.refsOf_sound {origin : String → Option Origin} (h : SourcedBy deps origin s)
    (hcolons : NoColons s) {ref : RefreshFamilyRef} (href : ref ∈ refsOf s sid) :
    ∃ o, origin ref.familyId = some o ∧ o.sid = sid ∧ ref = o.familyRef ref.familyId := by
  rcases List.mem_filterMap.mp href with ⟨text, htext, hdecode⟩
  rcases mem_members.mp htext with ⟨refs, hrefs, _, hmem⟩
  rcases h.lists sid refs hrefs text hmem with ⟨f, o, hf, hsid, rfl⟩
  rcases h.known f o hf with ⟨_, hcolon, hrooted⟩
  rw [hrooted.decode hcolons hcolon] at hdecode
  cases hdecode
  exact ⟨o, hf, hsid, rfl⟩

/-- A token that can be used is found while its session can be presented. -/
theorem Settled.refsOf_complete (h : Settled deps s) (hcolons : NoColons s)
    (hget : Ttl.get s.refreshTokens s.now key = some t) (hactive : t.status = .active)
    (hx : s.presented t.ssoSessionId = some x) :
    t.origin.familyRef t.familyId ∈ refsOf s t.sid := by
  rcases get_eq_some.mp hget with ⟨e, he, hlive, rfl⟩
  rcases h.sourced with ⟨origin, hg⟩
  rcases hg.known _ _ (hg.tokens key e he) with ⟨_, hcolon, hrooted⟩
  rcases presented_eq_some.mp hx with ⟨hstored, hexpired⟩
  rcases get_eq_some.mp hstored with ⟨d, hd, _, rfl⟩
  have hsid : d.value.sid = e.value.sid := hrooted.refers.only d hd
  have husable : UsableEntry s e.value.familyId key e := ⟨he, hlive, rfl, hactive⟩
  rcases h.families.linked with ⟨names, hl⟩
  rcases hl.sessions _ d hd with ⟨_, hname⟩
  rw [← add_zero {Token.mode .free}] at hl
  -- Nothing is under way, so a usable token of a live session is on its list.
  have hdue := hl.due_of_resting (fun _ => Multiset.notMem_zero _) trivial hd husable hsid.symm
  have hlimit := (SessionExpiry.lt_of_not_isExpired hexpired).2
  rcases hdue _ d.value.createdAt (hsid ▸ hname) hlimit with ⟨list, hlist, hmem, hle⟩
  exact List.mem_filterMap.mpr ⟨_, mem_members.mpr
    ⟨list, hlist, Int.lt_of_lt_of_le hlimit hle, hmem⟩, hrooted.decode hcolons hcolon⟩

end Lists

section Programs

variable {deps : Deps} {s s' : State} {c : AuthCall} {es : List Event} {fs : List Field}

/-- A revocation leaves its event, amid changes by others. -/
theorem mem_of_amid_revokeFamily {f : String} {a : Unit}
    (h : Amid (Changes fs) s (revokeRefreshTokenFamily f) es a s') : .familyRevoked f ∈ es := by
  rcases amid_bind changes_refl h with ⟨keys, _, _, _, _, h₁, rfl⟩
  rcases amid_bind changes_refl h₁ with ⟨records, _, _, _, _, h₂, rfl⟩
  rcases amid_bind changes_refl h₂ with ⟨_, _, _, _, _, h₃, rfl⟩
  rcases amid_logged h₃ with ⟨_, _, _, _, rfl⟩
  exact List.mem_append_left _ (List.mem_append_left _ (List.mem_append_left _
    (List.mem_singleton_self _)))

/-- A list of families that is read while other parts change. -/
theorem amid_listRefreshFamilies {sid : String} {refs : List RefreshFamilyRef}
    (h : Amid (Changes fs) s (listRefreshFamilies sid) es refs s')
    (hfs : .sidRefreshFamilies ∉ fs) : refs = refsOf s sid ∧ Changes fs s s' := by
  rcases amid_bind changes_refl h with ⟨found, s₁, _, _, hread, hdone, _⟩
  rcases amid_done hdone with ⟨_, rfl, hlast⟩
  rcases amid_read hread with ⟨s₂, hbefore, rfl, hafter, _⟩
  refine ⟨?_, (hbefore.trans hafter).trans hlast⟩
  unfold refsOf
  rw [← show s₂.sidRefreshFamilies = s.sidRefreshFamilies from hbefore.same _ hfs, ← hbefore.now]
  rfl

/-- The list of the active sessions of a user, if nothing else runs. -/
theorem exec_listActive_eq {userId : String} {listed : List AuthSessionWithClients}
    (h : Exec s (Sessions.listActiveByUser userId) es listed s') :
    s' = s ∧ listed = ((s.sessions.filter fun r =>
      r.userId = userId ∧ Sessions.isActive r s.now).insertionSort
        fun a b => b.lastSeenAt ≤ a.lastSeenAt).map
          fun r => ⟨r, s.sessionClients.filter (·.sessionId = r.id)⟩ := by
  rcases exec_bind h with ⟨records, s₁, _, _, hread, hattach, _⟩
  rcases exec_read hread with ⟨_, rfl, rfl⟩
  rcases exec_read hattach with ⟨_, rfl, rfl⟩
  exact ⟨rfl, rfl⟩

theorem exec_listActive {userId : String} {listed : List AuthSessionWithClients}
    (h : Exec s (Sessions.listActiveByUser userId) es listed s') :
    s' = s ∧ ∀ row, row ∈ listed ↔ ∃ r ∈ s.sessions, r.userId = userId ∧
      Sessions.isActive r s.now = true ∧
        row = ⟨r, s.sessionClients.filter (·.sessionId = r.id)⟩ := by
  rcases exec_listActive_eq h with ⟨rfl, rfl⟩
  refine ⟨rfl, fun row => ?_⟩
  rw [List.mem_map]
  simp only [List.mem_insertionSort, List.mem_filter, decide_eq_true_eq]
  constructor
  · rintro ⟨r, ⟨hr, huser, hactive⟩, rfl⟩
    exact ⟨r, hr, huser, hactive, rfl⟩
  · rintro ⟨r, hr, huser, hactive, rfl⟩
    exact ⟨r, ⟨hr, huser, hactive⟩, rfl⟩

/-- A part that is the same did not change. -/
theorem Changes.unchanged {f : Field} (h : Changes (f :: fs) s s') (hf : f.Same s s') :
    Changes fs s s' := by
  refine ⟨h.now, h.issued, h.tenants, h.clients, h.contracts, fun g hg => ?_⟩
  by_cases hgf : g = f
  · subst hgf
    exact hf
  · exact h.same g fun hmem => hg ((List.mem_cons.mp hmem).resolve_left hgf)

/-- The parts that a revocation of families changes. -/
def familyParts : List Field := [.refreshTokens, .refreshTokenFamilies]

/-- Revocations that run at once all leave their events. -/
theorem mem_of_amid_revokeAll {refs : List RefreshFamilyRef} {bs : List Unit}
    (h : Amid (Changes fs) s (Prog.all (refs.map fun ref => revokeRefreshTokenFamily ref.familyId))
      es bs s') (hfs : familyParts ⊆ fs) :
    ∀ ref ∈ refs, .familyRevoked ref.familyId ∈ es := by
  intro ref href
  rcases amid_all (moves_changes fs) h
    (fun _ _ => touches_revokeRefreshTokenFamily.mono hfs) ref href with ⟨es₁, _, hrevoke, hes⟩
  exact hes _ (mem_of_amid_revokeFamily hrevoke)

/-- Only the two grants of the token endpoint store tokens. -/
theorem quiet_body (hexchange : ∀ clientId clientSecret input,
      c ≠ .exchange clientId clientSecret input)
    (hrefresh : ∀ clientId clientSecret value, c ≠ .refresh clientId clientSecret value) :
    FamilyIndex.Quiet (AuthCall.body deps c) := by
  have hC : Closed fun (α : Type) (p : AuthProg α) => FamilyIndex.Quiet p :=
    { pure := within_pure
      bind := within_bind
      both := within_both
      all := fun h => within_all fun p hp => by
        rcases List.mem_map.mp hp with ⟨x, hx, rfl⟩
        exact h x hx }
  -- A program that does not write the tokens is quiet.
  have hquiet : ∀ {α : Type} {p : AuthProg α} {gs : List Field}, Touches gs p →
      .refreshTokens ∉ gs → FamilyIndex.Quiet p := fun hp hgs => FamilyIndex.quiet_of_touches hp hgs
  have hper : HasPeripheral fun _ p => FamilyIndex.Quiet p := fun hp => hquiet hp (by decide)
  have hstore : ∀ (rid : Option String) (key : String) (grant : CodeGrant),
      FamilyIndex.Quiet (authorizationCodes.setLogged (.codeStored rid key) key (.unused grant)
        authorizationCodeTtl : AuthProg Unit) :=
    fun _ _ _ => hquiet (touches_setLogged onField_authorizationCodes rfl) (by decide)
  have htouch : ∀ session client tenantId environment,
      FamilyIndex.Quiet (touchSsoSession session client tenantId environment) :=
    fun _ _ _ _ => hquiet touches_touchSsoSession (by decide)
  have hload : ∀ key, FamilyIndex.Quiet (loadSsoSessionByKey key) :=
    fun _ => hquiet touches_loadSsoSessionByKey (by decide)
  have hdestroy : ∀ session, FamilyIndex.Quiet (destroySsoSession session) :=
    fun _ => hquiet touches_destroySsoSession (by decide)
  -- Exchanges and refreshes are excluded, and the rest writes no active token.
  exact Blocks.body
    { closed := hC
      peripheral := hper
      load := hload
      destroy := hdestroy
      create := fun _ _ _ => hquiet touches_createSsoSession (by decide)
      save := fun _ _ _ _ _ => hquiet touches_storePendingAuthorization (by decide)
      authorize := fun _ _ _ _ => closed_authorizeWithSession hC hper (hstore none) htouch
      resume := fun result rid environment => closed_resumeLogin hC hper
        (hquiet (touches_getAndDelete onField_authorizationRequests) (by decide))
        (closed_authorizeWithSession hC hper (hstore (some rid)) htouch) result environment
      exchange := fun _ _ _ hc => absurd hc (hexchange _ _ _)
      refresh := fun _ _ _ hc => absurd hc (hrefresh _ _ _)
      revokeFamily := FamilyIndex.quiet_revokeFamily
      revokeSession := closed_revokeSessionBySid hC hper
        (fun _ => hquiet touches_findSsoSessionBySid (by decide))
        (closed_revokeFoundSession hC hper hdestroy FamilyIndex.quiet_revokeFamily fun _ =>
          hquiet (touches_delete onField_sidRefreshFamilies) (by decide))
        (fun _ _ _ => hquiet touches_markRevoked (by decide))
        (fun _ => hquiet (touches_emit (List.mem_singleton_self _) : Touches [.sidIndex] _)
          (by decide))
      addMember := fun _ _ _ => hquiet touches_upsertServiceMembership (by decide)
      removeMember := fun _ _ _ => hquiet touches_removeServiceMembership (by decide) }

/-- A request that stores no token leaves none of the families that it revokes. -/
theorem Settled.noUsable {f : String} {a : Answer c} (h : Settled deps s)
    (hexec : Exec s (AuthCall.body deps c) es a s')
    (hexchange : ∀ clientId clientSecret input, c ≠ .exchange clientId clientSecret input)
    (hrefresh : ∀ clientId clientSecret value, c ≠ .refresh clientId clientSecret value)
    (hf : .familyRevoked f ∈ es) : FamilyIndex.NoUsable s' f :=
  (FamilyIndex.exec_quiet c h.families.indexed (FamilyRevocation.keeps_body c)
    (quiet_body hexchange hrefresh) hexec).2 f hf

end Programs

end Sandbox.Auth
