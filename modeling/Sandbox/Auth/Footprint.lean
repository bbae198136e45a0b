import Sandbox.Auth.Calls
import Sandbox.Interleave.Resource

/-!
# What Programs Change

Every program of the server changes a few parts of the state and leaves the
others as they are. An argument about refresh tokens need not look at the
programs that only write sessions or the audit trail; it needs to know that
they do not touch what it speaks of.

`Touches fs p` says that `p` changes at most the parts in `fs` and leaves only
events about them. No program moves the clock, forgets a random value or
changes tenants, clients and contracts. `safe_touches` turns a footprint into
safety for every invariant that is stable under such changes.

## Main definitions

* `Field`, `Field.Same`: The parts of the state.
* `Changes`: A change of some parts only.
* `Touches`: A program that changes some parts only.
* `Stable`: An invariant that speaks of other parts only.

## Theorems

* `safe_touches`: A program that touches nothing the invariant speaks of is
  safe.
* `touches_touchSsoSession` and the others of its form: The footprints.
-/

namespace Sandbox.Auth

open Interleave Ttl

/-- The parts of the state that programs change. -/
inductive Field
  | ssoSessions
  | sidIndex
  | authorizationRequests
  | authorizationCodes
  | refreshTokens
  | refreshTokenFamilies
  | sidRefreshFamilies
  | mfaPending
  | users
  | memberships
  | mfaMethods
  | sessions
  | sessionClients
  | audit
  | outbox
  deriving DecidableEq

/-- A part is the same in two states. -/
def Field.Same : Field → State → State → Prop
  | .ssoSessions, s, s' => s'.ssoSessions = s.ssoSessions
  | .sidIndex, s, s' => s'.sidIndex = s.sidIndex
  | .authorizationRequests, s, s' => s'.authorizationRequests = s.authorizationRequests
  | .authorizationCodes, s, s' => s'.authorizationCodes = s.authorizationCodes
  | .refreshTokens, s, s' => s'.refreshTokens = s.refreshTokens
  | .refreshTokenFamilies, s, s' => s'.refreshTokenFamilies = s.refreshTokenFamilies
  | .sidRefreshFamilies, s, s' => s'.sidRefreshFamilies = s.sidRefreshFamilies
  | .mfaPending, s, s' => s'.mfaPending = s.mfaPending
  | .users, s, s' => s'.identity.users = s.identity.users
  | .memberships, s, s' => s'.identity.memberships = s.identity.memberships
  | .mfaMethods, s, s' => s'.identity.mfaMethods = s.identity.mfaMethods
  | .sessions, s, s' => s'.sessions = s.sessions
  | .sessionClients, s, s' => s'.sessionClients = s.sessionClients
  | .audit, s, s' => s'.audit = s.audit
  | .outbox, s, s' => s'.outbox = s.outbox

/-- The part an event is about. -/
def Event.field : Event → Field
  | .sessionStored _ | .sessionTouched _ => .ssoSessions
  | .sessionIndexed .. | .sidLookedUp _ | .sessionRevoked _ => .sidIndex
  | .requestSaved _ => .authorizationRequests
  | .codeStored .. => .authorizationCodes
  | .tokenStored .. => .refreshTokens
  | .tokenIndexed .. | .familyRead _ | .familyRevoked _ => .refreshTokenFamilies
  | .memberAdded .. => .memberships
  | .emailMissing _ | .userCreated _ => .users
  | .totpResponded _ | .softwareTokenAssociated _ | .softwareTokenVerified _
  | .totpEnabled _ | .pendingSaved _ | .pendingDeleted .. => .mfaPending

/-- Only the parts in `fs` change. -/
structure Changes (fs : List Field) (s s' : State) : Prop where
  now : s'.now = s.now
  issued : s.issued ⊆ s'.issued
  tenants : s'.identity.tenants = s.identity.tenants
  clients : s'.identity.clients = s.identity.clients
  contracts : s'.identity.contracts = s.identity.contracts
  same : ∀ f, f ∉ fs → f.Same s s'

/-- A program that changes the parts in `fs` and leaves events about them. -/
def Touches (fs : List Field) {α : Type} (p : AuthProg α) : Prop :=
  Within (Changes fs) (fun e => e.field ∈ fs) p

/-- An invariant that speaks of no part in `fs`. -/
structure Stable {M ρ : Type} (fs : List Field) (P : Protocol M State Event ρ) : Prop where
  changes : ∀ R s s' h, Changes fs s s' → P.Inv R s h → P.Inv R s' h
  event : ∀ R s h (c : ρ) e, e.field ∈ fs → P.Inv R s h → P.Inv R s ((c, e) :: h)

/-- A program whose fields the protocol does not watch is safe, and leaves the
    resources as they are. -/
theorem safe_touches {M ρ α : Type} [AddCommMonoid M] {fs : List Field}
    {P : Protocol M State Event ρ} {c : ρ} {p : AuthProg α} (hP : Stable fs P)
    (h : Touches fs p) (r : M) : Safe P c p r fun _ r' => r' = r :=
  safe_within h hP.changes (fun R s hist x hx hinv => hP.event R s hist c x hx hinv) r

section Rules

variable {α β γ : Type} {fs fs' : List Field}

theorem changes_refl (s : State) : Changes fs s s :=
  ⟨rfl, List.Subset.refl _, rfl, rfl, rfl, fun f _ => by cases f <;> rfl⟩

theorem Changes.mono {s s' : State} (h : Changes fs s s') (hfs : fs ⊆ fs') :
    Changes fs' s s' :=
  ⟨h.now, h.issued, h.tenants, h.clients, h.contracts, fun f hf => h.same f fun hm => hf (hfs hm)⟩

theorem Changes.trans {s₁ s₂ s₃ : State} (h : Changes fs s₁ s₂) (h' : Changes fs s₂ s₃) :
    Changes fs s₁ s₃ where
  now := h'.now.trans h.now
  issued := List.Subset.trans h.issued h'.issued
  tenants := h'.tenants.trans h.tenants
  clients := h'.clients.trans h.clients
  contracts := h'.contracts.trans h.contracts
  same f hf := by
    have h₁ := h.same f hf
    have h₂ := h'.same f hf
    cases f <;> exact Eq.trans h₂ h₁

/-- A program that ran alone changed what it touches and left events about
    that. -/
theorem exec_touches {p : AuthProg α} {s s' : State} {es : List Event} {a : α}
    (h : Exec s p es a s') (hp : Touches fs p) : Changes fs s s' ∧ ∀ e ∈ es, e.field ∈ fs :=
  exec_within changes_refl (fun _ _ _ => Changes.trans) h hp

/-- A program that touches few fields touches no more than a longer list. -/
theorem Touches.mono {p : AuthProg α} (h : Touches fs p) (hfs : fs ⊆ fs') : Touches fs' p :=
  within_mono h (fun _ _ hs => hs.mono hfs) fun _ hx => hfs hx

theorem touches_pure (a : α) : Touches fs (pure a) := within_pure a

/-- A program and its continuation touch what both touch. -/
theorem touches_bind {p : AuthProg α} {f : α → AuthProg β} (hp : Touches fs p)
    (hf : ∀ a, Touches fs (f a)) : Touches fs (p >>= f) :=
  within_bind hp hf

theorem touches_both {p : AuthProg α} {q : AuthProg β} (hp : Touches fs p)
    (hq : Touches fs q) : Touches fs (Prog.both p q) :=
  within_both hp hq

/-- A `Promise.all` touches what each of its members touches. -/
theorem touches_all {xs : List γ} {f : γ → AuthProg β} (h : ∀ x ∈ xs, Touches fs (f x)) :
    Touches fs (Prog.all (xs.map f)) := by
  refine within_all fun p hp => ?_
  rcases List.mem_map.mp hp with ⟨x, hx, rfl⟩
  exact h x hx

theorem touches_read {f : State → α} : Touches fs (Prog.read f) :=
  within_read changes_refl

theorem touches_emit {e : Event} (h : e.field ∈ fs) : Touches fs (Prog.emit e) :=
  within_logged changes_refl fun _ => h

/-- An answer from outside that leaves the state as it is. -/
theorem touches_ask_same {f : Outside → State → Option (α × State)}
    (h : ∀ i s b s', f i s = some (b, s') → s' = s) : Touches fs (Prog.ask f) := by
  refine within_ask fun i s b s' hf => ?_
  rw [h i s b s' hf]
  exact changes_refl s

end Rules

section StoreRules

variable {α : Type} {f : Field} {k : String} {v : α} {ttl : Int}

/-- Replacing the map of a store changes one part. -/
def OnField {β : Type} (st : Store State String β) (f : Field) : Prop :=
  ∀ m s, Changes [f] s (st.replace m s)

theorem onField_ssoSessions : OnField ssoSessions .ssoSessions := fun _ _ =>
  ⟨rfl, List.Subset.refl _, rfl, rfl, rfl, fun f hf => by
    cases f <;> first | rfl | exact absurd (List.mem_singleton_self _) hf⟩

theorem onField_sidIndex : OnField sidIndex .sidIndex := fun _ _ =>
  ⟨rfl, List.Subset.refl _, rfl, rfl, rfl, fun f hf => by
    cases f <;> first | rfl | exact absurd (List.mem_singleton_self _) hf⟩

theorem onField_authorizationRequests :
    OnField authorizationRequests .authorizationRequests := fun _ _ =>
  ⟨rfl, List.Subset.refl _, rfl, rfl, rfl, fun f hf => by
    cases f <;> first | rfl | exact absurd (List.mem_singleton_self _) hf⟩

theorem onField_authorizationCodes : OnField authorizationCodes .authorizationCodes := fun _ _ =>
  ⟨rfl, List.Subset.refl _, rfl, rfl, rfl, fun f hf => by
    cases f <;> first | rfl | exact absurd (List.mem_singleton_self _) hf⟩

theorem onField_refreshTokens : OnField refreshTokens .refreshTokens := fun _ _ =>
  ⟨rfl, List.Subset.refl _, rfl, rfl, rfl, fun f hf => by
    cases f <;> first | rfl | exact absurd (List.mem_singleton_self _) hf⟩

theorem onField_refreshTokenFamilies :
    OnField refreshTokenFamilies .refreshTokenFamilies := fun _ _ =>
  ⟨rfl, List.Subset.refl _, rfl, rfl, rfl, fun f hf => by
    cases f <;> first | rfl | exact absurd (List.mem_singleton_self _) hf⟩

theorem onField_sidRefreshFamilies : OnField sidRefreshFamilies .sidRefreshFamilies := fun _ _ =>
  ⟨rfl, List.Subset.refl _, rfl, rfl, rfl, fun f hf => by
    cases f <;> first | rfl | exact absurd (List.mem_singleton_self _) hf⟩

theorem onField_mfaPending : OnField mfaPending .mfaPending := fun _ _ =>
  ⟨rfl, List.Subset.refl _, rfl, rfl, rfl, fun f hf => by
    cases f <;> first | rfl | exact absurd (List.mem_singleton_self _) hf⟩

variable {st : Store State String α}

theorem touches_get {fs : List Field} : Touches fs (st.get k) := touches_read

theorem touches_getLogged {e : Option α → Event} (he : ∀ a, (e a).field = f) :
    Touches [f] (st.getLogged e k) :=
  within_logged changes_refl fun a => List.mem_singleton.mpr (he a)

theorem touches_set (h : OnField st f) : Touches [f] (st.set k v ttl) :=
  within_write fun s => h _ s

theorem touches_setLogged {e : Event} (h : OnField st f) (he : e.field = f) :
    Touches [f] (st.setLogged e k v ttl) :=
  within_logged (fun s => h _ s) fun _ => List.mem_singleton.mpr he

theorem touches_deleteLogged {e : Event} (h : OnField st f) (he : e.field = f) :
    Touches [f] (st.deleteLogged e k) :=
  within_logged (fun s => h _ s) fun _ => List.mem_singleton.mpr he

theorem touches_update (h : OnField st f) : Touches [f] (st.update k v) :=
  within_atomic fun s => h _ s

theorem touches_delete (h : OnField st f) : Touches [f] (st.delete k) :=
  within_write fun s => h _ s

/-- Taking an entry touches the field of its store. -/
theorem touches_getAndDelete (h : OnField st f) : Touches [f] (st.getAndDelete k) :=
  within_atomic fun s => h _ s

variable {sets : SetStore State String String} {x : String}

theorem touches_members {fs : List Field} : Touches fs (SetStore.members sets k) := touches_read

theorem touches_membersLogged {e : List String → Event} (he : ∀ a, (e a).field = f) :
    Touches [f] (SetStore.membersLogged sets e k) :=
  within_logged changes_refl fun a => List.mem_singleton.mpr (he a)

theorem touches_add (h : OnField sets f) : Touches [f] (SetStore.add sets k x ttl) :=
  within_write fun s => h _ s

theorem touches_addLogged {e : Event} (h : OnField sets f) (he : e.field = f) :
    Touches [f] (SetStore.addLogged sets e k x ttl) :=
  within_logged (fun s => h _ s) fun _ => List.mem_singleton.mpr he

end StoreRules

section Primitives

variable {fs : List Field}

theorem touches_nowSeconds : Touches fs nowSeconds := touches_read

theorem touches_query {α : Type} {f : Identity → α} : Touches fs (query f) := touches_read

theorem touches_randomToken {bytes : Nat} : Touches fs (randomToken bytes) := by
  refine within_ask fun i s b s' h => ?_
  cases i <;> first | cases h | skip
  simp only at h
  split at h
  · cases h
    exact ⟨rfl, List.subset_cons_self _ _, rfl, rfl, rfl, fun f _ => by cases f <;> rfl⟩
  · cases h

/-- A random value has the form of one. -/
theorem safe_randomToken {M ρ : Type} [AddCommMonoid M] {P : Protocol M State Event ρ} {c : ρ}
    (hP : Stable fs P) (bytes : Nat) (r : M) :
    Safe P c (randomToken bytes) r fun v r' => r' = r ∧ isBase64Url bytes v = true := by
  have htouches : Touches fs (randomToken bytes) := touches_randomToken
  refine safe_ask fun F s hist i b s' hinv hrun =>
    ⟨r, hP.changes _ s s' hist (htouches i s b s' hrun).1 hinv, rfl, ?_⟩
  cases i <;> first | cases hrun | skip
  simp only at hrun
  split at hrun
  · next hvalue =>
      cases hrun
      exact hvalue.1
  · cases hrun

theorem touches_randomIv : Touches fs randomIv := by
  refine touches_ask_same fun i s b s' h => ?_
  cases i <;> first | cases h; rfl | cases h

theorem touches_ulid : Touches fs ulid := by
  refine touches_ask_same fun i s b s' h => ?_
  cases i <;> first | cases h; rfl | cases h

theorem touches_recordAudit {subject : AuditSubject} {detail : AuditDetail} :
    Touches [.audit] (recordAudit subject detail) := by
  refine touches_bind touches_nowSeconds fun now => within_ask fun i s b s' h => ?_
  cases i <;> first | cases h | skip
  simp only at h
  split at h
  · cases h
    exact ⟨rfl, List.Subset.refl _, rfl, rfl, rfl, fun f hf => by
      cases f <;> first | rfl | exact absurd (List.mem_singleton_self _) hf⟩
  · cases h
    exact changes_refl s

end Primitives

section IdentityRows

theorem touches_findUserByEmail {deps : Deps} {email : String} :
    Touches [.users] (findUserByEmail deps email) := by
  refine within_act (fun i s b s' h => ?_) fun b x hx => ?_
  · cases h
    exact changes_refl s
  · split at hx
    · cases hx
      exact List.mem_singleton_self _
    · cases hx

theorem touches_createUser {id email : String} {cognitoSub name : Option String} :
    Touches [.users] (createUser id cognitoSub email name) := by
  refine within_act (fun i s b s' h => ?_) fun b x hx => ?_
  · dsimp only at h
    split at h
    · cases h
    · cases h
      exact ⟨rfl, List.Subset.refl _, rfl, rfl, rfl, fun f hf => by
        cases f <;> first | rfl | exact absurd (List.mem_singleton_self _) hf⟩
  · cases hx
    exact List.mem_singleton_self _

theorem touches_linkCognitoSub {userId cognitoSub : String} :
    Touches [.users] (linkCognitoSub userId cognitoSub) := by
  refine within_ask fun i s b s' h => ?_
  split at h
  · cases h
  · split at h
    · cases h
    · cases h
      exact ⟨rfl, List.Subset.refl _, rfl, rfl, rfl, fun f hf => by
        cases f <;> first | rfl | exact absurd (List.mem_singleton_self _) hf⟩

/-- A membership that is written touches the memberships alone. -/
theorem touches_upsertServiceMembership {tenantId oidcClientId userId : String} :
    Touches [.memberships] (upsertServiceMembership tenantId oidcClientId userId) := by
  refine within_logged (fun s => ?_) fun _ => List.mem_singleton_self _
  exact ⟨rfl, List.Subset.refl _, rfl, rfl, rfl, fun f hf => by
    cases f <;> first | rfl | exact absurd (List.mem_singleton_self _) hf⟩

/-- A membership that is removed touches the memberships alone. -/
theorem touches_removeServiceMembership {tenantId oidcClientId userId : String} :
    Touches [.memberships] (removeServiceMembership tenantId oidcClientId userId) := by
  refine within_write fun s => ?_
  exact ⟨rfl, List.Subset.refl _, rfl, rfl, rfl, fun f hf => by
    cases f <;> first | rfl | exact absurd (List.mem_singleton_self _) hf⟩

theorem touches_recordMfaMethod {userId : String} {method : MfaMethod} {enrolledAt : Int} :
    Touches [.mfaMethods] (recordMfaMethod userId method enrolledAt) := by
  refine within_write fun s => ?_
  split
  · exact changes_refl s
  · exact ⟨rfl, List.Subset.refl _, rfl, rfl, rfl, fun f hf => by
      cases f <;> first | rfl | exact absurd (List.mem_singleton_self _) hf⟩

end IdentityRows

section SessionRows

variable {fs : List Field}

/-- The record of a new session is a row of `auth_sessions`. -/
theorem touches_sessionsCreate {id userId : String} {environment : RequestEnvironment}
    {createdAt : Int} : Touches [.sessions] (Sessions.create id userId environment createdAt) := by
  refine within_ask fun i s b s' h => ?_
  split at h
  · cases h
  · cases h
    exact ⟨rfl, List.Subset.refl _, rfl, rfl, rfl, fun f hf => by
      cases f <;> first | rfl | exact absurd (List.mem_singleton_self _) hf⟩

theorem touches_sessionsTouch {sessionId : String} {environment : RequestEnvironment}
    {seenAt : Int} : Touches [.sessions] (Sessions.touch sessionId environment seenAt) := by
  refine within_atomic fun s => ?_
  exact ⟨rfl, List.Subset.refl _, rfl, rfl, rfl, fun f hf => by
    cases f <;> first | rfl | exact absurd (List.mem_singleton_self _) hf⟩

/-- A visit to a client is a row of `auth_session_clients`. -/
theorem touches_recordClient {sessionId oidcClientId tenantId : String} {seenAt : Int} :
    Touches [.sessionClients] (Sessions.recordClient sessionId oidcClientId tenantId seenAt) := by
  refine within_write fun s => ?_
  exact ⟨rfl, List.Subset.refl _, rfl, rfl, rfl, fun f hf => by
    cases f <;> first | rfl | exact absurd (List.mem_singleton_self _) hf⟩

/-- Marking a session revoked changes its row of `auth_sessions` alone. -/
theorem touches_markRevoked {sessionId : String} {reason : SessionRevokeReason}
    {revokedAt : Int} :
    Touches [.sessions] (Sessions.markRevoked sessionId reason revokedAt) := by
  refine within_write fun s => ?_
  exact ⟨rfl, List.Subset.refl _, rfl, rfl, rfl, fun f hf => by
    cases f <;> first | rfl | exact absurd (List.mem_singleton_self _) hf⟩

theorem touches_listActiveByUser {userId : String} :
    Touches fs (Sessions.listActiveByUser userId) :=
  touches_bind touches_read fun _ => touches_read

theorem touches_findWithClients {sessionId : String} :
    Touches fs (Sessions.findWithClients sessionId) := by
  refine touches_bind touches_read fun record => ?_
  cases record with
  | none => exact touches_pure _
  | some r => exact touches_bind touches_read fun _ => touches_pure _

end SessionRows

section SsoSession

/-- Destroying a session removes its entry and the index entry of its sid. -/
theorem touches_destroySsoSession {session : SsoSession} :
    Touches [.ssoSessions, .sidIndex] (destroySsoSession session) :=
  touches_bind
    (touches_both ((touches_delete onField_ssoSessions).mono (by decide))
      ((touches_delete onField_sidIndex).mono (by decide)))
    fun _ => touches_pure _

/-- Loading a session removes it where it has expired, and else changes nothing. -/
theorem touches_loadSsoSessionByKey {key : String} :
    Touches [.ssoSessions, .sidIndex] (loadSsoSessionByKey key) := by
  refine touches_bind touches_get fun stored => ?_
  cases stored with
  | none => exact touches_pure _
  | some session =>
      refine touches_bind touches_nowSeconds fun now => ?_
      split
      · exact touches_bind touches_destroySsoSession fun _ => touches_pure _
      · exact touches_pure _

theorem touches_loadSsoSession {deps : Deps} {cookieValue : Option String} :
    Touches [.ssoSessions, .sidIndex] (loadSsoSession deps cookieValue) := by
  cases cookieValue with
  | none => exact touches_pure _
  | some value =>
      unfold loadSsoSession
      simp only
      split
      · exact touches_pure _
      · exact touches_loadSsoSessionByKey

theorem touches_findSsoSessionBySid {sid : String} :
    Touches [.ssoSessions, .sidIndex] (findSsoSessionBySid sid) := by
  refine touches_bind ((touches_getLogged (f := .sidIndex) fun _ => rfl).mono (by decide))
    fun key => ?_
  cases key with
  | none => exact touches_pure _
  | some key => exact touches_loadSsoSessionByKey

/-- A new session is an entry, an index entry and a row of `auth_sessions`. -/
theorem touches_createSsoSession {deps : Deps} {user : User}
    {authenticated : CognitoAuthenticated} {environment : RequestEnvironment} :
    Touches [.ssoSessions, .sidIndex, .sessions]
      (createSsoSession deps user authenticated environment) := by
  refine touches_bind touches_nowSeconds fun now => ?_
  refine touches_bind touches_randomToken fun cookieValue => ?_
  refine touches_bind touches_randomToken fun sid => ?_
  refine touches_bind touches_randomIv fun iv => ?_
  refine touches_bind (touches_both ?_ (touches_both ?_ ?_)) fun _ => touches_pure _
  · exact (touches_setLogged onField_ssoSessions rfl).mono (by decide)
  · exact (touches_setLogged onField_sidIndex rfl).mono (by decide)
  · exact touches_sessionsCreate.mono (by decide)

theorem touches_storePendingAuthorization {deps : Deps} {request : ValidatedAuthorizationRequest} :
    Touches [.authorizationRequests] (storePendingAuthorization deps request) :=
  touches_bind touches_randomToken fun _ =>
    touches_bind (touches_setLogged onField_authorizationRequests rfl) fun _ => touches_pure _

/-- A touch saves the session again, records the visit and audits it, but writes no index entry. -/
theorem touches_touchSsoSession {session : SsoSession} {client : OidcClient} {tenantId : String}
    {environment : RequestEnvironment} :
    Touches [.ssoSessions, .sessions, .sessionClients, .audit]
      (touchSsoSession session client tenantId environment) := by
  refine touches_bind touches_nowSeconds fun now => ?_
  refine touches_bind (touches_both (touches_sessionsTouch.mono (by decide))
    (touches_both ((touches_setLogged onField_ssoSessions rfl).mono (by decide))
      (touches_recordClient.mono (by decide)))) fun answers => ?_
  split
  · exact touches_pure _
  · split
    · exact touches_bind (touches_recordAudit.mono (by decide)) fun _ => touches_pure _
    · exact touches_pure _

end SsoSession

section RefreshTokens

variable {fs : List Field} {deps : Deps} {familyId : String}

/-- Storing a Refresh Token writes the tokens alone. -/
theorem touches_storeRefreshToken {input : NewRefreshTokenInput} :
    Touches [.refreshTokens] (storeRefreshToken deps input familyId) :=
  touches_bind touches_randomToken fun _ =>
    touches_bind (touches_setLogged onField_refreshTokens rfl) fun _ => touches_pure _

/-- A new family writes its first token, its set and the set of its sid. -/
theorem touches_createRefreshTokenFamily {input : NewRefreshTokenInput} :
    Touches [.refreshTokens, .refreshTokenFamilies, .sidRefreshFamilies]
      (createRefreshTokenFamily deps input) := by
  refine touches_bind touches_randomToken fun familyId => ?_
  refine touches_bind (touches_storeRefreshToken.mono (by decide)) fun issued => ?_
  refine touches_bind (touches_both ?_ ?_) fun _ => touches_pure _
  · exact (touches_addLogged onField_refreshTokenFamilies rfl).mono (by decide)
  · exact (touches_add onField_sidRefreshFamilies).mono (by decide)

theorem touches_listRefreshFamilies {sid : String} : Touches fs (listRefreshFamilies sid) :=
  touches_bind touches_members fun _ => touches_pure _

/-- Consuming a Refresh Token writes the tokens alone. -/
theorem touches_consumeRefreshToken {value : String} :
    Touches [.refreshTokens] (consumeRefreshToken deps value) := by
  refine touches_bind (touches_getAndDelete onField_refreshTokens) fun stored => ?_
  cases stored with
  | none => exact touches_pure _
  | some token =>
      simp only
      split
      · exact touches_bind (touches_set onField_refreshTokens) fun _ => touches_pure _
      · exact touches_bind (touches_set onField_refreshTokens) fun _ => touches_pure _

/-- A rotation writes the tokens and the set of the family, never the set of the sid. -/
theorem touches_rotateRefreshToken {current : RefreshToken} :
    Touches [.refreshTokens, .refreshTokenFamilies] (rotateRefreshToken deps current) := by
  refine touches_bind (touches_storeRefreshToken.mono (by decide)) fun next => ?_
  exact touches_bind ((touches_addLogged onField_refreshTokenFamilies rfl).mono (by decide))
    fun _ => touches_pure _

theorem touches_revokeStored {key : String} {stored : Option RefreshToken} :
    Touches [.refreshTokens] (revokeStored key stored) := by
  cases stored with
  | none => exact touches_pure _
  | some token => exact touches_set onField_refreshTokens

/-- Revoking a family writes its tokens and its set. -/
theorem touches_revokeRefreshTokenFamily :
    Touches [.refreshTokens, .refreshTokenFamilies] (revokeRefreshTokenFamily familyId) := by
  refine touches_bind
    ((touches_membersLogged (f := .refreshTokenFamilies) fun _ => rfl).mono (by decide))
    fun keys => ?_
  refine touches_bind (touches_all fun _ _ => touches_get) fun records => ?_
  refine touches_bind (touches_all fun _ _ => touches_revokeStored.mono (by decide)) fun _ => ?_
  exact touches_emit (List.mem_cons_of_mem _ (List.mem_singleton_self _))

theorem touches_describeRefreshTokenFamily :
    Touches fs (describeRefreshTokenFamily familyId) :=
  touches_bind touches_members fun _ =>
    touches_bind (touches_all fun _ _ => touches_get) fun _ => touches_pure _

end RefreshTokens

section Clients

variable {fs : List Field} {deps : Deps}

/-- Checking the access of a user to a tenant only reads. -/
theorem touches_checkTenantAccess {client : OidcClient} {tenant : Tenant} {userId : String} :
    Touches fs (checkTenantAccess client tenant userId) :=
  touches_bind (touches_both touches_query (touches_both touches_query touches_query))
    fun _ => touches_pure _

/-- Validating an authorization request only reads. -/
theorem touches_validateAuthorizationRequest {params : RawParams} :
    Touches fs (validateAuthorizationRequest params) := by
  unfold validateAuthorizationRequest
  split
  · exact touches_pure _
  · exact touches_pure _
  -- Client and tenant are looked up, and nothing is written.
  · refine touches_bind touches_query fun found => ?_
    cases found with
    | none => exact touches_pure _
    | some client =>
        simp only
        split
        · exact touches_pure _
        · split
          · exact touches_pure _
          · split
            · exact touches_pure _
            · refine touches_bind touches_query fun tenant => ?_
              cases tenant <;> exact touches_pure _

theorem touches_authenticateClient {clientId clientSecret : String} :
    Touches fs (authenticateClient deps clientId clientSecret) := by
  refine touches_bind touches_query fun found => ?_
  cases found with
  | none => exact touches_pure _
  | some client =>
      simp only
      split
      · exact touches_pure _
      · split <;> exact touches_pure _

/-- Issuing an ID Token and an Access Token stores neither. -/
theorem touches_issueTokens {input : IssueTokensInput} : Touches fs (issueTokens deps input) :=
  touches_bind touches_nowSeconds fun _ =>
    touches_bind touches_randomToken fun _ => touches_pure _

theorem touches_resolveTenant {tenantId : String} : Touches fs (resolveTenant tenantId) := by
  refine touches_bind touches_query fun tenant => ?_
  cases tenant <;> exact touches_pure _

theorem touches_rememberConsumedCode {codeKey familyId : String} :
    Touches [.authorizationCodes] (rememberConsumedCode codeKey familyId) :=
  touches_set onField_authorizationCodes

/-- A code that is presented again has its family revoked. -/
theorem touches_rejectReusedCode {client : OidcClient} {codeKey familyId : String} :
    Touches [.authorizationCodes, .refreshTokens, .refreshTokenFamilies, .audit]
      (rejectReusedCode client codeKey familyId) :=
  touches_bind touches_describeRefreshTokenFamily fun _ =>
    touches_bind (touches_revokeRefreshTokenFamily.mono (by decide)) fun _ =>
      touches_bind (touches_rememberConsumedCode.mono (by decide)) fun _ =>
        touches_bind (touches_recordAudit.mono (by decide)) fun _ => touches_pure _

/-- A redeemed code opens a family of Refresh Tokens. -/
theorem touches_redeemCode {client : OidcClient} {codeKey : String} {stored : CodeGrant}
    {user : User} {tenant : Tenant} :
    Touches [.authorizationCodes, .refreshTokens, .refreshTokenFamilies, .sidRefreshFamilies]
      (redeemCode deps client codeKey stored user tenant) :=
  touches_bind (touches_both (touches_createRefreshTokenFamily.mono (by decide))
    touches_issueTokens) fun _ =>
      touches_bind (touches_rememberConsumedCode.mono (by decide)) fun _ => touches_pure _

theorem touches_sendLogout {uri : String} {token : LogoutToken} :
    Touches [.outbox] (sendLogout uri token) := by
  refine within_ask fun i s b s' h => ?_
  cases i <;> cases h
  exact ⟨rfl, List.Subset.refl _, rfl, rfl, rfl, fun f hf => by
    cases f <;> first | rfl | exact absurd (List.mem_singleton_self _) hf⟩

theorem touches_notifyClient {client : OidcClient} {sid : String} :
    Touches [.outbox] (notifyClient deps client sid) := by
  unfold notifyClient
  split
  · exact touches_pure _
  · split
    · exact touches_pure _
    · refine touches_bind ?_ fun token => touches_bind touches_sendLogout fun _ => touches_pure _
      exact touches_bind touches_nowSeconds fun _ =>
        touches_bind touches_randomToken fun _ => touches_pure _

theorem touches_notifyClientById {oidcClientId sid : String} :
    Touches [.outbox] (notifyClientById deps oidcClientId sid) := by
  refine touches_bind touches_query fun client => ?_
  cases client with
  | none => exact touches_pure _
  | some client => exact touches_notifyClient

/-- Cutting a client off revokes its families and sends it a notification. -/
theorem touches_revokeClientAccess {userId : String} {client : OidcClient} {tenantId : String} :
    Touches [.refreshTokens, .refreshTokenFamilies, .outbox]
      (revokeClientAccess deps userId client tenantId) := by
  refine touches_bind touches_listActiveByUser fun sessions => ?_
  refine touches_bind (touches_all fun _ _ => ?_) fun _ => touches_pure _
  refine touches_bind touches_listRefreshFamilies fun families => ?_
  refine touches_bind (touches_all fun _ _ =>
    touches_revokeRefreshTokenFamily.mono (by decide)) fun _ => ?_
  exact touches_notifyClient.mono (by decide)

theorem touches_revokeCognitoTokens {session : SsoSession} :
    Touches fs (revokeCognitoTokens deps session) := by
  unfold revokeCognitoTokens
  split
  · exact touches_pure _
  · exact touches_read

end Clients

section Users

variable {deps : Deps}

theorem touches_resolveContractedTenant {fs : List Field} {client : OidcClient}
    {tenantId : String} : Touches fs (resolveContractedTenant client tenantId) := by
  refine touches_bind touches_query fun tenant => ?_
  cases tenant with
  | none => exact touches_pure _
  | some tenant =>
      refine touches_bind touches_query fun contract => ?_
      cases contract with
      | none => exact touches_pure _
      | some contract =>
          simp only
          split <;> exact touches_pure _

/-- Looking a user up by the address may insert the row of a new one. -/
theorem touches_findOrCreateUser {email : String} {name : Option String} :
    Touches [.users] (findOrCreateUser deps email name) := by
  refine touches_bind touches_findUserByEmail fun found => ?_
  cases found with
  | some user => exact touches_pure _
  | none => exact touches_bind touches_ulid fun _ => touches_createUser

/-- Resolving the user of a login may insert or link a row of the users. -/
theorem touches_resolveUser {cognitoSub email : String} {name : Option String} :
    Touches [.users] (resolveUser deps cognitoSub email name) := by
  refine touches_bind touches_query fun bySub => ?_
  cases bySub with
  | some user => exact touches_pure _
  | none =>
      refine touches_bind touches_findUserByEmail fun byEmail => ?_
      cases byEmail with
      | some user =>
          simp only
          split
          · exact touches_pure _
          · exact touches_linkCognitoSub
      | none => exact touches_bind touches_ulid fun _ => touches_createUser

/-- A finished login opens a session and records the method of the second factor. -/
theorem touches_finishLogin {authenticated : CognitoAuthenticated}
    {environment : RequestEnvironment} {method : MfaMethod} :
    Touches [.users, .mfaMethods, .ssoSessions, .sidIndex, .sessions, .audit]
      (finishLogin deps authenticated environment method) := by
  refine touches_bind (touches_resolveUser.mono (by decide)) fun user => ?_
  split
  · exact touches_bind (touches_recordAudit.mono (by decide)) fun _ => touches_pure _
  · refine touches_bind touches_nowSeconds fun now => ?_
    refine touches_bind (touches_recordMfaMethod.mono (by decide)) fun _ => ?_
    refine touches_bind (touches_createSsoSession.mono (by decide)) fun created => ?_
    exact touches_bind (touches_recordAudit.mono (by decide)) fun _ => touches_pure _

end Users

end Sandbox.Auth
