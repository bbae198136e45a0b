import Mathlib.Order.CompleteBooleanAlgebra
import Mathlib.Order.CompletePartialOrder
import Sandbox.Auth.Footprint
import Sandbox.Interleave.Amid

/-!
# Building Blocks

The requests of the server are put together from a few programs: loading,
creating and touching a session, storing and taking codes, requests and
refresh tokens, revoking a family. Whatever is shown of these and survives
building programs is shown of every request.

An `Outline` is a judgement on programs with an assertion before and one after
each answer, and what it says of the blocks of a request. Between blocks
`idle` holds; a session that was loaded or created is `kept` until the request
has used it.

`Parts` says the same of larger parts, and of finishing a login only in the
browser it came from. Every outline is one, and `Parts.body` draws the
conclusion for both.

Often it is enough that every block belongs to a class of programs, such as
"safe for this invariant", whatever came before it. `Blocks` is that case. The
theorems before it break the larger blocks into smaller ones, for classes that
need not look at them as a whole.

## Main definitions

* `peripheral`: The parts no statement about sessions and tokens speaks of.
* `Logins`, `Outline`: What is shown of the blocks of a login and of a request.
* `AuthCall.finishing`, `Parts`: The same for the larger parts.
* `SafeFrom`: The judgement of programs that are safe for an invariant.
* `Amidst`: The judgement of programs among others that change some parts.
* `Blocks`: The blocks of a request belong to a class.

## Theorems

* `closed_authorizeWithSession`, `closed_resumeLogin`, `closed_exchange`,
  `closed_refresh`, `closed_revokeSessionBySid`: The larger blocks.
* `Parts.body`, `Outline.body`: A request does what its parts do.
* `Blocks.body`: A request belongs to a class its blocks belong to.
-/

namespace Sandbox.Auth

open Interleave Ttl

/-- The parts no statement about sessions and tokens speaks of. -/
def peripheral : List Field :=
  [.mfaPending, .users, .mfaMethods, .audit, .outbox]

/-- Touching no other field is closed under the constructions of a program. -/
theorem closed_touches (fs : List Field) : Closed fun _ p => Touches fs p where
  pure := touches_pure
  bind := touches_bind
  both := touches_both
  all := touches_all

/-- Programs that touch only peripheral parts belong to the class. -/
def HasPeripheral (C : (α : Type) → AuthProg α → Prop) : Prop :=
  ∀ {α : Type} {p : AuthProg α}, Touches peripheral p → C α p

section Larger

variable {C : (α : Type) → AuthProg α → Prop} {deps : Deps}

/-- A closed property of the load by key is one of the load by cookie. -/
theorem closed_loadSsoSession (hC : Closed C) (hload : ∀ key, C _ (loadSsoSessionByKey key))
    (cookieValue : Option String) : C _ (loadSsoSession deps cookieValue) := by
  cases cookieValue with
  | none => exact hC.pure _
  | some value =>
      unfold loadSsoSession
      simp only
      split
      · exact hC.pure _
      · exact hload _

/-- What the code, its store and the touch have, the authorization with a session has. -/
theorem closed_authorizeWithSession (hC : Closed C) (hper : HasPeripheral C)
    {rid : Option String}
    (hstore : ∀ key grant, C _ (authorizationCodes.setLogged (.codeStored rid key) key
      (.unused grant) authorizationCodeTtl))
    (htouch : ∀ session client tenantId environment,
      C _ (touchSsoSession session client tenantId environment))
    (request : ValidatedAuthorizationRequest) (session : SsoSession)
    (environment : RequestEnvironment) :
    C _ (authorizeWithSession deps rid request session environment) := by
  refine hC.bind (hper touches_checkTenantAccess) fun access => ?_
  cases access with
  | error reason => exact hC.pure _
  | ok user =>
      refine hC.bind (hper touches_randomToken) fun codeValue => ?_
      refine hC.bind (hstore _ _) fun _ => ?_
      exact hC.bind (htouch _ _ _ _) fun _ => hC.pure _

/-- What the authorization has, a resumed one has. -/
theorem closed_resumePending (hC : Closed C) (hper : HasPeripheral C) {rid : String}
    (hauthorize : ∀ request session environment,
      C _ (authorizeWithSession deps (some rid) request session environment))
    (pending : AuthorizationRequest) (session : SsoSession) (environment : RequestEnvironment) :
    C _ (resumePendingAuthorization deps rid pending session environment) := by
  refine hC.bind (hC.both (hper touches_query) (hper touches_query)) fun rows => ?_
  split
  · split
    · exact hC.pure _
    · exact hC.bind (hauthorize _ _ _) fun _ => hC.pure _
  · exact hC.pure _

/-- What taking the request and resuming it have, the end of a login has. -/
theorem closed_resumeLogin (hC : Closed C) (hper : HasPeripheral C) {rid : String}
    (htake : C _ (consumePendingAuthorization deps rid))
    (hauthorize : ∀ request session environment,
      C _ (authorizeWithSession deps (some rid) request session environment))
    (result : LoginSuccess) (environment : RequestEnvironment) :
    C _ (resumeLogin deps result rid environment) := by
  refine hC.bind ?_ fun request => ?_
  · unfold takeRequest
    split
    · exact hC.pure _
    · exact htake
  · cases request with
    | none => exact hC.pure _
    | some request =>
        exact hC.bind (closed_resumePending hC hper hauthorize _ _ _) fun _ => hC.pure _

/-- What the steps on codes and families have, an exchange has. -/
theorem closed_exchange (hC : Closed C) (hper : HasPeripheral C)
    (hload : ∀ key, C _ (loadSsoSessionByKey key))
    (htake : ∀ key, C _ (authorizationCodes.getAndDelete key))
    (hmark : ∀ key familyId, C _ (rememberConsumedCode key familyId))
    (hcreate : ∀ input, C _ (createRefreshTokenFamily deps input))
    (hrevoke : ∀ familyId, C _ (revokeRefreshTokenFamily familyId))
    (client : OidcClient) (input : CodeExchangeInput) :
    C _ (exchangeAuthorizationCode deps client input) := by
  refine hC.bind (htake _) fun stored => ?_
  split
  · exact hC.pure _
  · refine hC.bind (hper touches_describeRefreshTokenFamily) fun family => ?_
    refine hC.bind (hrevoke _) fun _ => hC.bind (hmark _ _) fun _ => ?_
    exact hC.bind (hper (touches_recordAudit.mono (by decide))) fun _ => hC.pure _
  · split
    · exact hC.pure _
    · refine hC.bind (hC.both (hload _)
        (hC.both (hper touches_query) (hper touches_resolveTenant))) fun rows => ?_
      split
      · exact hC.pure _
      · exact hC.pure _
      · exact hC.pure _
      · refine hC.bind (hC.both (hcreate _) (hper touches_issueTokens)) fun issued => ?_
        exact hC.bind (hmark _ _) fun _ => hC.pure _

/-- What the steps on tokens and families have, a refresh has. -/
theorem closed_refresh (hC : Closed C) (hper : HasPeripheral C)
    (hload : ∀ key, C _ (loadSsoSessionByKey key))
    (hconsume : ∀ value, C _ (consumeRefreshToken deps value))
    (hrotate : ∀ token, C _ (rotateRefreshToken deps token))
    (hrevoke : ∀ familyId, C _ (revokeRefreshTokenFamily familyId))
    (client : OidcClient) (value : String) :
    C _ (refreshAccessToken deps client value) := by
  have haudit : ∀ subject detail, C _ (recordAudit subject detail) :=
    fun _ _ => hper (touches_recordAudit.mono (by decide))
  refine hC.bind (hconsume _) fun consumed => ?_
  -- A token that is unknown, reused or of another client ends the call.
  cases consumed with
  | unknown => exact hC.pure _
  | reused token =>
      exact hC.bind (hrevoke _) fun _ => hC.bind (haudit _ _) fun _ => hC.pure _
  | consumed stored =>
      simp only [refreshConsumed]
      split
      · exact hC.bind (hrevoke _) fun _ => hC.bind (haudit _ _) fun _ => hC.pure _
      · refine hC.bind ?_ fun validated => ?_
        · refine hC.bind (hC.both (hload _) (hper touches_resolveTenant)) fun rows => ?_
          split
          · exact hC.pure _
          · exact hC.pure _
          · refine hC.bind (hper touches_checkTenantAccess) fun access => ?_
            cases access <;> exact hC.pure _
        · cases validated with
          | error e => exact hC.bind (hrevoke _) fun _ => hC.pure _
          -- Only a token that passed every check is rotated.
          | ok rows =>
              exact hC.bind (hC.both (hrotate _) (hper touches_issueTokens)) fun _ => hC.pure _

/-- What follows the search for a session, when it is revoked. -/
theorem closed_revokeFoundSession (hC : Closed C) (hper : HasPeripheral C)
    (hdestroy : ∀ session, C _ (destroySsoSession session))
    (hrevoke : ∀ familyId, C _ (revokeRefreshTokenFamily familyId))
    (hforget : ∀ sid, C _ (sidRefreshFamilies.delete sid))
    (session : Option SsoSession) (sid : String) : C _ (revokeFoundSession deps session sid) := by
  cases session with
  | none => exact hC.pure _
  | some session =>
      refine hC.bind (hper touches_listRefreshFamilies) fun families => ?_
      refine hC.bind (hC.both (hC.all fun ref _ => hrevoke _)
        (hC.both (hper touches_revokeCognitoTokens) (hdestroy _))) fun _ => ?_
      exact hforget _

/-- What its steps have, ending a session by its sid has. -/
theorem closed_revokeSessionBySid (hC : Closed C) (hper : HasPeripheral C)
    (hfind : ∀ sid, C _ (findSsoSessionBySid sid))
    (hfound : ∀ session sid, C _ (revokeFoundSession deps session sid))
    (hmark : ∀ sid reason revokedAt, C _ (Sessions.markRevoked sid reason revokedAt))
    (hemit : ∀ sid, C _ (Prog.emit (.sessionRevoked sid)))
    (sid : String) (reason : SessionRevokeReason) (environment : Option RequestEnvironment) :
    C _ (revokeSessionBySid deps sid reason environment) := by
  refine hC.bind (hC.both (hfind _) (hper touches_findWithClients)) fun found => ?_
  refine hC.bind (hfound _ _) fun _ => ?_
  refine hC.bind (hC.both
    (hC.all fun _ _ => hper (touches_notifyClientById.mono (by decide)))
    (hC.bind (hper touches_nowSeconds) fun now => hmark _ _ _)) fun told => ?_
  exact hC.bind (hper (touches_recordAudit.mono (by decide))) fun _ => hemit _

/-- What revoking a family has, cutting a client off has. -/
theorem closed_revokeClientAccess (hC : Closed C) (hper : HasPeripheral C)
    (hrevoke : ∀ familyId, C _ (revokeRefreshTokenFamily familyId))
    (userId : String) (client : OidcClient) (tenantId : String) :
    C _ (revokeClientAccess deps userId client tenantId) := by
  refine hC.bind (hper touches_listActiveByUser) fun sessions => ?_
  refine hC.bind (hC.all fun record _ => ?_) fun _ => hC.pure _
  refine hC.bind (hper touches_listRefreshFamilies) fun families => ?_
  refine hC.bind (hC.all fun ref _ => hrevoke _) fun _ => ?_
  exact hper (touches_notifyClient.mono (by decide))

end Larger

section Outlines

/-- A statement about a program, with an assertion before it and one after
    each of its answers. -/
abbrev Judgement (A : Type) : Type 1 := (α : Type) → AuthProg α → A → (α → A) → Prop

/-- The rules of a judgement. A larger assertion says less. -/
structure Sound {A : Type} [Preorder A] (T : Judgement A) : Prop where
  pure : ∀ {α : Type} {P : A} {Q : α → A} (a : α), P ≤ Q a → T α (pure a) P Q
  bind : ∀ {α β : Type} {p : AuthProg α} {f : α → AuthProg β} {P : A} {Q : α → A} {R : β → A},
    T α p P Q → (∀ a, T β (f a) (Q a) R) → T β (p >>= f) P R
  weaken : ∀ {α : Type} {p : AuthProg α} {P R : A} {Q : α → A}, T α p R Q → P ≤ R → T α p P Q
  peripheral : ∀ {α : Type} {p : AuthProg α} (P : A), Touches peripheral p → T α p P fun _ => P

/-- What is shown of the blocks of a login, up to its session. -/
structure Logins {A : Type} [Preorder A] (deps : Deps) (T : Judgement A) (idle : A)
    (kept : SsoSession → A) : Prop where
  sound : Sound T
  create : ∀ user authenticated environment,
    T _ (createSsoSession deps user authenticated environment) idle fun a => kept a.session

/-- What is shown of the blocks that the request `c` is built from. -/
structure Outline {A : Type} [Preorder A] (deps : Deps) (c : AuthCall) (T : Judgement A)
    (idle : A) (kept : SsoSession → A) : Prop extends Logins deps T idle kept where
  keptIdle : ∀ x, kept x ≤ idle
  load : ∀ key, T _ (loadSsoSessionByKey key) idle fun a => a.elim idle kept
  endPrevious : ∀ x cookie, T _ (endPrevious deps cookie) (kept x) fun _ => kept x
  save : ∀ params cookie environment, c = .authorize params cookie environment →
    ∀ request, T _ (storePendingAuthorization deps request) idle fun _ => idle
  authorize : ∀ params cookie environment, c = .authorize params cookie environment →
    ∀ request x environment',
      T _ (authorizeWithSession deps none request x environment') (kept x) fun _ => idle
  resume : ∀ result rid environment,
    T _ (resumeLogin deps result rid environment) (kept result.session) fun _ => idle
  exchange : ∀ clientId clientSecret input, c = .exchange clientId clientSecret input →
    ∀ client, T _ (exchangeAuthorizationCode deps client input) idle fun _ => idle
  refresh : ∀ clientId clientSecret value, c = .refresh clientId clientSecret value →
    ∀ client, T _ (refreshAccessToken deps client value) idle fun _ => idle
  revokeFamily : ∀ familyId, T _ (revokeRefreshTokenFamily familyId) idle fun _ => idle
  revokeSession : ∀ sid reason environment,
    T _ (revokeSessionBySid deps sid reason environment) idle fun _ => idle
  revokeAccess : ∀ userId client tenantId,
    T _ (revokeClientAccess deps userId client tenantId) idle fun _ => idle
  addMember : ∀ tenantId oidcClientId userId,
    T _ (upsertServiceMembership tenantId oidcClientId userId) idle fun _ => idle
  removeMember : ∀ tenantId oidcClientId userId,
    T _ (removeServiceMembership tenantId oidcClientId userId) idle fun _ => idle

/-- The cookie of the browser in which a request may finish a login. -/
def AuthCall.finishing : AuthCall → Option (Option String)
  | .postChallenge _ _ cookie _ => some cookie
  | .postSetup _ _ cookie _ => some cookie
  | _ => none

/-- What is shown of the parts of the request `c`. A login is finished in the
    browser it came from. -/
structure Parts {A : Type} [Preorder A] (deps : Deps) (c : AuthCall) (T : Judgement A)
    (idle : A) (kept : SsoSession → A) : Prop extends Logins deps T idle kept where
  finish : ∀ cookie, c.finishing = some cookie → ∀ result rid environment,
    T _ (Auth.finish deps result rid cookie environment) (kept result.session) fun _ => idle
  authorize : ∀ params cookie environment, c = .authorize params cookie environment →
    T _ (Auth.authorize deps params cookie environment) idle fun _ => idle
  load : ∀ key, T _ (loadSsoSessionByKey key) idle fun _ => idle
  exchange : ∀ clientId clientSecret input, c = .exchange clientId clientSecret input →
    ∀ client, T _ (exchangeAuthorizationCode deps client input) idle fun _ => idle
  refresh : ∀ clientId clientSecret value, c = .refresh clientId clientSecret value →
    ∀ client, T _ (refreshAccessToken deps client value) idle fun _ => idle
  revokeFamily : ∀ familyId, T _ (revokeRefreshTokenFamily familyId) idle fun _ => idle
  revokeSession : ∀ sid reason environment,
    T _ (revokeSessionBySid deps sid reason environment) idle fun _ => idle
  revokeAccess : ∀ userId client tenantId,
    T _ (revokeClientAccess deps userId client tenantId) idle fun _ => idle
  addMember : ∀ tenantId oidcClientId userId,
    T _ (upsertServiceMembership tenantId oidcClientId userId) idle fun _ => idle
  removeMember : ∀ tenantId oidcClientId userId,
    T _ (removeServiceMembership tenantId oidcClientId userId) idle fun _ => idle

/-- Programs that are safe from every resource an assertion accepts. -/
def SafeFrom {M : Type} [AddCommMonoid M] (P : Protocol M State Event AuthCall) (c : AuthCall) :
    Judgement (M → Prop) :=
  fun _ p Pre Post => ∀ r, Pre r → Safe P c p r Post

/-- Safe programs obey the rules, for a protocol that ignores the peripheral fields. -/
theorem sound_safeFrom {M : Type} [AddCommMonoid M] {P : Protocol M State Event AuthCall}
    {c : AuthCall} (hP : Stable peripheral P) : Sound (SafeFrom P c) where
  pure a hle r hr := safe_pure (hle r hr)
  bind hp hf r hr := safe_seq (hp r hr) fun a r' hr' => hf a r' hr'
  weaken hp hle r hr := hp r (hle r hr)
  peripheral Pre hp r hr := by
    refine safe_mono (safe_touches hP hp r) ?_
    rintro _ _ rfl
    exact hr

/-- A change of a list of fields is reflexive and transitive. -/
theorem moves_changes (fs : List Field) : Moves (Changes fs) :=
  ⟨changes_refl, fun _ _ _ => Changes.trans⟩

/-- Programs amid changes of the parts in `fs`. -/
def Amidst (fs : List Field) (E : Event → Prop) : Judgement (State → Prop) :=
  fun _ p P Q => Yields (Changes fs) E p P Q

/-- Programs that run amid changes of the peripheral fields obey the rules. -/
theorem sound_amidst {fs : List Field} (hfs : peripheral ⊆ fs) (E : Event → Prop) :
    Sound (Amidst fs E) where
  pure a h := Yields.pure a h
  bind := Yields.bind (moves_changes fs)
  weaken h hP := h.weaken hP
  peripheral _ hp := Yields.within (moves_changes fs) (hp.mono hfs)

end Outlines

namespace Logins

variable {A : Type} [Preorder A] {T : Judgement A} {deps : Deps} {idle P : A}
  {kept : SsoSession → A}

theorem pure (h : Logins deps T idle kept) {α : Type} (a : α) :
    T α (pure a) P fun _ => P :=
  h.sound.pure a le_rfl

theorem audit (h : Logins deps T idle kept) (subject : AuditSubject) (detail : AuditDetail) :
    T _ (recordAudit subject detail) P fun _ => P :=
  h.sound.peripheral P (touches_recordAudit.mono (by decide))

/-- A step on the pending logins keeps every condition on the rest. -/
theorem onPending (h : Logins deps T idle kept) {α : Type} {p : AuthProg α}
    (hp : Touches [.mfaPending] p) : T _ p P fun _ => P :=
  h.sound.peripheral P (hp.mono (by decide))

/-- A request to the user directory of the provider changes no store. -/
theorem directory {reply : Type} {event : reply → Option Event}
    {run : Outside → State → Option (reply × State)}
    (hrun : ∀ i s b s', run i s = some (b, s') → s' = s)
    (hevent : ∀ b x, event b = some x → x.field = .mfaPending) :
    Touches [.mfaPending] (.act event run .done) := by
  refine within_act (fun i s b s' hr => ?_) fun b x hx => ?_
  · rw [hrun i s b s' hr]
    exact changes_refl s
  · exact List.mem_singleton.mpr (hevent b x hx)

theorem finishLogin (h : Logins deps T idle kept) (authenticated : CognitoAuthenticated)
    (environment : RequestEnvironment) (method : MfaMethod) :
    T _ (Auth.finishLogin deps authenticated environment method) idle
      fun a => a.elim idle fun success => kept success.session := by
  refine h.sound.bind (h.sound.peripheral idle (touches_resolveUser.mono (by decide)))
    fun user => ?_
  split
  · exact h.sound.bind (h.audit _ _) fun _ => h.sound.pure _ le_rfl
  · refine h.sound.bind (h.sound.peripheral idle touches_nowSeconds) fun now => ?_
    refine h.sound.bind (h.sound.peripheral idle (touches_recordMfaMethod.mono (by decide)))
      fun _ => ?_
    refine h.sound.bind (h.create _ _ _) fun created => ?_
    exact h.sound.bind (h.audit _ _) fun _ => h.sound.pure _ le_rfl

theorem savePending (h : Logins deps T idle kept) (pendingId : String)
    (pending : MfaPending) : T _ (Auth.savePending deps pendingId pending) P fun _ => P :=
  h.onPending (touches_setLogged onField_mfaPending rfl)

theorem deletePending (h : Logins deps T idle kept) (pendingId : String) (accepted : Bool) :
    T _ (Auth.deletePending deps pendingId accepted) P fun _ => P :=
  h.onPending (touches_deleteLogged onField_mfaPending rfl)

/-- The first factor opens no session before it is complete. -/
theorem postLogin (h : Logins deps T idle kept) (credentials : CognitoCredentials)
    (environment : RequestEnvironment) (rid : String) :
    T _ (Auth.postLogin deps credentials environment rid) idle fun _ => idle := by
  have hstore : ∀ pending, T _ (storePending deps pending) idle fun _ => idle := fun pending =>
    h.sound.bind (h.sound.peripheral idle touches_randomToken) fun _ =>
      h.sound.bind (h.savePending _ _) fun _ => h.pure _
  refine h.sound.bind (Q := fun _ => idle) ?_ fun known => ?_
  · split
    · exact h.pure _
    · exact h.sound.bind (h.sound.peripheral idle touches_get) fun _ => h.pure _
  · split
    · refine h.sound.bind (Q := fun _ => idle) ?_ fun _ => h.pure _
      -- The directory refuses, asks for a code or wants a setup.
      refine h.sound.bind (h.sound.peripheral idle ?_) fun outcome => ?_
      · refine touches_ask_same fun i s b s' hi => ?_
        cases i <;> first | cases hi; rfl | cases hi
      · split
        · exact h.sound.bind (h.audit _ _) fun _ => h.pure _
        · exact h.sound.bind (hstore _) fun _ => h.pure _
        · refine h.sound.bind (h.sound.peripheral idle touches_randomIv) fun iv => ?_
          exact h.sound.bind (hstore _) fun _ => h.pure _
    · exact h.pure _

/-- What holds after a second factor was accepted or refused. -/
def afterFactor (idle : A) (kept : SsoSession → A) : Except MfaFlowError MfaCompleted → A
  | .error _ => idle
  | .ok completed => kept completed.login.session

/-- A second factor that is accepted has the session it opened. -/
theorem completeTotpChallenge (h : Logins deps T idle kept) (pendingId code : String)
    (environment : RequestEnvironment) :
    T _ (Auth.completeTotpChallenge deps pendingId code environment) idle
      (afterFactor idle kept) := by
  refine h.sound.bind (h.sound.peripheral idle touches_get) fun pending => ?_
  split
  · refine h.sound.bind (h.onPending (directory ?_ ?_)) fun responded => ?_
    · intro i s b s' hi
      cases i <;> first | cases hi; rfl | cases hi
    · rintro b x ⟨⟩
      rfl
    · split
      · refine h.sound.bind (Q := fun _ => idle) ?_ fun _ => h.sound.pure _ le_rfl
        refine h.sound.bind (h.audit _ _) fun _ => ?_
        split
        · exact h.sound.bind (h.deletePending _ _) fun _ => h.pure _
        · exact h.sound.bind (h.onPending (touches_update onField_mfaPending))
            fun _ => h.pure _
      · exact h.sound.bind (h.deletePending _ _) fun _ => h.sound.pure _ le_rfl
      -- The code was right: the record goes before the login is finished.
      · refine h.sound.bind (h.deletePending _ _) fun _ => ?_
        refine h.sound.bind (h.finishLogin _ _ _) fun success => ?_
        cases success <;> exact h.sound.pure _ le_rfl
  · exact h.sound.pure _ le_rfl

theorem associateSecret (h : Logins deps T idle kept) (pendingId sub email : String)
    (name : Option String) (encryptedTokens rid : String) (hadSecret : Bool) (now : Int) :
    T _ (Auth.associateSecret deps pendingId sub email name encryptedTokens rid hadSecret now)
      idle fun _ => idle := by
  unfold Auth.associateSecret
  split
  · exact h.pure _
  · refine h.sound.bind (h.onPending (directory ?_ ?_)) fun associated => ?_
    · intro i s b s' hi
      cases i <;> first | cases hi; rfl | cases hi
    · rintro b x ⟨⟩
      rfl
    · cases associated with
      | error e => exact h.pure _
      | ok secret =>
          refine h.sound.bind (Q := fun _ => idle) ?_ fun _ => ?_
          · split
            · exact h.audit _ _
            · exact h.pure _
          · refine h.sound.bind (h.sound.peripheral idle touches_randomIv) fun iv => ?_
            exact h.sound.bind (h.savePending _ _) fun _ => h.pure _

/-- The start of an enrolment touches the pending login alone. -/
theorem beginTotpSetup (h : Logins deps T idle kept) (pendingId : String) (renew : Bool) :
    T _ (Auth.beginTotpSetup deps pendingId renew) idle fun _ => idle := by
  refine h.sound.bind (h.sound.peripheral idle touches_get) fun pending => ?_
  split
  · refine h.sound.bind (h.sound.peripheral idle touches_nowSeconds) fun now => ?_
    split
    · split
      · exact h.pure _
      · exact h.associateSecret _ _ _ _ _ _ _ _
    · exact h.associateSecret _ _ _ _ _ _ _ _
  · exact h.pure _

/-- An enrolment that verifies has the session it opened. -/
theorem verifySetup (h : Logins deps T idle kept) (pendingId code sub email : String)
    (name : Option String) (rid : String) (tokens : CognitoTokens)
    (environment : RequestEnvironment) :
    T _ (Auth.verifySetup deps pendingId code sub email name rid tokens environment) idle
      (afterFactor idle kept) := by
  refine h.sound.bind (h.onPending (directory ?_ ?_)) fun verified => ?_
  · intro i s b s' hi
    cases i <;> first | cases hi; rfl | cases hi
  · rintro b x ⟨⟩
    rfl
  · split
    · exact h.sound.bind (h.audit _ _) fun _ => h.sound.pure _ le_rfl
    · exact h.sound.bind (h.deletePending _ _) fun _ => h.sound.pure _ le_rfl
    · refine h.sound.bind (h.onPending (directory ?_ ?_)) fun enabled => ?_
      · intro i s b s' hi
        cases i <;> first | cases hi; rfl | cases hi
      · rintro b x ⟨⟩
        rfl
      · split
        · exact h.sound.bind (h.deletePending _ _) fun _ => h.sound.pure _ le_rfl
        · refine h.sound.bind (h.deletePending _ _) fun _ => ?_
          refine h.sound.bind (h.finishLogin _ _ _) fun success => ?_
          cases success with
          | none => exact h.sound.pure _ le_rfl
          | some success => exact h.sound.bind (h.audit _ _) fun _ => h.sound.pure _ le_rfl

/-- An enrolment that is completed has the session it opened. -/
theorem completeTotpSetup (h : Logins deps T idle kept) (pendingId code : String)
    (environment : RequestEnvironment) :
    T _ (Auth.completeTotpSetup deps pendingId code environment) idle
      (afterFactor idle kept) := by
  refine h.sound.bind (h.sound.peripheral idle touches_get) fun pending => ?_
  split
  · refine h.sound.bind (h.sound.peripheral idle touches_nowSeconds) fun now => ?_
    split
    · exact h.sound.pure _ le_rfl
    · split
      · exact h.sound.pure _ le_rfl
      · split
        · exact h.sound.pure _ le_rfl
        · exact h.verifySetup _ _ _ _ _ _ _ _
  · exact h.sound.pure _ le_rfl

end Logins

namespace Parts

variable {A : Type} [Preorder A] {T : Judgement A} {deps : Deps} {c : AuthCall} {idle P : A}
  {kept : SsoSession → A}

/-- What holds for every client holds for the authenticated one. -/
theorem withClient (h : Parts deps c T idle kept) {α : Type} {p : OidcClient → AuthProg α}
    {clientId clientSecret : String} (hp : ∀ client, T _ (p client) idle fun _ => idle) :
    T _ (Auth.withClient deps clientId clientSecret p) idle fun _ => idle := by
  refine h.sound.bind (h.sound.peripheral idle touches_authenticateClient) fun client => ?_
  cases client with
  | none => exact h.pure _
  | some client => exact h.sound.bind (hp client) fun _ => h.pure _

theorem loadSession (h : Parts deps c T idle kept) (cookie : Option String) :
    T _ (loadSsoSession deps cookie) idle fun _ => idle := by
  cases cookie with
  | none => exact h.pure _
  | some value =>
      unfold loadSsoSession
      simp only
      split
      · exact h.pure _
      · exact h.load _

/-- An invitation ends no session and stores no token. -/
theorem inviteServiceMember (h : Parts deps c T idle kept) (client : OidcClient)
    (input : InviteInput) :
    T _ (Auth.inviteServiceMember deps client input) idle fun _ => idle := by
  refine h.sound.bind (h.sound.peripheral idle touches_resolveContractedTenant)
    fun resolved => ?_
  cases resolved with
  | error e => exact h.pure _
  | ok tenantId =>
      refine h.sound.bind (h.sound.peripheral idle (touches_findOrCreateUser.mono (by decide)))
        fun user => ?_
      refine h.sound.bind (h.addMember _ _ _) fun _ => ?_
      exact h.sound.bind (h.audit _ _) fun _ => h.pure _

/-- A removal cuts the client off, and does no more. -/
theorem revokeServiceMember (h : Parts deps c T idle kept) (client : OidcClient)
    (tenantId userId : String) :
    T _ (Auth.revokeServiceMember deps client tenantId userId) idle fun _ => idle := by
  refine h.sound.bind (h.sound.peripheral idle touches_resolveContractedTenant)
    fun resolved => ?_
  cases resolved with
  | error e => exact h.pure _
  | ok tenantId =>
      refine h.sound.bind (h.sound.peripheral idle touches_query) fun found => ?_
      cases found with
      | none => exact h.pure _
      | some user =>
          refine h.sound.bind (h.removeMember _ _ _) fun _ => ?_
          refine h.sound.bind (h.revokeAccess _ _ _) fun _ => ?_
          exact h.sound.bind (h.audit _ _) fun _ => h.pure _

/-- A request does what its parts do. -/
theorem body (h : Parts deps c T idle kept) :
    T _ (AuthCall.body deps c) idle fun _ => idle := by
  cases c with
  | authorize params cookie environment => exact h.authorize _ _ _ rfl
  | postLogin credentials environment rid => exact h.postLogin _ _ _
  -- A second factor that is accepted goes on to the end of the login.
  | postChallenge pendingId code cookie environment =>
      refine h.sound.bind (h.completeTotpChallenge _ _ _) fun completed => ?_
      cases completed with
      | error e => exact h.pure _
      | ok completed => exact h.sound.bind (h.finish _ rfl _ _ _) fun _ => h.pure _
  | beginTotpSetup pendingId renew => exact h.beginTotpSetup _ _
  | postSetup pendingId code cookie environment =>
      refine h.sound.bind (h.completeTotpSetup _ _ _) fun completed => ?_
      cases completed with
      | error e => exact h.pure _
      | ok completed => exact h.sound.bind (h.finish _ rfl _ _ _) fun _ => h.pure _
  | exchange clientId clientSecret input => exact h.withClient (h.exchange _ _ _ rfl)
  | refresh clientId clientSecret value => exact h.withClient (h.refresh _ _ _ rfl)
  -- A token of another client is left as it is.
  | revoke clientId clientSecret value =>
      refine h.withClient fun client => ?_
      refine h.sound.bind (h.sound.peripheral idle touches_get) fun stored => ?_
      cases stored with
      | none => exact h.pure _
      | some stored =>
          simp only
          split
          · exact h.pure _
          · exact h.revokeFamily _
  | loadSession cookie => exact h.loadSession cookie
  | logout cookie environment =>
      refine h.sound.bind (h.loadSession cookie) fun session => ?_
      cases session with
      | none => exact h.pure _
      | some x => exact h.revokeSession _ _ _
  -- Only one's own sessions are ended.
  | revokeSession cookie sessionId environment =>
      refine h.sound.bind (h.loadSession cookie) fun session => ?_
      cases session with
      | none => exact h.pure _
      | some x =>
          refine h.sound.bind (h.sound.peripheral idle touches_findWithClients) fun target => ?_
          cases target with
          | none => exact h.pure _
          | some target =>
              simp only
              split
              · exact h.revokeSession _ _ _
              · exact h.pure _
  | invite clientId clientSecret input =>
      exact h.withClient fun client => h.inviteServiceMember client input
  | uninvite clientId clientSecret tenantId userId =>
      exact h.withClient fun client => h.revokeServiceMember client tenantId userId
  | listMembers clientId clientSecret tenantId =>
      refine h.withClient fun client => ?_
      refine h.sound.bind (h.sound.peripheral idle touches_resolveContractedTenant)
        fun resolved => ?_
      cases resolved with
      | error e => exact h.pure _
      | ok tenantId =>
          exact h.sound.bind (h.sound.peripheral idle touches_query) fun _ => h.pure _
  | revokeSessionBySid sid reason environment => exact h.revokeSession _ _ _
  | revokeRefreshTokenFamily familyId => exact h.revokeFamily _

end Parts

namespace Outline

variable {A : Type} [Preorder A] {T : Judgement A} {deps : Deps} {c : AuthCall} {idle P : A}
  {kept : SsoSession → A}

theorem loadSession (h : Outline deps c T idle kept) (cookie : Option String) :
    T _ (loadSsoSession deps cookie) idle fun a => a.elim idle kept := by
  cases cookie with
  | none => exact h.sound.pure _ le_rfl
  | some value =>
      unfold loadSsoSession
      simp only
      split
      · exact h.sound.pure _ le_rfl
      · exact h.load _

/-- The authorization endpoint loads a session and answers with it. -/
theorem authorizeRequest (h : Outline deps c T idle kept) {params : RawParams}
    {cookie : Option String} {environment : RequestEnvironment}
    (hc : c = .authorize params cookie environment) :
    T _ (Auth.authorize deps params cookie environment) idle fun _ => idle := by
  refine h.sound.bind (h.sound.peripheral idle touches_validateAuthorizationRequest)
    fun validated => ?_
  cases validated with
  | error e => exact h.pure _
  | ok request =>
      refine h.sound.bind (h.loadSession cookie) fun session => ?_
      cases session with
      | none => exact h.sound.bind (h.save _ _ _ hc request) fun _ => h.pure _
      | some x => exact h.sound.bind (h.authorize _ _ _ hc _ _ _) fun _ => h.pure _

/-- An outline takes any cookie for the browser's and keeps what is loaded. -/
theorem parts (h : Outline deps c T idle kept) : Parts deps c T idle kept where
  toLogins := h.toLogins
  finish cookie _ result rid environment :=
    h.sound.bind (h.endPrevious _ cookie) fun _ => h.resume result rid environment
  authorize _ _ _ hc := h.authorizeRequest hc
  load key := by
    rw [← Prog.bind_done (loadSsoSessionByKey key)]
    refine h.sound.bind (h.load key) fun session => ?_
    cases session with
    | none => exact h.pure _
    | some x => exact h.sound.pure _ (h.keptIdle x)
  exchange := h.exchange
  refresh := h.refresh
  revokeFamily := h.revokeFamily
  revokeSession := h.revokeSession
  revokeAccess := h.revokeAccess
  addMember := h.addMember
  removeMember := h.removeMember

/-- A request does what its outline says. -/
theorem body (h : Outline deps c T idle kept) :
    T _ (AuthCall.body deps c) idle fun _ => idle :=
  h.parts.body

end Outline

/-- The blocks that the request `c` is built from belong to a class. -/
structure Blocks (deps : Deps) (c : AuthCall) (C : (α : Type) → AuthProg α → Prop) : Prop where
  closed : Closed C
  peripheral : HasPeripheral C
  load : ∀ key, C _ (loadSsoSessionByKey key)
  destroy : ∀ session, C _ (destroySsoSession session)
  create : ∀ user authenticated environment,
    C _ (createSsoSession deps user authenticated environment)
  save : ∀ params cookie environment, c = .authorize params cookie environment →
    ∀ request, C _ (storePendingAuthorization deps request)
  authorize : ∀ params cookie environment, c = .authorize params cookie environment →
    ∀ request session environment',
      C _ (authorizeWithSession deps none request session environment')
  resume : ∀ result rid environment, C _ (resumeLogin deps result rid environment)
  exchange : ∀ clientId clientSecret input, c = .exchange clientId clientSecret input →
    ∀ client, C _ (exchangeAuthorizationCode deps client input)
  refresh : ∀ clientId clientSecret value, c = .refresh clientId clientSecret value →
    ∀ client, C _ (refreshAccessToken deps client value)
  revokeFamily : ∀ familyId, C _ (revokeRefreshTokenFamily familyId)
  revokeSession : ∀ sid reason environment, C _ (revokeSessionBySid deps sid reason environment)
  addMember : ∀ tenantId oidcClientId userId,
    C _ (upsertServiceMembership tenantId oidcClientId userId)
  removeMember : ∀ tenantId oidcClientId userId,
    C _ (removeServiceMembership tenantId oidcClientId userId)

namespace Blocks

variable {C : (α : Type) → AuthProg α → Prop} {deps : Deps} {c : AuthCall}

/-- A class is a judgement that has nothing to say before and after. -/
theorem outline (h : Blocks deps c C) :
    Outline (A := Unit) deps c (fun α p _ _ => C α p) () fun _ => () where
  sound :=
    { pure := fun a _ => h.closed.pure a
      bind := h.closed.bind
      weaken := fun hp _ => hp
      peripheral := fun _ hp => h.peripheral hp }
  keptIdle _ := le_rfl
  load := h.load
  create := h.create
  endPrevious _ cookie := by
    refine h.closed.bind (closed_loadSsoSession h.closed h.load cookie) fun previous => ?_
    cases previous with
    | none => exact h.closed.pure _
    | some previous => exact h.destroy _
  save := h.save
  authorize := h.authorize
  resume := h.resume
  exchange := h.exchange
  refresh := h.refresh
  revokeFamily := h.revokeFamily
  revokeSession := h.revokeSession
  revokeAccess := closed_revokeClientAccess h.closed h.peripheral h.revokeFamily
  addMember := h.addMember
  removeMember := h.removeMember

/-- A request belongs to a class that its blocks belong to. -/
theorem body (h : Blocks deps c C) : C _ (AuthCall.body deps c) :=
  h.outline.body

end Blocks

end Sandbox.Auth
