import Sandbox.Auth.FamilyLists
import Sandbox.Auth.FamilyRevocation

/-!
# Family Indexes Never Lose a Live Token

When requests do not overlap, every refresh token that can be used is found
from both sides: its key is in the set of its family, and as long as its
session is stored its family is on the session's list. The first is
`Indexed`, the second `Linked`, and both hold after every run.

In between they need not hold. A program that has stored a token owes its
place in the set, and the mode says what may be missing from the lists.

From the first it follows that a revocation finds all tokens of a family, so
presenting a token that was used, a token of another client or a code that was
used leaves no usable token behind.

## Main definitions

* `Inv`: The invariant.
* `idle`, `kept`: What the programs of a request hold between their parts.

## Theorems

* `outline`: Every part of a request preserves the invariant.
* `inv_of_runs`: The invariant holds after every run.
* `exec_refresh_refused`, `exec_exchange_refused`: Presenting something that
  was used leaves no usable token.
* `live_tokens_indexed`: The indexes never lose a live token.
-/

namespace Sandbox.Auth.FamilyIndex

open Interleave Ttl

/-- The history of one request. -/
abbrev History : Type := List (AuthCall × Event)

structure Inv (R : Multiset Token) (s : State) (h : History) : Prop where
  indexed : Indexed s h
  owed : ∀ f key, Unindexed f key h → .owed f key ∈ R
  one : R.countP (fun t => t.isMode) ≤ 1
  linked : ∃ names, Linked names R s

def protocol : Protocol (Multiset Token) State Event AuthCall where
  guard := anyStep
  Inv := Inv

section Changes

variable {R R' : Multiset Token} {s s' : State} {h : History} {m n : Mode}

/-- Only one program holds the mode. -/
theorem Inv.alone (hinv : Inv ({.mode m} + R) s h) : ∀ n, .mode n ∉ R := by
  intro n hm'
  have hone := hinv.one
  rw [Multiset.countP_add] at hone
  have hpos : 0 < R.countP (fun t => t.isMode) := Multiset.countP_pos.mpr ⟨_, hm', rfl⟩
  have hself : ({.mode m} : Multiset Token).countP (fun t => t.isMode) = 1 := rfl
  omega

/-- Everything that matters gets less or stays. -/
theorem Inv.shrink (hinv : Inv R s h) (hindexed : Indexed s' h)
    (hlinked : ∀ names, Linked names R s → Linked names R s') : Inv R s' h :=
  ⟨hindexed, hinv.owed, hinv.one, hinv.linked.imp hlinked⟩

/-- The invariant does not notice events about other things. -/
theorem Inv.log (hinv : Inv R s h) (c : AuthCall) {e : Event}
    (hstored : ∀ f key, e ≠ .tokenStored f key) (hindexed : ∀ f key, e ≠ .tokenIndexed f key) :
    Inv R s ((c, e) :: h) where
  indexed := hinv.indexed.relog fun _ _ => (unindexed_other hstored hindexed).mpr
  owed f key hun := hinv.owed f key ((unindexed_other hstored hindexed).mp hun)
  one := hinv.one
  linked := hinv.linked

/-- A program learns something. -/
theorem Inv.learn {K : Multiset Token} (hinv : Inv R s h) (hK : ∀ t ∈ K, t.isMode = false)
    (hlinked : ∀ names, Linked names R s → Linked names (K + R) s) : Inv (K + R) s h := by
  refine ⟨hinv.indexed, fun f key hun => mem_frame _ (hinv.owed f key hun), ?_,
    hinv.linked.imp hlinked⟩
  rw [Multiset.countP_add, Multiset.countP_eq_zero.mpr fun t ht => by rw [hK t ht]; exact nofun,
    zero_add]
  exact hinv.one

/-- The mode is changed, and the program learns something. -/
theorem Inv.switch {K : Multiset Token} (hinv : Inv ({.mode m} + R) s h)
    (hindexed : Indexed s' h) (hK : ∀ t ∈ K, t.isMode = false)
    (hlinked : ∀ names, Linked names ({.mode m} + R) s → (∀ m, .mode m ∉ R) →
      ∃ names', Linked names' (K + ({.mode n} + R)) s') :
    Inv (K + ({.mode n} + R)) s' h := by
  rcases hinv.linked with ⟨names, hl⟩
  refine ⟨hindexed, fun f key hun => ?_, ?_, hlinked names hl hinv.alone⟩
  · exact mem_frame _ (mem_frame _
      ((Multiset.mem_add.mp (hinv.owed f key hun)).resolve_left (by simp)))
  · have hone := hinv.one
    rw [Multiset.countP_add] at hone
    rw [Multiset.countP_add, Multiset.countP_add,
      Multiset.countP_eq_zero.mpr fun t ht => by rw [hK t ht]; exact nofun, zero_add]
    exact hone

/-- Only the mode is changed. -/
theorem Inv.move (hinv : Inv ({.mode m} + R) s h) (hindexed : Indexed s' h)
    (hlinked : ∀ names, Linked names ({.mode m} + R) s → (∀ m, .mode m ∉ R) →
      Linked names ({.mode n} + R) s') : Inv ({.mode n} + R) s' h := by
  have hswitch := hinv.switch (K := 0) (n := n) hindexed
    (fun t ht => absurd ht (Multiset.notMem_zero t)) fun names hl hone =>
      ⟨names, by rw [zero_add]; exact hlinked names hl hone⟩
  rwa [zero_add] at hswitch

/-- Tokens and their sets stay as they are. -/
theorem indexed_same (hi : Indexed s h) (htokens : s'.refreshTokens = s.refreshTokens)
    (hsets : s'.refreshTokenFamilies = s.refreshTokenFamilies) (hnow : s'.now = s.now) :
    Indexed s' h := by
  refine hi.shrink ?_ (fun f key e he => he.before htokens hnow.ge) hsets
  intro key e he
  rw [hnow]
  exact hi.bounded key e (htokens ▸ he)

/-- The parts that say nothing about sessions, codes, tokens, sets and lists. -/
def otherParts : List Field :=
  [.authorizationRequests, .mfaPending, .users, .memberships, .mfaMethods, .sessions,
    .sessionClients, .audit, .outbox]

theorem stable : Stable otherParts protocol where
  changes R s s' h hch hinv := by
    have htokens : s'.refreshTokens = s.refreshTokens := hch.same .refreshTokens (by decide)
    have hsets : s'.refreshTokenFamilies = s.refreshTokenFamilies :=
      hch.same .refreshTokenFamilies (by decide)
    have hsessions : s'.ssoSessions = s.ssoSessions := hch.same .ssoSessions (by decide)
    have hindex : s'.sidIndex = s.sidIndex := hch.same .sidIndex (by decide)
    have hcodes : s'.authorizationCodes = s.authorizationCodes :=
      hch.same .authorizationCodes (by decide)
    have hlists : s'.sidRefreshFamilies = s.sidRefreshFamilies :=
      hch.same .sidRefreshFamilies (by decide)
    refine Inv.shrink hinv (indexed_same hinv.indexed htokens hsets hch.now) fun names hl => ?_
    refine hl.shrink hch.now.ge hch.issued ?_ ?_ ?_ ?_ hlists
    · exact fun k e he => hsessions ▸ he
    · exact fun k e he => hindex ▸ he
    · exact fun k e grant he _ => hcodes ▸ he
    · exact fun f key e he => he.before htokens hch.now.ge
  event R s h c e he hinv := by
    refine Inv.log hinv c ?_ ?_
    · rintro f key rfl
      exact absurd he (by decide : Field.refreshTokens ∉ otherParts)
    · rintro f key rfl
      exact absurd he (by decide : Field.refreshTokenFamilies ∉ otherParts)

end Changes

section Returning

variable {c : AuthCall} {deps : Deps} {f key : String}

/-- A program that says nothing about what the invariant speaks of. -/
theorem returns_other {α : Type} {p : AuthProg α} (h : Touches otherParts p) :
    Returns protocol c α p :=
  safe_touches stable h 0

theorem returns_emit {e : Event} (hstored : ∀ f key, e ≠ .tokenStored f key)
    (hindexed : ∀ f key, e ≠ .tokenIndexed f key) :
    Returns protocol c _ (Prog.emit e : AuthProg _) :=
  safe_emit fun _ _ _ hinv _ => ⟨0, Inv.log hinv c hstored hindexed, rfl⟩

/-- Reading leaves an event about other things. -/
theorem returns_readFamily :
    Returns protocol c _
      (refreshTokenFamilies.membersLogged (fun _ => .familyRead f) f : AuthProg _) :=
  safe_logged fun _ _ _ hinv _ => ⟨0, Inv.log hinv c nofun nofun, rfl⟩

theorem returns_deleteSession :
    Returns protocol c _ (ssoSessions.delete key : AuthProg _) :=
  safe_write fun _ _ _ hinv => ⟨0, Inv.shrink hinv
    (indexed_same (Inv.indexed hinv) rfl rfl rfl) fun _ hl => hl.shrink le_rfl
      (List.Subset.refl _) (fun _ _ he => (delete_eq_some he).2) (fun _ _ he => he)
      (fun _ _ _ he _ => he) (fun _ _ _ he => he.before rfl le_rfl) rfl, rfl⟩

theorem returns_deleteIndex :
    Returns protocol c _ (sidIndex.delete key : AuthProg _) :=
  safe_write fun _ _ _ hinv => ⟨0, Inv.shrink hinv
    (indexed_same (Inv.indexed hinv) rfl rfl rfl) fun _ hl => hl.shrink le_rfl
      (List.Subset.refl _) (fun _ _ he => he) (fun _ _ he => (delete_eq_some he).2)
      (fun _ _ _ he _ => he) (fun _ _ _ he => he.before rfl le_rfl) rfl, rfl⟩

/-- Destroying a session gives back what it holds. -/
theorem returns_destroySsoSession (session : SsoSession) :
    Returns protocol c _ (destroySsoSession session) := by
  have hC := closed_returns (ω := Outside) protocol c
  exact hC.bind (hC.both returns_deleteSession returns_deleteIndex) fun _ => hC.pure _

theorem returns_loadByKey (key : String) : Returns protocol c _ (loadSsoSessionByKey key) := by
  have hC := closed_returns (ω := Outside) protocol c
  refine hC.bind (returns_other touches_get) fun stored => ?_
  cases stored with
  | none => exact hC.pure _
  | some x =>
      refine hC.bind (returns_other touches_nowSeconds) fun now => ?_
      split
      · exact hC.bind (returns_destroySsoSession x) fun _ => hC.pure _
      · exact hC.pure _

/-- Ending the previous session of a browser gives back what it holds. -/
theorem returns_endPrevious (cookie : Option String) :
    Returns protocol c _ (endPrevious deps cookie) := by
  have hC := closed_returns (ω := Outside) protocol c
  refine hC.bind (closed_loadSsoSession hC returns_loadByKey cookie) fun previous => ?_
  cases previous with
  | none => exact hC.pure _
  | some previous => exact returns_destroySsoSession _

/-- Storing a token that is not active gives nothing to account for. -/
theorem returns_retire {token : RefreshToken} (hstatus : token.status ≠ .active) :
    Returns protocol c _ (refreshTokens.set key token refreshTokenTtl : AuthProg _) :=
  safe_write fun _ _ _ hinv => ⟨0, Inv.shrink hinv ((Inv.indexed hinv).retire hstatus)
    fun _ hl => hl.shrink le_rfl (List.Subset.refl _) (fun _ _ he => he) (fun _ _ he => he)
      (fun _ _ _ he _ => he) (fun _ _ _ he => (usableEntry_retire hstatus he).2) rfl, rfl⟩

theorem returns_revokeStored (stored : Option RefreshToken) :
    Returns protocol c _ (revokeStored key stored) := by
  cases stored with
  | none => exact (closed_returns protocol c).pure _
  | some token => exact returns_retire nofun

/-- Revoking a family gives nothing to account for. -/
theorem returns_revokeFamily (familyId : String) :
    Returns protocol c _ (revokeRefreshTokenFamily familyId) := by
  have hC := closed_returns (ω := Outside) protocol c
  refine hC.bind returns_readFamily fun keys => ?_
  refine hC.bind (hC.all fun _ _ => returns_other touches_get) fun records => ?_
  refine hC.bind (hC.all fun _ _ => returns_revokeStored _) fun _ => ?_
  exact returns_emit nofun nofun

theorem returns_rememberConsumedCode (familyId : String) :
    Returns protocol c _ (rememberConsumedCode key familyId) := by
  refine safe_write fun _ _ _ hinv => ⟨0, Inv.shrink hinv
    (indexed_same (Inv.indexed hinv) rfl rfl rfl) fun _ hl => hl.shrink le_rfl
      (List.Subset.refl _) (fun _ _ he => he) (fun _ _ he => he) ?_
      (fun _ _ _ he => he.before rfl le_rfl) rfl, rfl⟩
  intro k e grant he hgrant
  rcases put_eq_some he with ⟨_, rfl⟩ | ⟨_, he⟩
  · cases hgrant
  · exact he

end Returning

section Holding

variable {c : AuthCall} {deps : Deps} {r r' : Multiset Token} {x : SsoSession}

/-- Nothing is owed, and the mode is held. -/
def Holds (m : Mode) (r : Multiset Token) : Prop :=
  .mode m ∈ r ∧ ∀ f key, .owed f key ∉ r

/-- No token waits to be listed. -/
def idle (r : Multiset Token) : Prop :=
  ∃ m : Mode, m.resting ∧ Holds m r

/-- The session may be stored. -/
def kept (x : SsoSession) (r : Multiset Token) : Prop :=
  Holds (.kept x.sid) r ∧ .named x.sid x.id x.createdAt ∈ r

/-- A call that has a session is still an idle one. -/
theorem kept_le_idle : kept x ≤ idle := fun _ h => ⟨.kept x.sid, trivial, h.1⟩

/-- Who holds a mode holds it and something else. -/
theorem Holds.split {m : Mode} (h : Holds m r) :
    ∃ q, r = {.mode m} + q ∧ ∀ f key, .owed f key ∉ q := by
  rcases Multiset.exists_cons_of_mem h.1 with ⟨q, rfl⟩
  exact ⟨q, rfl, fun f key hq => h.2 f key (Multiset.mem_cons_of_mem hq)⟩

/-- A mode with tokens that owe nothing is still that mode. -/
theorem holds_add {m : Mode} {q : Multiset Token} (hq : ∀ f key, .owed f key ∉ q) :
    Holds m ({.mode m} + q) := by
  refine ⟨mem_held _ _ _ (Multiset.mem_singleton_self _), fun f key hmem => ?_⟩
  exact hq f key ((Multiset.mem_add.mp hmem).resolve_left (by simp))

/-- Nothing is lost with a resource that owes nothing. -/
theorem Holds.add {m : Mode} {q : Multiset Token} (h : Holds m r)
    (hq : ∀ f key, .owed f key ∉ q) : Holds m (r + q) := by
  refine ⟨mem_held _ _ _ h.1, fun f key hmem => ?_⟩
  rcases Multiset.mem_add.mp hmem with hmem | hmem
  · exact h.2 f key hmem
  · exact hq f key hmem

/-- The rules of sequence and parallel composition hold of safe programs. -/
theorem sound : Sound (SafeFrom protocol c) :=
  sound_safeFrom
    { changes := fun R s s' h hch => stable.changes R s s' h (hch.mono (by decide))
      event := fun R s h c e he => stable.event R s h c e
        ((by decide : peripheral ⊆ otherParts) he) }

/-- A program that gives back what it takes keeps every assertion. -/
theorem safeFrom_returns {α : Type} {p : AuthProg α} (h : Returns protocol c α p)
    (P : Multiset Token → Prop) : SafeFrom protocol c α p P fun _ => P := by
  intro r hr
  refine safe_mono (Returns.safe h r) ?_
  rintro _ _ rfl
  exact hr

/-- Reading the clock. -/
theorem safe_readClock :
    SafeFrom protocol c _ nowSeconds idle fun now r => idle r ∧ .past now ∈ r := by
  rintro r ⟨m, hrest, hheld⟩
  refine safe_read fun F s hist hinv => ⟨{.past s.now} + r, ?_, ⟨m, hrest, ?_⟩, ?_⟩
  · rw [add_assoc]
    exact Inv.learn hinv (by simp [Token.isMode]) fun _ hl => hl.read
  · rw [add_comm]
    exact hheld.add (by simp)
  · exact mem_held _ _ _ (Multiset.mem_singleton_self _)

/-- Loading a session. -/
theorem safe_load (key : String) :
    SafeFrom protocol c _ (loadSsoSessionByKey key) idle fun a => a.elim idle kept := by
  refine sound.bind (Q := fun a => a.elim idle kept) ?_ fun stored => ?_
  · rintro r ⟨m, hrest, hheld⟩
    refine safe_read fun F s hist hinv => ?_
    change ∃ r', Inv (r' + F) s hist ∧
      (Ttl.get s.ssoSessions s.now key).elim idle kept r'
    cases hget : Ttl.get s.ssoSessions s.now key with
    | none => exact ⟨r, hinv, m, hrest, hheld⟩
    | some x =>
        rcases get_eq_some.mp hget with ⟨e, he, _, rfl⟩
        -- The session that was found has a name, and the call now keeps it.
        rcases hheld.split with ⟨q, rfl, hq⟩
        refine ⟨{.named e.value.sid e.value.id e.value.createdAt} +
          ({.mode (.kept e.value.sid)} + q), ?_, ?_, ?_⟩
        · rw [add_assoc] at hinv ⊢
          rw [add_assoc]
          refine Inv.switch hinv (Inv.indexed hinv) (by simp [Token.isMode])
            fun names hl hone => ⟨names, ?_⟩
          rcases hl.sessions key e he with ⟨hid, hname⟩
          exact (hl.switch hone hrest (hl.ok_kept hone hrest he)).know (hid.symm ▸ hname)
        · rw [add_comm]
          exact (holds_add hq).add (by simp)
        · exact mem_held _ _ _ (Multiset.mem_singleton_self _)
  · cases stored with
    | none => exact sound.pure _ le_rfl
    | some x =>
        refine sound.bind (sound.peripheral _ touches_nowSeconds) fun now => ?_
        split
        -- An expired session is removed.
        · refine sound.bind (safeFrom_returns (returns_destroySsoSession x) _) fun _ => ?_
          exact sound.pure _ kept_le_idle
        · exact sound.pure _ le_rfl

/-- Storing a session that may be stored. -/
theorem safe_storeSession {e : Event} (x : SsoSession) (ttl : Int)
    (he : e.field = .ssoSessions) :
    SafeFrom protocol c _ (ssoSessions.setLogged e x.id x ttl : AuthProg _) (kept x)
      fun _ => kept x := by
  rintro r ⟨hheld, hname⟩
  refine safe_logged fun F s hist hinv _ => ⟨r, ?_, hheld, hname⟩
  refine Inv.log ?_ c (by rintro f key rfl; cases he) (by rintro f key rfl; cases he)
  rcases hheld.split with ⟨q, rfl, _⟩
  have hname' : .named x.sid x.id x.createdAt ∈ ({.mode (.kept x.sid)} + (q + F)) :=
    add_assoc _ q F ▸ mem_held _ _ F hname
  rw [add_assoc] at hinv ⊢
  refine Inv.move hinv (indexed_same (Inv.indexed hinv) rfl rfl rfl) fun names hl hone => ?_
  exact hl.storeSession hone (hl.facts _ _ _ hname')

end Holding

section Sessions

variable {c : AuthCall} {deps : Deps}

/-- The name of the session that is being created, for itself and for the
    index. -/
def named (sid key : String) (createdAt : Int) (r : Multiset Token) : Prop :=
  ∃ q, r = q + {.named sid key createdAt} ∧ Holds (.kept sid) q ∧ .named sid key createdAt ∈ q

/-- A session gets its `sid`. -/
theorem safe_nameSession (key : String) (now : Int) :
    SafeFrom protocol c _ (randomToken 32) (fun r => idle r ∧ .past now ∈ r)
      fun sid => named sid key now := by
  rintro r ⟨⟨m, hrest, hheld⟩, hpast⟩
  refine safe_ask fun F s hist i b s' hinv hrun => ?_
  cases i <;> first | cases hrun | skip
  simp only at hrun
  split at hrun
  · next hfresh =>
      cases hrun
      -- A `sid` that is new gets its name and its time with this step.
      rcases hheld.split with ⟨q, rfl, hq⟩
      have hpast' : .past now ∈ q + F :=
        mem_held _ _ _ ((Multiset.mem_add.mp hpast).resolve_left (by simp))
      refine ⟨{.named b key now} + {.named b key now} + ({.mode (.kept b)} + q), ?_,
        {.named b key now} + ({.mode (.kept b)} + q), ?_, ?_, ?_⟩
      · rw [add_assoc] at hinv
        rw [add_assoc, add_assoc {Token.mode _}]
        refine Inv.switch hinv (indexed_same (Inv.indexed hinv) rfl rfl rfl)
          (by simp [Token.isMode]) fun names hl hone => ⟨names.give b key now, ?_⟩
        have hname := hl.name key hone hrest hfresh.2 hpast'
        rw [add_assoc]
        exact (hname.know (if_pos rfl)).know (if_pos rfl)
      · rw [add_assoc, add_comm]
      · rw [add_comm]
        exact (holds_add hq).add (by simp)
      · exact mem_held _ _ _ (Multiset.mem_singleton_self _)
  · cases hrun

/-- Creating a session. -/
theorem safe_create (user : User) (authenticated : CognitoAuthenticated)
    (environment : RequestEnvironment) :
    SafeFrom protocol c _ (createSsoSession deps user authenticated environment) idle
      fun a => kept a.session := by
  refine sound.bind safe_readClock fun now => ?_
  refine sound.bind (sound.peripheral _ touches_randomToken) fun cookieValue => ?_
  refine sound.bind (safe_nameSession (deps.keyOf cookieValue) now) fun sid => ?_
  refine sound.bind (sound.peripheral _ touches_randomIv) fun iv => ?_
  rintro r ⟨q, rfl, hheld, hname⟩
  refine safe_bind (safe_mono (safe_both (safe_storeSession _ _ rfl q ⟨hheld, hname⟩)
    (safe_both_returns (Q := fun _ r => r = {.named sid (deps.keyOf cookieValue) now}) ?_
      (returns_other (touches_sessionsCreate.mono (by decide))))) ?_)
  · refine safe_logged fun F s hist hinv _ => ⟨_, Inv.log ?_ c nofun nofun, rfl⟩
    refine Inv.shrink hinv (indexed_same (Inv.indexed hinv) rfl rfl rfl) fun names hl => ?_
    exact hl.indexSession (hl.facts _ _ _ (mem_held _ _ _ (Multiset.mem_singleton_self _)))
  · rintro a _ ⟨s₁, s₂, rfl, hkept, rfl⟩
    exact ⟨hkept.1.add (by simp), mem_held _ _ _ hkept.2⟩

/-- Touching a session that was loaded or created. -/
theorem safe_touch (x : SsoSession) (client : OidcClient) (tenantId : String)
    (environment : RequestEnvironment) :
    SafeFrom protocol c _ (touchSsoSession x client tenantId environment) (kept x)
      fun _ => kept x := by
  refine sound.bind (sound.peripheral _ touches_nowSeconds) fun now => ?_
  refine sound.bind (Q := fun _ => kept x) (fun r hr => ?_) fun answers => ?_
  · refine safe_returns_both (Q := fun _ => kept x)
      (returns_other (touches_sessionsTouch.mono (by decide))) ?_
    refine safe_both_returns (Q := fun _ => kept x) ?_
      (returns_other (touches_recordClient.mono (by decide)))
    exact safe_storeSession { x with lastSeenAt := now } _ rfl r hr
  · split
    · exact sound.pure _ le_rfl
    · split
      · refine sound.bind (sound.peripheral _ (touches_recordAudit.mono (by decide))) fun _ => ?_
        exact sound.pure _ le_rfl
      · exact sound.pure _ le_rfl

/-- Issuing a code under a session that was loaded or created. -/
theorem safe_authorizeWithSession (rid : Option String) (request : ValidatedAuthorizationRequest)
    (x : SsoSession) (environment : RequestEnvironment) :
    SafeFrom protocol c _ (authorizeWithSession deps rid request x environment) (kept x)
      fun _ => idle := by
  refine sound.bind (sound.peripheral _ touches_checkTenantAccess) fun access => ?_
  cases access with
  | error reason => exact sound.pure _ kept_le_idle
  | ok user =>
      refine sound.bind (sound.peripheral _ touches_randomToken) fun codeValue => ?_
      refine sound.bind (Q := fun _ => kept x) ?_ fun _ => ?_
      -- The session has a name as long as the call keeps it, so its code may be stored.
      · intro r hr
        refine safe_logged fun F s hist hinv _ => ⟨r, Inv.log ?_ c nofun nofun, hr⟩
        refine Inv.shrink hinv (indexed_same (Inv.indexed hinv) rfl rfl rfl) fun names hl => ?_
        refine Linked.storeCode hl (codeGrant request x) ?_
        change (names x.sid).isSome
        rw [hl.facts _ _ _ (mem_held _ _ F hr.2)]
        rfl
      · refine sound.bind (safe_touch x _ _ _) fun _ => ?_
        exact sound.pure _ kept_le_idle

/-- Resuming a login starts from the session that was opened. -/
theorem safe_resumeLogin (result : LoginSuccess) (rid : String)
    (environment : RequestEnvironment) :
    SafeFrom protocol c _ (resumeLogin deps result rid environment) (kept result.session)
      fun _ => idle := by
  refine sound.bind (Q := fun _ => kept result.session) ?_ fun request => ?_
  · unfold takeRequest
    split
    · exact sound.pure _ le_rfl
    · exact safeFrom_returns (returns_other
        ((touches_getAndDelete onField_authorizationRequests).mono (by decide))) _
  -- Without the saved request there is nothing to resume.
  · cases request with
    | none => exact sound.pure _ kept_le_idle
    | some pending =>
        refine sound.bind (Q := fun _ => idle) ?_ fun _ => sound.pure _ le_rfl
        refine sound.bind (sound.peripheral _ (touches_both touches_query touches_query))
          fun rows => ?_
        split
        · split
          · exact sound.pure _ kept_le_idle
          · refine sound.bind (safe_authorizeWithSession _ _ _ _) fun _ => ?_
            exact sound.pure _ le_rfl
        · exact sound.pure _ kept_le_idle

end Sessions

section Tokens

variable {c : AuthCall} {deps : Deps}

/-- The session of a `sid` has a name. -/
def hasName (sid : String) (r : Multiset Token) : Prop :=
  ∃ key createdAt, .named sid key createdAt ∈ r

/-- A token is stored, and its place in the set of its family is owed. -/
theorem Inv.storeToken {R : Multiset Token} {s : State} {h : History} {m n : Mode}
    {f key : String} {v : RefreshToken} (hinv : Inv ({.mode m} + R) s h) (hfamily : v.familyId = f)
    (hlinked : ∀ names, Linked names ({.mode m} + R) s → (∀ m, .mode m ∉ R) →
      Linked names ({.mode n} + R) { s with
        refreshTokens := Ttl.set s.refreshTokens s.now key v refreshTokenTtl }) :
    Inv ({.owed f key} + ({.mode n} + R))
      { s with refreshTokens := Ttl.set s.refreshTokens s.now key v refreshTokenTtl }
      ((c, .tokenStored f key) :: h) := by
  rcases hinv.linked with ⟨names, hl⟩
  refine ⟨hinv.indexed.store hfamily, fun f' key' hun => ?_, ?_,
    names, (hlinked names hl hinv.alone).learn nofun nofun nofun⟩
  -- The one entry that is missing from its set now is the one owed.
  · rcases unindexed_stored.mp hun with ⟨rfl, rfl⟩ | hun
    · exact mem_held _ _ _ (Multiset.mem_singleton_self _)
    · exact mem_frame _ (mem_frame _
        ((Multiset.mem_add.mp (hinv.owed f' key' hun)).resolve_left (by simp)))
  · have hone := hinv.one
    rw [Multiset.countP_add] at hone
    rw [Multiset.countP_add, Multiset.countP_add]
    exact (zero_add _).le.trans hone

/-- A token was stored under the mode. -/
def stored (deps : Deps) (f : String) (m : Mode) (issued : IssuedRefreshToken)
    (r : Multiset Token) : Prop :=
  ∃ q, r = {.owed f (deps.keyOf issued.value)} + q ∧ Holds m q

/-- Storing an active token moves the call from one mode to the next. -/
theorem safe_storeToken {m n : Mode} (input : NewRefreshTokenInput) (f : String)
    {P : Multiset Token → Prop}
    (hlinked : ∀ names R s key, Linked names ({.mode m} + R) s → (∀ m, .mode m ∉ R) →
      P ({.mode m} + R) → Linked names ({.mode n} + R)
        { s with refreshTokens := Ttl.set s.refreshTokens s.now key (input.record f)
                   refreshTokenTtl })
    (hP : ∀ r F, P r → P (r + F)) :
    SafeFrom protocol c _ (storeRefreshToken deps input f) (fun r => Holds m r ∧ P r)
      fun issued r => stored deps f n issued r ∧ issued.record = input.record f := by
  refine sound.bind (sound.peripheral _ touches_randomToken) fun value => ?_
  refine sound.bind (Q := fun _ => stored deps f n ⟨value, input.record f⟩) ?_
    fun _ r hr => safe_pure ⟨hr, rfl⟩
  rintro r ⟨hheld, hr⟩
  -- The mode is taken out of what is held and changed with the store.
  rcases hheld.split with ⟨q, rfl, hq⟩
  refine safe_logged fun F s hist hinv _ =>
    ⟨{.owed f (deps.keyOf value)} + ({.mode n} + q), ?_, _, rfl, holds_add hq⟩
  rw [add_assoc] at hinv
  rw [add_assoc, add_assoc]
  refine Inv.storeToken hinv rfl fun names hl hone => ?_
  exact hlinked names _ s _ hl hone (add_assoc {Token.mode m} q F ▸ hP _ F hr)

/-- Adding a key to the set it is owed to. -/
theorem safe_addToFamily (f key : String) :
    Safe protocol c (refreshTokenFamilies.addLogged (.tokenIndexed f key) f key
      refreshTokenTtl : AuthProg _) {.owed f key} fun _ r => r = 0 := by
  refine safe_logged fun F s hist hinv _ => ⟨0, ?_, rfl⟩
  rw [zero_add]
  refine ⟨(Inv.indexed hinv).index, fun f' key' hun => ?_, ?_, ?_⟩
  · rcases unindexed_indexed.mp hun with ⟨hne, hun⟩
    refine (Multiset.mem_add.mp (Inv.owed hinv f' key' hun)).resolve_left fun hmem => hne ?_
    cases Multiset.mem_singleton.mp hmem
    exact ⟨rfl, rfl⟩
  · have hone := Inv.one hinv
    rw [Multiset.countP_add] at hone
    exact (Nat.le_add_left _ _).trans hone
  · rcases Inv.linked hinv with ⟨names, hl⟩
    refine ⟨names, (hl.share (fun t => mem_frame _) fun v hv => ?_).shrink le_rfl
      (List.Subset.refl _) (fun _ _ he => he) (fun _ _ he => he) (fun _ _ _ he _ => he)
      (fun _ _ _ he => he.before rfl le_rfl) rfl⟩
    exact (Multiset.mem_add.mp hv).resolve_left (by simp)

/-- Putting a new family on the list of its session. -/
theorem safe_list (v : RefreshToken) :
    SafeFrom protocol c _ (sidRefreshFamilies.add v.sid (encodeFamilyRef v.familyRef)
      refreshTokenTtl : AuthProg _) (Holds (.creating v)) fun _ => Holds .free := by
  intro r hheld
  rcases hheld.split with ⟨q, rfl, hq⟩
  refine safe_write fun F s hist hinv => ⟨{.mode .free} + q, ?_, holds_add hq⟩
  rw [add_assoc] at hinv ⊢
  exact Inv.move hinv (indexed_same (Inv.indexed hinv) rfl rfl rfl) fun _ hl hone => hl.list hone

/-- A new family is indexed under its sid before the call goes on. -/
theorem safe_createRefreshTokenFamily (input : NewRefreshTokenInput) :
    SafeFrom protocol c _ (createRefreshTokenFamily deps input)
      (fun r => idle r ∧ hasName input.sid r) fun _ => idle := by
  refine sound.bind (Q := fun f r => ((':' ∉ f.toList) ∧ idle r ∧ hasName input.sid r)) ?_
    fun f => ?_
  -- A drawn family id has no colon.
  · intro r hr
    refine safe_mono (safe_randomToken stable 16 r) ?_
    rintro f _ ⟨rfl, hform⟩
    exact ⟨colon_notMem_of_isBase64Url hform, hr⟩
  · rintro r ⟨hplain, ⟨m, hrest, hheld⟩, hname⟩
    refine safe_seq (safe_storeToken input f (n := .creating (input.record f))
          (P := hasName input.sid)
      (fun names R s key hl hone hname => hl.storeToken hone hrest ?_ hplain) ?_ r
      ⟨hheld, hname⟩) ?_
    · rcases hname with ⟨key, createdAt, hname⟩
      change (names input.sid).isSome
      rw [hl.facts _ _ _ hname]
      rfl
    · exact fun r F ⟨key, createdAt, hname⟩ => ⟨key, createdAt, mem_held _ _ _ hname⟩
    -- Set and list are written at once, and then nothing is owed.
    · rintro issued _ ⟨⟨q, rfl, hq⟩, _⟩
      refine safe_seq (safe_both (safe_addToFamily _ _) (safe_list (input.record f) q hq)) ?_
      rintro _ _ ⟨_, s₂, rfl, rfl, hfree⟩
      rw [zero_add]
      exact safe_pure ⟨.free, trivial, hfree⟩

end Tokens

section Grants

variable {c : AuthCall} {deps : Deps}

/-- Taking a code out. A code that was not used names a session. -/
theorem safe_takeCode (key : String) :
    SafeFrom protocol c _ (authorizationCodes.getAndDelete key : AuthProg _) idle
      fun stored r => idle r ∧ ∀ grant, stored = some (.unused grant) → hasName grant.sid r := by
  rintro r hr
  refine safe_atomic fun F s hist hinv => ?_
  -- A code that goes away leaves the tokens and their sets.
  have hdelete : Inv (r + F) { s with
      authorizationCodes := Ttl.delete s.authorizationCodes key } hist :=
    Inv.shrink hinv (indexed_same (Inv.indexed hinv) rfl rfl rfl) fun _ hl => hl.shrink le_rfl
      (List.Subset.refl _) (fun _ _ he => he) (fun _ _ he => he)
      (fun _ _ _ he _ => (delete_eq_some he).2) (fun _ _ _ he => he.before rfl le_rfl) rfl
  change ∃ r', Inv (r' + F) { s with
      authorizationCodes := Ttl.delete s.authorizationCodes key } hist ∧ idle r' ∧
    ∀ grant, Ttl.get s.authorizationCodes s.now key = some (.unused grant) → hasName grant.sid r'
  by_cases hunused : ∃ grant, Ttl.get s.authorizationCodes s.now key = some (.unused grant)
  · rcases hunused with ⟨grant, hget⟩
    rcases get_eq_some.mp hget with ⟨e, he, _, hvalue⟩
    -- The session of an unused code has a name, which the call now knows.
    rcases Inv.linked hinv with ⟨names, hl⟩
    rcases Option.isSome_iff_exists.mp (hl.codes key e grant he hvalue) with ⟨⟨k, t⟩, hname⟩
    refine ⟨{.named grant.sid k t} + r, ?_, ?_, ?_⟩
    · rw [add_assoc]
      refine ⟨hdelete.indexed, fun f key hun => mem_frame _ (hdelete.owed f key hun), ?_, names,
        ?_⟩
      · rw [Multiset.countP_add]
        exact (zero_add _).le.trans hdelete.one
      · refine (hl.know hname).shrink le_rfl (List.Subset.refl _) (fun _ _ he => he)
          (fun _ _ he => he) (fun _ _ _ he _ => (delete_eq_some he).2)
          (fun _ _ _ he => he.before rfl le_rfl) rfl
    · rcases hr with ⟨m, hrest, hheld⟩
      rw [add_comm]
      exact ⟨m, hrest, hheld.add (by simp)⟩
    · intro grant' hget'
      cases hget.symm.trans hget'
      exact ⟨k, t, mem_held _ _ _ (Multiset.mem_singleton_self _)⟩
  · exact ⟨r, hdelete, hr, fun grant hget => absurd ⟨grant, hget⟩ hunused⟩

theorem safe_exchange (client : OidcClient) (input : CodeExchangeInput) :
    SafeFrom protocol c _ (exchangeAuthorizationCode deps client input) idle fun _ => idle := by
  have hmark : ∀ key familyId, SafeFrom protocol c _ (rememberConsumedCode key familyId) idle
      fun _ => idle := fun key f => safeFrom_returns (returns_rememberConsumedCode f) _
  refine sound.bind (safe_takeCode _) fun taken => ?_
  split
  · exact sound.pure _ fun _ hr => hr.1
  -- A code that was used before has its family revoked.
  · refine sound.weaken ?_ fun _ hr => hr.1
    refine sound.bind (sound.peripheral _ touches_describeRefreshTokenFamily) fun family => ?_
    refine sound.bind (safeFrom_returns (returns_revokeFamily _) _) fun _ => ?_
    refine sound.bind (hmark _ _) fun _ => ?_
    refine sound.bind (sound.peripheral _ (touches_recordAudit.mono (by decide))) fun _ => ?_
    exact sound.pure _ le_rfl
  · next grant =>
      split
      · exact sound.pure _ fun _ hr => hr.1
      · refine sound.weaken ?_ fun r hr => And.intro hr.1 (hr.2 grant rfl)
        refine sound.bind (safeFrom_returns ((closed_returns protocol c).both
          (returns_loadByKey _) (returns_other (touches_both touches_query touches_resolveTenant)))
          _) fun rows => ?_
        split
        · exact sound.pure _ fun _ hr => hr.1
        · exact sound.pure _ fun _ hr => hr.1
        · exact sound.pure _ fun _ hr => hr.1
        -- The family is created while the tokens are issued.
        · refine sound.bind (Q := fun _ => idle) (fun r hr => ?_) fun issued => ?_
          · exact safe_both_returns (safe_createRefreshTokenFamily
              (grant.refreshInput client) r hr) (returns_other touches_issueTokens)
          · exact sound.bind (hmark _ _) fun _ => sound.pure _ le_rfl

/-- A token was taken out, or nothing was. -/
def afterTaking (stored : Option RefreshToken) (r : Multiset Token) : Prop :=
  idle r ∧ ∀ v, stored = some v → v.status = .active → Holds (.holding v) r

/-- Taking a token out. -/
theorem safe_takeToken (key : String) :
    SafeFrom protocol c _ (refreshTokens.getAndDelete key : AuthProg _) idle afterTaking := by
  rintro r ⟨m, hrest, hheld⟩
  refine safe_atomic fun F s hist hinv => ?_
  change ∃ r', Inv (r' + F) { s with refreshTokens := Ttl.delete s.refreshTokens key } hist ∧
    afterTaking (Ttl.get s.refreshTokens s.now key) r'
  -- A removal leaves fewer usable tokens.
  have husable : ∀ f k e, UsableEntry
      { s with refreshTokens := Ttl.delete s.refreshTokens key } f k e → UsableEntry s f k e :=
    fun f k e he => ⟨(delete_eq_some he.stored).2, he.live, he.family, he.active⟩
  have hshrink : ∀ names R, Linked names R s →
      Linked names R { s with refreshTokens := Ttl.delete s.refreshTokens key } :=
    fun names R hl => hl.shrink le_rfl (List.Subset.refl _) (fun _ _ he => he)
      (fun _ _ he => he) (fun _ _ _ he _ => he) husable rfl
  -- An active token is now held by the call alone.
  by_cases hactive : ∃ v, Ttl.get s.refreshTokens s.now key = some v ∧ v.status = .active
  · rcases hactive with ⟨v, hget, hstatus⟩
    rcases get_eq_some.mp hget with ⟨e, he, hlive, rfl⟩
    rcases hheld.split with ⟨q, rfl, hq⟩
    refine ⟨{.mode (.holding e.value)} + q, ?_, ⟨.holding e.value, trivial, holds_add hq⟩, ?_⟩
    · rw [add_assoc] at hinv ⊢
      refine Inv.move hinv (Inv.indexed hinv).delete fun names hl hone => hshrink _ _ ?_
      exact hl.switch hone hrest (hl.ok_holding hone hrest ⟨he, hlive, rfl, hstatus⟩)
    · intro v hv _
      rw [hget] at hv
      cases hv
      exact holds_add hq
  · refine ⟨r, Inv.shrink hinv (Inv.indexed hinv).delete fun _ => hshrink _ _,
      ⟨m, hrest, hheld⟩, ?_⟩
    exact fun v hv hstatus => absurd ⟨v, hv, hstatus⟩ hactive

/-- What is held after a token was presented. -/
def afterConsume : ConsumeResult → Multiset Token → Prop
  | .consumed v => Holds (.holding v)
  | _ => idle

/-- Consuming a token leaves the call with the token it may rotate. -/
theorem safe_consume (value : String) :
    SafeFrom protocol c _ (consumeRefreshToken deps value) idle afterConsume := by
  refine sound.bind (safe_takeToken _) fun taken => ?_
  cases taken with
  | none => exact sound.pure _ fun _ hr => hr.1
  | some v =>
      simp only
      split
      · next hstatus =>
          refine sound.weaken (R := idle) ?_ fun _ hr => hr.1
          refine sound.bind (safeFrom_returns (returns_retire hstatus) _) fun _ => ?_
          exact sound.pure _ le_rfl
      · next hstatus =>
          refine sound.weaken (R := Holds (.holding v)) ?_
            fun _ hr => hr.2 v rfl (not_not.mp hstatus)
          refine sound.bind (safeFrom_returns (returns_retire (by simp)) _) fun _ => ?_
          exact sound.pure _ le_rfl

theorem holding_le_idle (v : RefreshToken) : Holds (.holding v) ≤ idle :=
  fun _ hr => ⟨.holding v, trivial, hr⟩

/-- Issuing the successor of a token that was taken out. -/
theorem safe_rotate (v : RefreshToken) :
    SafeFrom protocol c _ (rotateRefreshToken deps v) (Holds (.holding v)) fun _ => idle := by
  refine sound.bind (sound.weaken (safe_storeToken v.input v.familyId (n := .holding v)
    (P := fun _ => True) (fun names R s key hl hone _ => hl.storeSuccessor hone rfl rfl)
    fun _ _ _ => trivial) fun _ hr => ⟨hr, trivial⟩) fun next => ?_
  rintro _ ⟨⟨q, rfl, hq⟩, _⟩
  have hadd := safe_frame q (safe_addToFamily (c := c) v.familyId (deps.keyOf next.value))
  refine safe_seq hadd ?_
  rintro _ _ ⟨_, rfl, rfl⟩
  rw [zero_add]
  exact safe_pure ⟨.holding v, trivial, hq⟩

theorem safe_refresh (client : OidcClient) (value : String) :
    SafeFrom protocol c _ (refreshAccessToken deps client value) idle fun _ => idle := by
  have haudit : ∀ (P : Multiset Token → Prop) subject detail,
      SafeFrom protocol c _ (recordAudit subject detail) P fun _ => P :=
    fun P _ _ => sound.peripheral P (touches_recordAudit.mono (by decide))
  have hrevoke : ∀ (P : Multiset Token → Prop) f,
      SafeFrom protocol c _ (revokeRefreshTokenFamily f) P fun _ => P :=
    fun P f => safeFrom_returns (returns_revokeFamily f) P
  refine sound.bind (safe_consume _) fun consumed => ?_
  cases consumed with
  | unknown => exact sound.pure _ le_rfl
  -- A token that was used before has its family revoked.
  | reused v =>
      exact sound.bind (hrevoke _ _) fun _ => sound.bind (haudit _ _ _) fun _ =>
        sound.pure _ le_rfl
  | consumed v =>
      simp only [refreshConsumed]
      split
      · exact sound.bind (hrevoke _ _) fun _ => sound.bind (haudit _ _ _) fun _ =>
          sound.pure _ (holding_le_idle v)
      -- The checks leave the token in hand, and a failed one revokes its family.
      · refine sound.bind (Q := fun _ => Holds (.holding v)) ?_ fun validated => ?_
        · refine sound.bind (safeFrom_returns ((closed_returns protocol c).both
            (returns_loadByKey _) (returns_other touches_resolveTenant)) _) fun rows => ?_
          split
          · exact sound.pure _ le_rfl
          · exact sound.pure _ le_rfl
          · refine sound.bind (sound.peripheral _ touches_checkTenantAccess) fun access => ?_
            cases access <;> exact sound.pure _ le_rfl
        · cases validated with
          | error e =>
              exact sound.bind (hrevoke _ _) fun _ => sound.pure _ (holding_le_idle v)
          | ok rows =>
              -- The successor is stored while the tokens are issued.
              refine sound.bind (Q := fun _ => idle) (fun r hr => ?_) fun _ =>
                sound.pure _ le_rfl
              exact safe_both_returns (safe_rotate v r hr) (returns_other touches_issueTokens)

end Grants

section Revoking

variable {c : AuthCall} {deps : Deps}

/-- The session that was found is the one of the `sid`. -/
def found (sid : String) (session : Option SsoSession) (r : Multiset Token) : Prop :=
  idle r ∧ ∀ x, session = some x → ∃ createdAt, .named sid x.id createdAt ∈ r

/-- A session that is loaded by a key has it as its id. -/
theorem safe_loadAt (key : String) (P : Multiset Token → Prop) :
    SafeFrom protocol c _ (loadSsoSessionByKey key) P
      fun a r => P r ∧ ∀ x, a = some x → x.id = key := by
  refine sound.bind (Q := fun a r => P r ∧ ∀ x, a = some x → x.id = key) ?_ fun stored => ?_
  · refine fun r hr => safe_read fun F s hist hinv => ⟨r, hinv, hr, fun x hx => ?_⟩
    rcases get_eq_some.mp hx with ⟨e, he, _, rfl⟩
    rcases Inv.linked hinv with ⟨names, hl⟩
    exact (hl.sessions key e he).1
  · cases stored with
    | none => exact sound.pure _ le_rfl
    | some x =>
        refine sound.bind (sound.peripheral _ touches_nowSeconds) fun now => ?_
        split
        · refine sound.bind (safeFrom_returns (returns_destroySsoSession x) _) fun _ => ?_
          exact sound.pure _ fun _ hr => ⟨hr.1, nofun⟩
        · exact sound.pure _ le_rfl

/-- A look-up by sid answers the session of that sid. -/
theorem safe_findSsoSessionBySid (sid : String) :
    SafeFrom protocol c _ (findSsoSessionBySid sid) idle (found sid) := by
  refine sound.bind (Q := fun (key : Option String) r => idle r ∧
    ∀ k, key = some k → ∃ createdAt, .named sid k createdAt ∈ r) ?_ fun key => ?_
  · rintro r hr
    refine safe_logged fun F s hist hinv _ => ?_
    -- The look-up is recorded, and names no token.
    have hlog := Inv.log hinv c (e := .sidLookedUp sid) (fun _ _ h => nomatch h)
      fun _ _ h => nomatch h
    change ∃ r', Inv (r' + F) s ((c, .sidLookedUp sid) :: hist) ∧ idle r' ∧
      ∀ k, Ttl.get s.sidIndex s.now sid = some k → ∃ createdAt, .named sid k createdAt ∈ r'
    cases hget : Ttl.get s.sidIndex s.now sid with
    | none => exact ⟨r, hlog, hr, nofun⟩
    | some key =>
        rcases get_eq_some.mp hget with ⟨e, he, _, rfl⟩
        rcases hlog.linked with ⟨names, hl⟩
        -- The index leads to the named session of this `sid`.
        rcases hl.index sid e he with ⟨createdAt, hname⟩
        refine ⟨{.named sid e.value createdAt} + r, ?_, ?_, ?_⟩
        · rw [add_assoc]
          refine ⟨hlog.indexed, fun f k hun => mem_frame _ (hlog.owed f k hun), ?_, names,
            hl.know hname⟩
          rw [Multiset.countP_add]
          exact (zero_add _).le.trans hlog.one
        · rcases hr with ⟨m, hrest, hheld⟩
          rw [add_comm]
          exact ⟨m, hrest, hheld.add (by simp)⟩
        · rintro k ⟨⟩
          exact ⟨createdAt, mem_held _ _ _ (Multiset.mem_singleton_self _)⟩
  · cases key with
    | none => exact sound.pure _ fun _ hr => ⟨hr.1, nofun⟩
    | some key =>
        intro r hr
        refine safe_mono (safe_loadAt key
          (fun r => idle r ∧ ∃ createdAt, .named sid key createdAt ∈ r) r ⟨hr.1, hr.2 key rfl⟩)
          fun a r' hr' => ⟨hr'.1.1, fun x hx => ?_⟩
        rw [hr'.2 x hx]
        exact hr'.1.2

/-- Destroying the session of a `sid`. -/
theorem safe_destroy (sid : String) (x : SsoSession) :
    SafeFrom protocol c _ (destroySsoSession x)
      (fun r => idle r ∧ ∃ createdAt, .named sid x.id createdAt ∈ r)
      fun _ => Holds (.gone sid) := by
  refine sound.bind (Q := fun _ => Holds (.gone sid)) ?_ fun _ => sound.pure _ le_rfl
  rintro r ⟨⟨m, hrest, hheld⟩, createdAt, hname⟩
  refine safe_both_returns (Q := fun _ => Holds (.gone sid)) ?_ returns_deleteIndex
  rcases hheld.split with ⟨q, rfl, hq⟩
  refine safe_write fun F s hist hinv => ⟨{.mode (.gone sid)} + q, ?_, holds_add hq⟩
  have hname' : .named sid x.id createdAt ∈ {Token.mode m} + (q + F) :=
    add_assoc {Token.mode m} q F ▸ mem_held _ _ F hname
  rw [add_assoc] at hinv ⊢
  refine Inv.move hinv (indexed_same (Inv.indexed hinv) rfl rfl rfl) fun names hl hone => ?_
  have hdelete : Linked names ({.mode m} + (q + F))
      { s with ssoSessions := Ttl.delete s.ssoSessions x.id } :=
    hl.shrink le_rfl (List.Subset.refl _) (fun _ _ he => (delete_eq_some he).2)
      (fun _ _ he => he) (fun _ _ _ he _ => he) (fun _ _ _ he => he.before rfl le_rfl) rfl
  exact hdelete.switch hone hrest (hdelete.ok_gone (hl.facts _ _ _ hname') (delete_self _ _))

/-- The set of a sid may be dropped once its families are revoked. -/
theorem safe_forget (sid : String) :
    SafeFrom protocol c _ (sidRefreshFamilies.delete sid : AuthProg _) (Holds (.gone sid))
      fun _ => idle := by
  intro r hheld
  rcases hheld.split with ⟨q, rfl, hq⟩
  refine safe_write fun F s hist hinv =>
    ⟨{.mode (.gone sid)} + q, ?_, .gone sid, trivial, holds_add hq⟩
  rw [add_assoc] at hinv ⊢
  exact Inv.move hinv (indexed_same (Inv.indexed hinv) rfl rfl rfl)
    fun names hl hone => hl.forget hone

/-- The session that was found is destroyed with the families of its sid. -/
theorem safe_revokeFoundSession (sid : String) (session : Option SsoSession) :
    SafeFrom protocol c _ (revokeFoundSession deps session sid) (found sid session)
      fun _ => idle := by
  have hC := closed_returns (ω := Outside) protocol c
  cases session with
  | none => exact sound.pure _ fun _ hr => hr.1
  | some x =>
      refine sound.bind (sound.peripheral _ touches_listRefreshFamilies) fun families => ?_
      refine sound.bind (Q := fun _ => Holds (.gone sid)) (fun r hr => ?_) fun _ => safe_forget sid
      refine safe_returns_both (Q := fun _ => Holds (.gone sid))
        (hC.all fun _ _ => returns_revokeFamily _) ?_
      exact safe_returns_both (Q := fun _ => Holds (.gone sid))
        (returns_other touches_revokeCognitoTokens) (safe_destroy sid x r ⟨hr.1, hr.2 x rfl⟩)

/-- Ending the session of a sid keeps every active token indexed. -/
theorem safe_revokeSessionBySid (sid : String) (reason : SessionRevokeReason)
    (environment : Option RequestEnvironment) :
    SafeFrom protocol c _ (revokeSessionBySid deps sid reason environment) idle
      fun _ => idle := by
  have hC := closed_returns (ω := Outside) protocol c
  refine sound.bind (Q := fun a => found sid a.1) (fun r hr => safe_both_returns
    (Q := found sid) (safe_findSsoSessionBySid sid r hr) (returns_other touches_findWithClients))
    fun rows => ?_
  refine sound.bind (safe_revokeFoundSession sid rows.1) fun _ => ?_
  refine safeFrom_returns (hC.bind (hC.both (hC.all fun _ _ => ?_) ?_) fun told => ?_) _
  · exact returns_other (touches_notifyClientById.mono (by decide))
  · exact hC.bind (returns_other touches_nowSeconds) fun now =>
      returns_other (touches_markRevoked.mono (by decide))
  · refine hC.bind (returns_other (touches_recordAudit.mono (by decide))) fun _ => ?_
    exact returns_emit (fun _ _ h => nomatch h) fun _ _ h => nomatch h

end Revoking

section Runs

variable {deps : Deps} {c : AuthCall}

/-- Every part of a request preserves the invariant. -/
theorem outline : Outline deps c (SafeFrom protocol c) idle kept where
  sound := sound
  keptIdle _ := kept_le_idle
  load := safe_load
  create := safe_create
  endPrevious _ _ := safeFrom_returns (returns_endPrevious _) _
  save _ _ _ _ _ :=
    safeFrom_returns (returns_other (touches_storePendingAuthorization.mono (by decide))) _
  authorize _ _ _ _ := safe_authorizeWithSession none
  resume := safe_resumeLogin
  exchange _ _ _ _ := fun client => safe_exchange client _
  refresh _ _ _ _ := fun client => safe_refresh client _
  revokeFamily _ := safeFrom_returns (returns_revokeFamily _) _
  revokeSession := safe_revokeSessionBySid
  revokeAccess userId client tenantId := safeFrom_returns (closed_revokeClientAccess
    (closed_returns protocol c) (fun hp => returns_other (hp.mono (by decide)))
    returns_revokeFamily userId client tenantId) _
  addMember _ _ _ :=
    safeFrom_returns (returns_other (touches_upsertServiceMembership.mono (by decide))) _
  removeMember _ _ _ :=
    safeFrom_returns (returns_other (touches_removeServiceMembership.mono (by decide))) _

theorem linked_start (now : Int) (db : Identity) :
    Linked (fun _ => none) {.mode .free} (State.start now db) where
  issued _ _ h := nomatch h
  past _ _ _ h := nomatch h
  clock _ h := nomatch Multiset.mem_singleton.mp h
  facts _ _ _ h := nomatch Multiset.mem_singleton.mp h
  sessions _ _ h := nomatch h
  index _ _ h := nomatch h
  codes _ _ _ h := nomatch h
  tokens _ _ _ h := nomatch h.stored
  due _ _ h := nomatch h
  modes m h := by
    cases Multiset.mem_singleton.mp h
    trivial

theorem inv_start (now : Int) (db : Identity) : Inv {.mode .free} (State.start now db) [] where
  indexed := (FamilyRevocation.inv_start now db).indexed
  owed _ _ h := absurd h not_unindexed_nil
  one := le_rfl
  linked := ⟨_, linked_start now db⟩

/-- A request that has ended leaves nothing to be done. -/
theorem inv_restart {r : Multiset Token} {s : State} {h : History} (hidle : idle r)
    (hinv : Inv r s h) : Inv {.mode .free} s [] := by
  rcases hidle with ⟨m, hrest, hheld⟩
  rcases hheld.split with ⟨q, rfl, hq⟩
  rcases hinv.linked with ⟨names, hl⟩
  refine ⟨hinv.indexed.relog fun f key hun => ?_, fun _ _ h => absurd h not_unindexed_nil,
    le_rfl, names, ?_⟩
  · exact absurd (hinv.owed f key hun) (hheld.2 f key)
  · have hfree := hl.switch (n := .free) hinv.alone hrest trivial
    refine hfree.share (fun t ht => mem_held _ _ _ ht) fun v hv => ?_
    refine (Multiset.mem_add.mp hv).resolve_right (hinv.alone _)

theorem inv_env {s s' : State} {t : Change} (ht : t.apply s = some s')
    (hinv : Inv {.mode .free} s []) : Inv {.mode .free} s' [] := by
  rcases apply_cases ht with ⟨seconds, rfl⟩ | ⟨db, _, _, rfl⟩
  · have hnow : s.now ≤ s.now + seconds := by omega
    refine Inv.shrink hinv (hinv.indexed.tick seconds) fun _ hl => hl.shrink hnow
      (List.Subset.refl _) (fun _ _ he => he) (fun _ _ he => he) (fun _ _ _ he _ => he)
      (fun _ _ _ he => he.before rfl hnow) rfl
  · refine Inv.shrink hinv (indexed_same hinv.indexed rfl rfl rfl) fun _ hl => hl.shrink le_rfl
      (List.Subset.refl _) (fun _ _ he => he) (fun _ _ he => he) (fun _ _ _ he _ => he)
      (fun _ _ _ he => he.before rfl le_rfl) rfl

/-- A run of requests that do not overlap, with changes in between. -/
abbrev AuthRuns (deps : Deps) (now : Int) (db : Identity)
    (ls : List (Happening Event AuthCall Change Answer)) (s : State) : Prop :=
  Runs (authSystem deps) (State.start now db) ls s

/-- The invariant holds after every run. -/
theorem inv_of_runs {now : Int} {db : Identity} {s : State}
    {ls : List (Happening Event AuthCall Change Answer)} (h : AuthRuns deps now db ls s) :
    Inv {.mode .free} s [] := by
  refine runs_inv (P := protocol) (fun _ => True) (fun _ _ => idle)
    (fun _ _ _ => trivial) (fun c => outline.body _ ⟨.free, trivial, ?_, ?_⟩)
    (fun c a es r s _ hr hinv => inv_restart hr hinv)
    (fun t s s' _ ht hinv => inv_env ht hinv) h (fun _ _ => trivial) (inv_start now db)
  · exact Multiset.mem_singleton_self _
  · exact fun f key hmem => nomatch Multiset.mem_singleton.mp hmem

end Runs

section Alone

variable {deps : Deps} {s s' : State} {es : List Event}

/-- No token of the family can be used. -/
def NoUsable (s : State) (f : String) : Prop :=
  ∀ key t, Ttl.get s.refreshTokens s.now key = some t → t.familyId = f → t.status ≠ .active

/-- A program that stores no token. -/
def Quiet {α : Type} (p : AuthProg α) : Prop :=
  Within (fun _ _ => True) (fun e => ∀ f key, e ≠ .tokenStored f key) p

/-- A program that does not write the tokens stores no active one. -/
theorem quiet_of_touches {α : Type} {p : AuthProg α} {fs : List Field} (h : Touches fs p)
    (hfs : .refreshTokens ∉ fs) : Quiet p := by
  refine within_mono h (fun _ _ _ => trivial) fun e he f key heq => ?_
  rw [heq] at he
  exact hfs he

theorem quiet_revokeFamily (f : String) : Quiet (revokeRefreshTokenFamily f) := by
  refine within_bind (within_logged (fun _ => trivial) fun _ _ _ h => nomatch h) fun keys => ?_
  refine within_bind ?_ fun records => within_bind ?_ fun _ => ?_
  · refine within_all fun p hp => ?_
    rcases List.mem_map.mp hp with ⟨key, _, rfl⟩
    exact within_read fun _ => trivial
  · refine within_all fun p hp => ?_
    rcases List.mem_map.mp hp with ⟨⟨key, stored⟩, _, rfl⟩
    cases stored with
    | none => exact within_pure _
    | some t => exact within_write fun _ => trivial
  · exact within_logged (fun _ => trivial) fun _ _ _ h => nomatch h

theorem quiet_consume (value : String) : Quiet (consumeRefreshToken deps value) := by
  refine within_bind (within_atomic fun _ => trivial) fun stored => ?_
  cases stored with
  | none => exact within_pure _
  | some t =>
      simp only
      split
      · exact within_bind (within_write fun _ => trivial) fun _ => within_pure _
      · exact within_bind (within_write fun _ => trivial) fun _ => within_pure _

/-- A program that stores no token keeps the sets complete, and leaves no token
    of a family that it has revoked. -/
theorem exec_quiet {α : Type} {p : AuthProg α} {a : α} (c : AuthCall)
    (hindexed : Indexed s ([] : History)) (hkeeps : Keeps FamilyRevocation.protocol c α p)
    (hquiet : Quiet p) (hexec : Exec s p es a s') :
    Indexed s' ([] : History) ∧ ∀ f, .familyRevoked f ∈ es → NoUsable s' f := by
  -- A quiet call meets the condition of the schedule by itself.
  have hguard : ∀ s (h : History) x, (∀ f key, x ≠ .tokenStored f key) →
      (∀ y ∈ h, ∀ f key, y.2 ≠ .tokenStored f key) → FamilyRevocation.condition s h x := by
    intro s h x hx hh
    cases x with
    | tokenStored f key => exact absurd rfl (hx f key)
    | familyRead f =>
        intro key hun
        rcases stored_of_unindexed hun with ⟨c, hc⟩
        exact hh _ hc f key rfl
    | _ => exact trivial
  have hevents := (exec_within (fun _ => trivial) (fun _ _ _ _ _ => trivial) hexec hquiet).2
  -- Alone, the call starts from an empty history.
  have hinv : FamilyRevocation.Inv 0 s [] :=
    ⟨hindexed, fun _ _ h => absurd h (Multiset.notMem_zero _),
      fun _ _ h => absurd h (Multiset.notMem_zero _), fun _ _ h => absurd h List.not_mem_nil⟩
  rcases safe_exec_within hexec hguard 0 0 [] _ hquiet (fun _ h => absurd h List.not_mem_nil)
    hkeeps hinv with ⟨r', hinv', _⟩
  rw [List.append_nil] at hinv'
  constructor
  · refine (FamilyRevocation.Inv.indexed hinv').relog fun f key hun => ?_
    rcases stored_of_unindexed hun with ⟨c', hc⟩
    rcases List.mem_map.mp hc with ⟨e, he, heq⟩
    exact absurd (congrArg Prod.snd heq) (hevents e he f key)
  · intro f hf key t hget hfamily hactive
    rcases get_eq_some.mp hget with ⟨e, he, hlive, rfl⟩
    exact (FamilyRevocation.Inv.revoked hinv' c f (List.mem_map.mpr ⟨_, hf, rfl⟩)).2 key
      ⟨e, he, hlive, hfamily, hactive⟩

/-- A run of the revocation records the family it revoked. -/
theorem mem_of_exec_revokeFamily {f : String} {a : Unit}
    (h : Exec s (revokeRefreshTokenFamily f) es a s') : .familyRevoked f ∈ es := by
  rcases exec_bind h with ⟨keys, _, _, _, _, h₁, rfl⟩
  rcases exec_bind h₁ with ⟨records, _, _, _, _, h₂, rfl⟩
  rcases exec_bind h₂ with ⟨_, _, _, _, _, h₃, rfl⟩
  rw [(exec_logged h₃).1]
  exact List.mem_append_left _ (List.mem_append_left _ (List.mem_append_left _
    (List.mem_singleton_self _)))

/-- A revocation followed by a program about other things leaves no token of
    the family. -/
theorem exec_revokeThen {α : Type} {f : String} {p : AuthProg α} {a : α}
    (hindexed : Indexed s ([] : History)) (hp : Touches FamilyRevocation.otherParts p)
    (h : Exec s (revokeRefreshTokenFamily f >>= fun _ => p) es a s') : NoUsable s' f := by
  have hmem : .familyRevoked f ∈ es := by
    rcases exec_bind h with ⟨_, _, _, _, hrevoke, _, rfl⟩
    exact List.mem_append_right _ (mem_of_exec_revokeFamily hrevoke)
  refine (exec_quiet (.revokeRefreshTokenFamily f) hindexed ?_ ?_ h).2 f hmem
  · exact (closed_keeps _ _).bind (FamilyRevocation.keeps_revokeRefreshTokenFamily f)
      fun _ => FamilyRevocation.keeps_other hp
  · exact within_bind (quiet_revokeFamily f) fun _ => quiet_of_touches hp (by decide)

/-- Presenting a token that was used, or a token of another client, leaves no
    token of its family. -/
theorem exec_refresh_refused {client : OidcClient} {value : String} {t : RefreshToken}
    {a : Except TokenError TokenResponse} (hindexed : Indexed s ([] : History))
    (hget : Ttl.get s.refreshTokens s.now (deps.keyOf value) = some t)
    (hbad : t.status ≠ .active ∨ t.clientId ≠ client.clientId)
    (h : Exec s (refreshAccessToken deps client value) es a s') : NoUsable s' t.familyId := by
  rcases exec_bind h with ⟨consumed, s₁, _, _, hconsume, hrest, _⟩
  have hindexed₁ : Indexed s₁ ([] : History) := (exec_quiet (.refresh "" "" value) hindexed
    (FamilyRevocation.keeps_consumeRefreshToken value) (quiet_consume value) hconsume).1
  have hcases := exec_consumeRefreshToken hconsume
  rw [hget] at hcases
  dsimp only at hcases
  have haudit : ∀ {subject detail} {e : Except TokenError TokenResponse},
      Touches FamilyRevocation.otherParts (recordAudit subject detail >>= fun _ => pure e) :=
    touches_bind (touches_recordAudit.mono (by decide)) fun _ => touches_pure _
  -- The token is another client's, or it was used before; both end the family.
  by_cases hstatus : t.status = .active
  · rw [if_pos hstatus] at hcases
    subst hcases
    dsimp only [refreshConsumed] at hrest
    rw [if_pos (hbad.resolve_left (not_not_intro hstatus))] at hrest
    exact exec_revokeThen hindexed₁ haudit hrest
  · rw [if_neg hstatus] at hcases
    subst hcases
    exact exec_revokeThen hindexed₁ haudit hrest

/-- Presenting a code that was used leaves no token of its family. -/
theorem exec_exchange_refused {client : OidcClient} {input : CodeExchangeInput} {f : String}
    {a : Except TokenError TokenResponse} (hindexed : Indexed s ([] : History))
    (hget : Ttl.get s.authorizationCodes s.now (deps.keyOf input.code) = some (.used f))
    (h : Exec s (exchangeAuthorizationCode deps client input) es a s') : NoUsable s' f := by
  rcases exec_bind h with ⟨taken, s₁, _, _, htake, hrest, _⟩
  rcases exec_atomic htake with ⟨_, htaken, rfl⟩
  have htaken' : taken = some (.used f) := htaken.trans hget
  subst htaken'
  have hindexed₁ : Indexed { s with
      authorizationCodes := Ttl.delete s.authorizationCodes (deps.keyOf input.code) }
      ([] : History) :=
    indexed_same hindexed rfl rfl rfl
  rcases exec_bind hrest with ⟨family, s₂, _, _, hdescribe, hrest, _⟩
  -- Describing the family for the audit entry only reads.
  have hreads : Touches [] (describeRefreshTokenFamily f) := touches_describeRefreshTokenFamily
  have hindexed₂ : Indexed s₂ ([] : History) := (exec_quiet (.revokeRefreshTokenFamily f)
    hindexed₁ (FamilyRevocation.keeps_other touches_describeRefreshTokenFamily)
    (quiet_of_touches hreads (by decide)) hdescribe).1
  refine exec_revokeThen hindexed₂ ?_ hrest
  refine touches_bind ((touches_set onField_authorizationCodes).mono (by decide)) fun _ => ?_
  exact touches_bind (touches_recordAudit.mono (by decide)) fun _ => touches_pure _

end Alone

/-- A list that is read alone is the one in the state. -/
theorem exec_listRefreshFamilies {s s' : State} {sid : String} {es : List Event}
    {refs : List RefreshFamilyRef} (h : Exec s (listRefreshFamilies sid) es refs s') :
    refs = (members s.sidRefreshFamilies s.now sid).filterMap decodeFamilyRef := by
  rcases exec_bind h with ⟨found, s₁, _, _, hread, hdone, _⟩
  rw [(exec_done hdone).2.1, (exec_read hread).2.1]
  rfl

/-- After every run of requests that do not overlap, every live active token has
    its key in the set of its family, and as long as its session can be loaded
    its family is listed with its client and tenant. So presenting a token that
    was used, a token of another client or a code that was used leaves no active
    token in the family. -/
theorem live_tokens_indexed (deps : Deps) (now : Int) (db : Identity)
    (ls : List (Happening Event AuthCall Change Answer)) (s : State)
    (h : AuthRuns deps now db ls s) :
    (∀ key t, Ttl.get s.refreshTokens s.now key = some t → t.status = .active →
      key ∈ members s.refreshTokenFamilies s.now t.familyId ∧
      ∀ k x, s.presented k = some x → x.sid = t.sid →
        ':' ∉ t.clientId.toList → ':' ∉ t.tenantId.toList →
        ∀ es refs s', Exec s (listRefreshFamilies t.sid) es refs s' →
          ⟨t.familyId, t.clientId, t.tenantId⟩ ∈ refs) ∧
    (∀ client value t es a s', Ttl.get s.refreshTokens s.now (deps.keyOf value) = some t →
      t.status ≠ .active ∨ t.clientId ≠ client.clientId →
      Exec s (refreshAccessToken deps client value) es a s' → NoUsable s' t.familyId) ∧
    ∀ client input f es a s',
      Ttl.get s.authorizationCodes s.now (deps.keyOf input.code) = some (.used f) →
      Exec s (exchangeAuthorizationCode deps client input) es a s' → NoUsable s' f := by
  have hinv := inv_of_runs h
  refine ⟨fun key t hget hstatus => ?_, ?_, ?_⟩
  · rcases get_eq_some.mp hget with ⟨e, he, hlive, rfl⟩
    -- A token that is found is live, and between two calls none is left out.
    have husable : UsableEntry s e.value.familyId key e := ⟨he, hlive, rfl, hstatus⟩
    refine ⟨hinv.indexed.mem_members not_unindexed_nil ⟨e, husable⟩, ?_⟩
    intro k x hx hsid hclient htenant es refs s' hexec
    rw [exec_listRefreshFamilies hexec]
    rcases presented_eq_some.mp hx with ⟨hstored, hexpired⟩
    rcases get_eq_some.mp hstored with ⟨d, hd, _, rfl⟩
    rcases hinv.linked with ⟨names, hl⟩
    rcases hl.sessions k d hd with ⟨_, hname⟩
    rw [← add_zero {Token.mode .free}] at hl
    -- No call is under way, so the set of the `sid` outlives the session.
    have hdue := hl.due_of_resting (fun _ => Multiset.notMem_zero _) trivial hd husable hsid.symm
    have hlimit := (SessionExpiry.lt_of_not_isExpired hexpired).2
    rcases hdue k d.value.createdAt (hsid ▸ hname) hlimit with ⟨list, hlist, hmem, hle⟩
    refine List.mem_filterMap.mpr ⟨_, Ttl.mem_members.mpr
      ⟨list, hlist, Int.lt_of_lt_of_le hlimit hle, hmem⟩, ?_⟩
    exact decodeFamilyRef_encodeFamilyRef hclient htenant (hl.tokens _ _ _ husable).2
  · exact fun client value t es a s' hget hbad => exec_refresh_refused hinv.indexed hget hbad
  · exact fun client input f es a s' hget => exec_exchange_refused hinv.indexed hget

/-- Alice logs in, a code is issued and exchanged, and its token is refreshed
    an hour later. -/
theorem refreshed_token_indexed : ∃ ls s key t, AuthRuns smallDeps 1000 smallIdentity ls s ∧
    Ttl.get s.refreshTokens s.now key = some t ∧ t.status = .active ∧
      key ∈ members s.refreshTokenFamilies s.now t.familyId := by
  rcases exists_runs (authSystem smallDeps) (.ulid "") 60 smallStart
      (firstTokenTurns ++ [.env (.tick 3600), refreshTurn refresh1 refresh2 jti2])
      (fun r => (Ttl.get r.2.refreshTokens r.2.now (smallDeps.keyOf refresh2)).any
        fun t => t.status = .active) (by decide +kernel) with ⟨ls, s, hruns, htest⟩
  rcases (Option.any_eq_true _ _).mp htest with ⟨t, ht, hstatus⟩
  exact ⟨ls, s, _, t, hruns, ht, of_decide_eq_true hstatus,
    ((live_tokens_indexed smallDeps 1000 smallIdentity ls s hruns).1 _ t ht
      (of_decide_eq_true hstatus)).1⟩

end Sandbox.Auth.FamilyIndex
