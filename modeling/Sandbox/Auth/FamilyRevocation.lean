import Sandbox.Auth.Blocks
import Sandbox.Auth.FamilySets
import Sandbox.Auth.Installation
import Sandbox.Interleave.Tokens

/-!
# A Revoked Family Has No Usable Token

When `revokeRefreshTokenFamily` has completed, no refresh token of the family
is active, in every interleaving of all requests in which two kinds of step
meet a condition. A revocation reads the set of the family's keys, and it must
not do so while a token has been stored whose key is not in the set yet; and
no token of the family may be stored after that. A refresh that is under way
when its family is revoked breaks the condition: its new token is stored, or
added to the set, after the revocation has read the set.

Two facts carry the argument, and once true they stay true because nothing is
stored any more: the usable tokens of the family are under the keys that were
read (`within`), and no usable token is under a certain key (`spent`).

## Main definitions

* `condition`: The condition on the steps of a run.
* `Token`, `Inv`: The invariant.

## Theorems

* `keeps_storeRefreshToken`, `keeps_consumeRefreshToken`,
  `keeps_revokeRefreshTokenFamily`: The programs preserve the invariant.
* `poolOk`: Every pool of every run satisfies the invariant.
-/

namespace Sandbox.Auth.FamilyRevocation

open Interleave Ttl

/-- The history of a run of the server. -/
abbrev History : Type := List (AuthCall × Event)

/-- The set of a family was read in order to revoke it. -/
def WasRead (h : History) (f : String) : Prop :=
  ∃ c, (c, Event.familyRead f) ∈ h

/-- No token of a family is stored once the family was read for a revocation,
    and none is waiting for its place in the set when it is read. -/
def condition : Guard State Event AuthCall
  | _, h, .tokenStored f _ => ¬ WasRead h f
  | _, h, .familyRead f => ∀ key, ¬ Unindexed f key h
  | _, _, _ => True

inductive Token
  /-- The family was read, and its usable tokens are under these keys. -/
  | within (f : String) (keys : List String)
  /-- The family was read, and none of its usable tokens is under this key. -/
  | spent (f key : String)
  deriving DecidableEq

structure Inv (R : Multiset Token) (s : State) (h : History) : Prop where
  indexed : Indexed s h
  within : ∀ f keys, .within f keys ∈ R → WasRead h f ∧ ∀ key, Usable s f key → key ∈ keys
  spent : ∀ f key, .spent f key ∈ R → WasRead h f ∧ ¬ Usable s f key
  revoked : ∀ c f, (c, Event.familyRevoked f) ∈ h → WasRead h f ∧ ∀ key, ¬ Usable s f key

def protocol : Protocol (Multiset Token) State Event AuthCall where
  guard := condition
  Inv := Inv

section Changes

variable {R R' : Multiset Token} {s s' : State} {h : History} {f key : String}

/-- A family whose set was read stays so in every longer history. -/
theorem WasRead.cons (hread : WasRead h f) (x : AuthCall × Event) : WasRead (x :: h) f :=
  hread.imp fun _ hc => List.mem_cons_of_mem _ hc

/-- What threads know need not be held any more, or may be held twice. -/
theorem Inv.share (hinv : Inv R s h) (hsub : ∀ t ∈ R', t ∈ R) : Inv R' s h :=
  ⟨hinv.indexed, fun f keys ht => hinv.within f keys (hsub _ ht),
    fun f key ht => hinv.spent f key (hsub _ ht), hinv.revoked⟩

/-- The invariant survives as long as nothing becomes usable. -/
theorem Inv.shrink (hinv : Inv R s h) (hindexed : Indexed s' h)
    (husable : ∀ f key e, UsableEntry s' f key e → UsableEntry s f key e) : Inv R s' h := by
  have hnone : ∀ f key, ¬ Usable s f key → ¬ Usable s' f key :=
    fun f key hno ⟨e, he⟩ => hno ⟨e, husable f key e he⟩
  refine ⟨hindexed, ?_, ?_, ?_⟩
  · intro f keys ht
    rcases hinv.within f keys ht with ⟨hread, hkeys⟩
    exact ⟨hread, fun key ⟨e, he⟩ => hkeys key ⟨e, husable f key e he⟩⟩
  · exact fun f key ht => (hinv.spent f key ht).imp_right (hnone f key)
  · exact fun c f hc => (hinv.revoked c f hc).imp_right fun hno key => hnone f key (hno key)

/-- What the invariant says about a history may be said about a longer one. -/
theorem Inv.extend {y : AuthCall × Event} (hinv : Inv R s h) (hindexed : Indexed s (y :: h))
    (hrevoked : ∀ f, y.2 ≠ .familyRevoked f) : Inv R s (y :: h) := by
  refine ⟨hindexed, ?_, ?_, ?_⟩
  · exact fun f keys ht => (hinv.within f keys ht).imp_left (·.cons _)
  · exact fun f key ht => (hinv.spent f key ht).imp_left (·.cons _)
  · intro c' f hc
    rcases List.mem_cons.mp hc with heq | hc
    · exact absurd (congrArg Prod.snd heq).symm (hrevoked f)
    · exact (hinv.revoked c' f hc).imp_left (·.cons _)

/-- The invariant does not notice events about other things. -/
theorem Inv.log (hinv : Inv R s h) (c : AuthCall) {e : Event}
    (hstored : ∀ f key, e ≠ .tokenStored f key) (hindexed : ∀ f key, e ≠ .tokenIndexed f key)
    (hrevoked : ∀ f, e ≠ .familyRevoked f) : Inv R s ((c, e) :: h) :=
  hinv.extend (hinv.indexed.relog fun _ _ => (unindexed_other hstored hindexed).mpr) hrevoked

/-- The parts that say nothing about refresh tokens and their sets. -/
def otherParts : List Field :=
  [.ssoSessions, .sidIndex, .authorizationRequests, .authorizationCodes, .sidRefreshFamilies,
    .mfaPending, .users, .memberships, .mfaMethods, .sessions, .sessionClients, .audit, .outbox]

theorem stable : Stable otherParts protocol where
  changes R s s' h hch hinv := by
    have htokens : s'.refreshTokens = s.refreshTokens := hch.same .refreshTokens (by decide)
    have hsets : s'.refreshTokenFamilies = s.refreshTokenFamilies :=
      hch.same .refreshTokenFamilies (by decide)
    have husable : ∀ f key e, UsableEntry s' f key e → UsableEntry s f key e := fun f key e he =>
      ⟨htokens ▸ he.stored, hch.now ▸ he.live, he.family, he.active⟩
    refine hinv.shrink (hinv.indexed.shrink ?_ husable hsets) husable
    intro key e he
    rw [hch.now]
    exact hinv.indexed.bounded key e (htokens ▸ he)
  event R s h c e he hinv := by
    refine hinv.log c ?_ ?_ ?_
    · rintro f key rfl
      exact absurd he (by decide : Field.refreshTokens ∉ otherParts)
    · rintro f key rfl
      exact absurd he (by decide : Field.refreshTokenFamilies ∉ otherParts)
    · rintro f rfl
      exact absurd he (by decide : Field.refreshTokenFamilies ∉ otherParts)

/-- A thread may hold where the usable tokens of a family are. -/
theorem Inv.confine {keys : List String} (hinv : Inv R s h) (hread : WasRead h f)
    (hkeys : ∀ key, Usable s f key → key ∈ keys) (hsub : ∀ t ∈ R', t = .within f keys ∨ t ∈ R) :
    Inv R' s h := by
  refine ⟨hinv.indexed, ?_, ?_, hinv.revoked⟩
  · intro f' keys' ht
    rcases hsub _ ht with heq | ht
    · cases heq
      exact ⟨hread, hkeys⟩
    · exact hinv.within f' keys' ht
  · intro f' key' ht
    exact hinv.spent f' key' ((hsub _ ht).resolve_left nofun)

/-- A thread may hold that no usable token is under a key. -/
theorem Inv.exclude (hinv : Inv R s h) (hread : WasRead h f) (hno : ¬ Usable s f key) :
    Inv ({.spent f key} + R) s h := by
  refine ⟨hinv.indexed, ?_, ?_, hinv.revoked⟩
  · intro f' keys' ht
    simp only [Multiset.mem_add, Multiset.mem_singleton, reduceCtorEq, false_or] at ht
    exact hinv.within f' keys' ht
  · intro f' key' ht
    simp only [Multiset.mem_add, Multiset.mem_singleton, Token.spent.injEq] at ht
    rcases ht with ⟨rfl, rfl⟩ | ht
    · exact ⟨hread, hno⟩
    · exact hinv.spent f' key' ht

end Changes

section Writing

variable {R : Multiset Token} {s : State} {h : History} {c : AuthCall} {f key : String}

/-- Removing a token. -/
theorem Inv.delete (hinv : Inv R s h) :
    Inv R { s with refreshTokens := Ttl.delete s.refreshTokens key } h :=
  hinv.shrink hinv.indexed.delete fun _ _ _ he =>
    ⟨(delete_eq_some he.stored).2, he.live, he.family, he.active⟩

/-- Writing a token that cannot be used, and what is known of its key then. -/
theorem Inv.retire {token : RefreshToken} (hinv : Inv R s h) (hstatus : token.status ≠ .active) :
    Inv R { s with refreshTokens := Ttl.set s.refreshTokens s.now key token refreshTokenTtl } h ∧
      ∀ f, ¬ Usable
        { s with refreshTokens := Ttl.set s.refreshTokens s.now key token refreshTokenTtl }
        f key := by
  constructor
  · exact hinv.shrink (hinv.indexed.retire hstatus) fun _ _ _ he =>
      (usableEntry_retire hstatus he).2
  · rintro f ⟨e, he⟩
    exact (usableEntry_retire hstatus he).1 rfl

/-- Storing a token of a family that was not read. -/
theorem Inv.store {token : RefreshToken} (hinv : Inv R s h) (hfamily : token.familyId = f)
    (hread : ¬ WasRead h f) :
    Inv R { s with refreshTokens := Ttl.set s.refreshTokens s.now key token refreshTokenTtl }
      ((c, .tokenStored f key) :: h) := by
  -- Whatever is usable now was usable before, in every family that was read.
  have hold : ∀ f' k, WasRead h f' → Usable
      { s with refreshTokens := Ttl.set s.refreshTokens s.now key token refreshTokenTtl } f' k →
      Usable s f' k := by
    rintro f' k hwas ⟨e, he⟩
    rcases usableEntry_store he with he | ⟨rfl, _⟩
    · exact ⟨e, he⟩
    · exact absurd (hfamily ▸ hwas) hread
  refine ⟨hinv.indexed.store hfamily, ?_, ?_, ?_⟩
  · intro f' keys ht
    rcases hinv.within f' keys ht with ⟨hwas, hkeys⟩
    exact ⟨hwas.cons _, fun k hk => hkeys k (hold f' k hwas hk)⟩
  · intro f' k ht
    rcases hinv.spent f' k ht with ⟨hwas, hno⟩
    exact ⟨hwas.cons _, fun hk => hno (hold f' k hwas hk)⟩
  · intro c' f' hc
    rcases hinv.revoked c' f' ((List.mem_cons.mp hc).resolve_left nofun) with ⟨hwas, hno⟩
    exact ⟨hwas.cons _, fun k hk => hno k (hold f' k hwas hk)⟩

/-- Adding a key to the set of a family. -/
theorem Inv.index (hinv : Inv R s h) :
    Inv R
      { s with
        refreshTokenFamilies := Ttl.add s.refreshTokenFamilies s.now f key refreshTokenTtl }
      ((c, .tokenIndexed f key) :: h) := by
  -- A set says nothing about which tokens are usable.
  have hold : ∀ f' k, Usable
      { s with
        refreshTokenFamilies := Ttl.add s.refreshTokenFamilies s.now f key refreshTokenTtl }
      f' k → Usable s f' k :=
    fun f' k ⟨e, he⟩ => ⟨e, he.stored, he.live, he.family, he.active⟩
  refine ⟨hinv.indexed.index, ?_, ?_, ?_⟩
  · intro f' keys ht
    rcases hinv.within f' keys ht with ⟨hwas, hkeys⟩
    exact ⟨hwas.cons _, fun k hk => hkeys k (hold f' k hk)⟩
  · intro f' k ht
    rcases hinv.spent f' k ht with ⟨hwas, hno⟩
    exact ⟨hwas.cons _, fun hk => hno (hold f' k hk)⟩
  · intro c' f' hc
    rcases hinv.revoked c' f' ((List.mem_cons.mp hc).resolve_left nofun) with ⟨hwas, hno⟩
    exact ⟨hwas.cons _, fun k hk => hno k (hold f' k hk)⟩

end Writing

section Programs

variable {c : AuthCall} {deps : Deps} {f key : String}

/-- A program that says nothing about refresh tokens. -/
theorem keeps_other {α : Type} {p : AuthProg α} (h : Touches otherParts p) :
    Keeps protocol c α p :=
  (safe_touches stable h 0).keeps

theorem keeps_deleteToken : Keeps protocol c _ (refreshTokens.getAndDelete key : AuthProg _) :=
  safe_atomic fun _ _ _ hinv => ⟨0, Inv.delete hinv, trivial⟩

theorem keeps_retire {token : RefreshToken} (hstatus : token.status ≠ .active) :
    Keeps protocol c _ (refreshTokens.set key token refreshTokenTtl : AuthProg _) :=
  safe_write fun _ _ _ hinv => ⟨0, (Inv.retire hinv hstatus).1, trivial⟩

/-- Presenting a token leaves it unusable. -/
theorem keeps_consumeRefreshToken (value : String) :
    Keeps protocol c _ (consumeRefreshToken deps value) := by
  have hC := closed_keeps (ω := Outside) protocol c
  refine hC.bind keeps_deleteToken fun stored => ?_
  cases stored with
  | none => exact hC.pure _
  | some token =>
      simp only
      split
      · next hstatus => exact hC.bind (keeps_retire hstatus) fun _ => hC.pure _
      · exact hC.bind (keeps_retire (fun h => by cases h)) fun _ => hC.pure _

/-- A token is stored under the condition of the schedule. -/
theorem keeps_storeRefreshToken (input : NewRefreshTokenInput) (familyId : String) :
    Keeps protocol c _ (storeRefreshToken deps input familyId) := by
  have hC := closed_keeps (ω := Outside) protocol c
  refine hC.bind (keeps_other touches_randomToken) fun value => ?_
  refine hC.bind ?_ fun _ => hC.pure _
  exact safe_logged fun _ _ _ hinv hread => ⟨0, Inv.store hinv rfl hread, trivial⟩

/-- Adding a key to the set of a family makes no token active. -/
theorem keeps_addToFamily :
    Keeps protocol c _ (refreshTokenFamilies.addLogged (.tokenIndexed f key) f key
      refreshTokenTtl : AuthProg _) :=
  safe_logged fun _ _ _ hinv _ => ⟨0, Inv.index hinv, trivial⟩

/-- A new family makes no token of a revoked one active. -/
theorem keeps_createRefreshTokenFamily (input : NewRefreshTokenInput) :
    Keeps protocol c _ (createRefreshTokenFamily deps input) := by
  have hC := closed_keeps (ω := Outside) protocol c
  refine hC.bind (keeps_other touches_randomToken) fun familyId => ?_
  refine hC.bind (keeps_storeRefreshToken _ _) fun issued => ?_
  refine hC.bind (hC.both keeps_addToFamily ?_) fun _ => hC.pure _
  exact keeps_other ((touches_add onField_sidRefreshFamilies).mono (by decide))

/-- A rotation makes no token of a revoked family active. -/
theorem keeps_rotateRefreshToken (token : RefreshToken) :
    Keeps protocol c _ (rotateRefreshToken deps token) := by
  have hC := closed_keeps (ω := Outside) protocol c
  exact hC.bind (keeps_storeRefreshToken _ _) fun _ => hC.bind keeps_addToFamily fun _ => hC.pure _

/-- What a revocation knows of a key after looking at it. -/
def looked (f : String) (keys : List String) (key : String) : Option RefreshToken → Multiset Token
  | none => {.spent f key}
  | some _ => {.within f keys}

/-- Reading the set of a family for its revocation, when the condition is met:
    the revocation knows where the usable tokens are, once for itself and once
    for every key. -/
theorem safe_readFamily :
    Safe protocol c
      (refreshTokenFamilies.membersLogged (fun _ => .familyRead f) f : AuthProg _) 0
      fun keys r => r = {.within f keys} + (keys.map fun _ => {Token.within f keys}).sum := by
  refine safe_logged fun F s hist hinv hcond => ⟨_, ?_, rfl⟩
  rw [zero_add] at hinv
  have hlog := Inv.log hinv c (e := .familyRead f) nofun nofun nofun
  have hmembers : ∀ key, Usable s f key → key ∈ members s.refreshTokenFamilies s.now f :=
    fun key => hinv.indexed.mem_members (hcond key)
  refine Inv.confine hlog ⟨c, List.mem_cons_self⟩ hmembers fun t ht => ?_
  simp only [Multiset.mem_add, Multiset.mem_singleton] at ht
  rcases ht with (heq | ht) | ht
  · exact .inl heq
  · exact .inl (eq_of_mem_copies ht)
  · exact .inr ht

/-- Looking at a key of a family that was read. -/
theorem safe_lookAtKey {keys : List String} :
    Safe protocol c (refreshTokens.get key : AuthProg _) {.within f keys}
      fun stored r => r = looked f keys key stored := by
  refine safe_read fun F s hist hinv => ⟨_, ?_, rfl⟩
  have hwithin : Token.within f keys ∈ ({.within f keys} + F : Multiset Token) :=
    mem_held _ _ _ (Multiset.mem_singleton_self _)
  change Inv (looked f keys key (Ttl.get s.refreshTokens s.now key) + F) s hist
  cases hget : Ttl.get s.refreshTokens s.now key with
  | none =>
      have hF : Inv F s hist := Inv.share hinv fun t ht => mem_frame _ ht
      refine hF.exclude (hinv.within f keys hwithin).1 ?_
      rintro ⟨e, he⟩
      exact absurd (get_eq_none.mp hget e he.stored) (Int.not_le.mpr he.live)
  | some token => exact hinv

/-- Writing back as revoked what was found at a key. -/
theorem safe_revokeStored {keys : List String} {stored : Option RefreshToken} :
    Safe protocol c (revokeStored key stored) (looked f keys key stored)
      fun _ r => r = {.spent f key} := by
  cases stored with
  | none => exact safe_pure rfl
  | some token =>
      refine safe_write fun F s hist hinv => ⟨_, ?_, rfl⟩
      have hwithin : Token.within f keys ∈ ({.within f keys} + F : Multiset Token) :=
        mem_held _ _ _ (Multiset.mem_singleton_self _)
      have hF : Inv F s hist := Inv.share hinv fun t ht => mem_frame _ ht
      have hstatus : ({ token with status := .revoked } : RefreshToken).status ≠ .active := nofun
      have hretire : Inv F { s with
          refreshTokens := Ttl.set s.refreshTokens s.now key { token with status := .revoked }
            refreshTokenTtl } hist ∧ _ := hF.retire hstatus
      rcases hretire with ⟨hretired, hno⟩
      exact hretired.exclude (hinv.within f keys hwithin).1 (hno f)

/-- A completed revocation knows that no token of the family can be used. -/
theorem keeps_revokeRefreshTokenFamily (familyId : String) :
    Keeps protocol c _ (revokeRefreshTokenFamily familyId) := by
  refine safe_seq safe_readFamily ?_
  rintro keys _ rfl
  have hlook := safe_frame {Token.within familyId keys}
    (safe_all (P := protocol) (c := c) keys (fun key => refreshTokens.get key)
      (fun _ => {Token.within familyId keys})
      (fun key stored r => r = looked familyId keys key stored) fun _ _ => safe_lookAtKey)
  rw [add_comm]
  refine safe_seq hlook ?_
  rintro records _ ⟨r, rfl, hall⟩
  have hlength := hall.length_eq
  rw [hall.sum_eq]
  have hrevoke := safe_frame {Token.within familyId keys}
    (safe_all (P := protocol) (c := c) (keys.zip records) (fun x => revokeStored x.1 x.2)
      (fun x => looked familyId keys x.1 x.2) (fun x _ r => r = {Token.spent familyId x.1})
      fun _ _ => safe_revokeStored)
  refine safe_seq hrevoke ?_
  rintro units _ ⟨r', rfl, hspent⟩
  refine safe_emit fun F s hist hinv _ => ⟨0, ?_, trivial⟩
  -- The usable tokens are under the keys, and under none of them.
  have hwithin : Token.within familyId keys ∈ r' + {.within familyId keys} + F := by
    rw [add_assoc]
    exact mem_frame _ (mem_held _ _ _ (Multiset.mem_singleton_self _))
  have hno : ∀ key, ¬ Usable s familyId key := by
    intro key hkey
    have hkeys : key ∈ keys := (hinv.within familyId keys hwithin).2 key hkey
    rw [← List.map_fst_zip (le_of_eq hlength)] at hkeys
    rcases List.mem_map.mp hkeys with ⟨x, hx, rfl⟩
    have hmem : Token.spent familyId x.1 ∈ r' + {.within familyId keys} + F := by
      rw [add_assoc]
      exact mem_held _ _ _ (hspent.mem (t := fun x => Token.spent familyId x.1) x hx)
    exact (hinv.spent familyId x.1 hmem).2 hkey
  have hread := (hinv.within familyId keys hwithin).1
  have hF : Inv (0 + F) s hist := Inv.share hinv fun t ht => mem_frame _ (zero_add F ▸ ht)
  refine ⟨hF.indexed.relog fun _ _ hun => hun, ?_, ?_, ?_⟩
  · exact fun f keys ht => (hF.within f keys ht).imp_left (·.cons _)
  · exact fun f key ht => (hF.spent f key ht).imp_left (·.cons _)
  · intro c' f hc
    rcases List.mem_cons.mp hc with heq | hc
    · cases heq
      exact ⟨hread.cons _, hno⟩
    · exact (hF.revoked c' f hc).imp_left (·.cons _)

end Programs

section Runs

variable {deps : Deps}

/-- Every request preserves the invariant. -/
theorem keeps_body (c : AuthCall) : Keeps protocol c _ (AuthCall.body deps c) := by
  have hC := closed_keeps (ω := Outside) protocol c
  have hper : HasPeripheral (Keeps protocol c) := fun h => keeps_other (h.mono (by decide))
  -- Sessions, requests and codes have no part in the families.
  have hload : ∀ key, Keeps protocol c _ (loadSsoSessionByKey key) :=
    fun _ => keeps_other (touches_loadSsoSessionByKey.mono (by decide))
  have hdestroy : ∀ session, Keeps protocol c _ (destroySsoSession session) :=
    fun _ => keeps_other (touches_destroySsoSession.mono (by decide))
  have hstore : ∀ (rid : Option String) (key : String) (grant : CodeGrant),
      Keeps protocol c _ (authorizationCodes.setLogged (.codeStored rid key) key (.unused grant)
        authorizationCodeTtl : AuthProg Unit) :=
    fun _ _ _ => keeps_other ((touches_setLogged onField_authorizationCodes rfl).mono (by decide))
  have htouch : ∀ session client tenantId environment,
      Keeps protocol c _ (touchSsoSession session client tenantId environment) :=
    fun _ _ _ _ => keeps_other (touches_touchSsoSession.mono (by decide))
  have htake : ∀ rid, Keeps protocol c _ (consumePendingAuthorization deps rid) :=
    fun _ => keeps_other ((touches_getAndDelete onField_authorizationRequests).mono (by decide))
  exact Blocks.body
    { closed := hC
      peripheral := hper
      load := hload
      destroy := hdestroy
      create := fun _ _ _ => keeps_other (touches_createSsoSession.mono (by decide))
      save := fun _ _ _ _ _ => keeps_other (touches_storePendingAuthorization.mono (by decide))
      authorize := fun _ _ _ _ => closed_authorizeWithSession hC hper (hstore none) htouch
      resume := fun result rid environment => closed_resumeLogin hC hper (htake rid)
        (closed_authorizeWithSession hC hper (hstore (some rid)) htouch) result environment
      exchange := fun _ _ input _ client => closed_exchange hC hper hload
        (fun _ =>
          keeps_other ((touches_getAndDelete onField_authorizationCodes).mono (by decide)))
        (fun _ _ => keeps_other ((touches_set onField_authorizationCodes).mono (by decide)))
        keeps_createRefreshTokenFamily keeps_revokeRefreshTokenFamily client input
      refresh := fun _ _ value _ client => closed_refresh hC hper hload
        keeps_consumeRefreshToken keeps_rotateRefreshToken keeps_revokeRefreshTokenFamily
        client value
      revokeFamily := keeps_revokeRefreshTokenFamily
      revokeSession := closed_revokeSessionBySid hC hper
        (fun _ => keeps_other (touches_findSsoSessionBySid.mono (by decide)))
        (closed_revokeFoundSession hC hper hdestroy keeps_revokeRefreshTokenFamily fun _ =>
          keeps_other ((touches_delete onField_sidRefreshFamilies).mono (by decide)))
        (fun _ _ _ => keeps_other (touches_markRevoked.mono (by decide)))
        (fun _ => keeps_other (touches_emit (by decide : Field.sidIndex ∈ otherParts)))
      addMember := fun _ _ _ => keeps_other (touches_upsertServiceMembership.mono (by decide))
      removeMember := fun _ _ _ =>
        keeps_other (touches_removeServiceMembership.mono (by decide)) }

theorem inv_start (now : Int) (db : Identity) : Inv 0 (State.start now db) [] := by
  have hnone : ∀ key e, (State.start now db).refreshTokens key ≠ some e :=
    fun _ e => Option.some_ne_none e |>.symm
  refine ⟨⟨?_, ?_⟩, ?_, ?_, ?_⟩
  · exact fun key e he => absurd he (hnone key e)
  · exact fun f key e he => absurd he.stored (hnone key e)
  · exact fun f keys ht => absurd ht (Multiset.notMem_zero _)
  · exact fun f key ht => absurd ht (Multiset.notMem_zero _)
  · exact fun c f hc => absurd hc List.not_mem_nil

/-- Time and the operator do not make tokens usable. -/
theorem inv_env {R : Multiset Token} {s s' : State} {h : History} {t : Change}
    (ht : t.apply s = some s') (hinv : Inv R s h) : Inv R s' h := by
  rcases apply_cases ht with ⟨seconds, rfl⟩ | ⟨db, _, _, rfl⟩
  · refine hinv.shrink (hinv.indexed.tick seconds) fun f key e he => ?_
    have hlive : s.now + seconds < e.expiresAt := he.live
    exact ⟨he.stored, by omega, he.family, he.active⟩
  · have husable : ∀ f key e, UsableEntry { s with identity := db } f key e →
        UsableEntry s f key e := fun _ _ _ he => ⟨he.stored, he.live, he.family, he.active⟩
    exact hinv.shrink (hinv.indexed.shrink hinv.indexed.bounded husable rfl) husable

/-- Every pool of every run that meets the condition satisfies the invariant. -/
theorem poolOk {now : Int} {db : Identity} {p : Pool State Outside Event AuthCall Answer}
    (h : Reachable (authSystem deps) condition (State.start now db) p) :
    PoolOk protocol (fun _ _ _ => True) p :=
  poolOk_of_reachable keeps_body (fun _ _ _ _ _ ht hinv => inv_env ht hinv)
    (inv_start now db) h

end Runs

/-- A refresh with nothing else running fails if no token that the presented
    value leads to is active. -/
theorem exec_refresh_error {deps : Deps} {client : OidcClient} {value : String} {s s' : State}
    {es : List Event} {a : Except TokenError TokenResponse}
    (h : Exec s (refreshAccessToken deps client value) es a s')
    (hno : ∀ t, Ttl.get s.refreshTokens s.now (deps.keyOf value) = some t → t.status ≠ .active) :
    ∃ e, a = .error e := by
  rcases exec_bind h with ⟨consumed, s₁, _, _, hconsume, hrest, _⟩
  have hcases := exec_consumeRefreshToken hconsume
  -- An unknown token is refused, one that is not active ends its family.
  cases hget : Ttl.get s.refreshTokens s.now (deps.keyOf value) with
  | none =>
      rw [hget] at hcases
      subst hcases
      exact ⟨_, (exec_done hrest).2.1⟩
  | some t =>
      rw [hget] at hcases
      dsimp only at hcases
      rw [if_neg (hno t hget)] at hcases
      subst hcases
      rcases exec_bind hrest with ⟨_, _, _, _, _, hrest, _⟩
      rcases exec_bind hrest with ⟨_, _, _, _, _, hdone, _⟩
      exact ⟨_, (exec_done hdone).2.1⟩

section Tests

/-- The condition as it can be tested. -/
def conditionTest : State → History → Event → Bool
  | _, h, .tokenStored f _ =>
      h.all fun y => match y.2 with | .familyRead f' => f' ≠ f | _ => true
  | _, h, .familyRead f =>
      h.all fun y => match y.2 with | .tokenStored _ key => !unindexed f key h | _ => true
  | _, _, _ => true

theorem condition_of_test {s : State} {h : History} {e : Event}
    (htest : conditionTest s h e = true) : condition s h e := by
  cases e with
  | tokenStored f key =>
      rintro ⟨c, hc⟩
      exact of_decide_eq_true (List.all_eq_true.mp htest _ hc) rfl
  | familyRead f =>
      intro key hun
      rcases stored_of_unindexed hun with ⟨c, hc⟩
      have hno := List.all_eq_true.mp htest _ hc
      simp only [Bool.not_eq_true'] at hno
      exact Bool.false_ne_true (hno.symm.trans hun)
  | _ => exact trivial

/-- The revocation of a family has completed. -/
def revoked (h : History) (familyId : String) : Bool :=
  h.any fun y => match y.2 with | .familyRevoked f => f = familyId | _ => false

/-- A family whose revocation passes the test was revoked. -/
theorem mem_of_revoked {h : History} {familyId : String} (hrevoked : revoked h familyId = true) :
    ∃ c, (c, Event.familyRevoked familyId) ∈ h := by
  rcases List.any_eq_true.mp hrevoked with ⟨⟨c, e⟩, hmem, he⟩
  cases e with
  | familyRevoked f => exact ⟨c, of_decide_eq_true he ▸ hmem⟩
  | _ => cases he

end Tests

/-- In every run that meets the condition, once the revocation of a family has
    completed, no record of it is active and no token of it is refreshed. -/
theorem revoked_family_not_active (deps : Deps) (now : Int) (db : Identity)
    (p : Pool State Outside Event AuthCall Answer)
    (h : Reachable (authSystem deps) condition (State.start now db) p)
    (c : AuthCall) (familyId : String) (hrevoked : (c, Event.familyRevoked familyId) ∈ p.trace) :
    (∀ key t, Ttl.get p.store.refreshTokens p.store.now key = some t →
      t.familyId = familyId → t.status ≠ .active) ∧
    ∀ client value es answer s',
      (∀ t, Ttl.get p.store.refreshTokens p.store.now (deps.keyOf value) = some t →
        t.familyId = familyId) →
      Exec p.store (refreshAccessToken deps client value) es answer s' →
      ∃ e, answer = .error e := by
  rcases poolOk h with ⟨rs, _, hinv⟩
  -- The invariant speaks of entries; an answer is an entry that has not expired.
  have hrecords : ∀ key t, Ttl.get p.store.refreshTokens p.store.now key = some t →
      t.familyId = familyId → t.status ≠ .active := by
    intro key t hget hfamily hactive
    rcases get_eq_some.mp hget with ⟨e, he, hlive, rfl⟩
    exact (hinv.revoked c familyId hrevoked).2 key ⟨e, he, hlive, hfamily, hactive⟩
  refine ⟨hrecords, ?_⟩
  intro client value es answer s' hfamily hexec
  exact exec_refresh_error hexec fun t hget => hrecords _ t hget (hfamily t hget)

/-- A family of two tokens is revoked. -/
def refreshThenRevoke : Moves :=
  firstTokenMoves ++ refreshMoves 4 refresh1 refresh2 jti2 ++
  [.spawn (.revoke "crm" "crm-secret" refresh2)] ++ turns 5 12

theorem refreshed_family_revoked : ∃ p,
    Reachable (authSystem smallDeps) condition smallStart p ∧
      (∃ c, (c, Event.familyRevoked family1) ∈ p.trace) ∧
      ∀ key t, Ttl.get p.store.refreshTokens p.store.now key = some t →
        t.familyId = family1 → t.status ≠ .active := by
  rcases reachable_of_play_any (authSystem smallDeps) (fun s h e => conditionTest s h e = true)
      smallStart refreshThenRevoke (fun p => revoked p.trace family1)
      (by decide +kernel) with ⟨p, hp, hrevoked⟩
  rcases mem_of_revoked hrevoked with ⟨c, hc⟩
  have hp' := reachable_mono (fun _ _ _ => condition_of_test) hp
  exact ⟨p, hp', ⟨c, hc⟩,
    (revoked_family_not_active smallDeps 1000 smallIdentity p hp' c family1 hc).1⟩

/-- A refresh has consumed its token; the token is presented once more and its
    family revoked; then the refresh stores the next token. -/
def refreshDuringRevocation : Moves :=
  firstTokenMoves ++ [.spawn (.refresh "crm" "crm-secret" refresh1)] ++ turns 4 12 ++
  [.spawn (.refresh "crm" "crm-secret" refresh1)] ++ turns 5 10 ++
  [.run 5 (.audit "event" true), .run 4 (.random refresh2)] ++ turns 4 3 ++
  [.run 4 (.random jti2)] ++ turns 4 1

/-- Without the condition a refresh under way leaves an active token, although
    all requests have finished. -/
theorem refresh_during_revocation_active : ∃ p c t,
    Reachable (authSystem smallDeps) anyStep smallStart p ∧
      (c, Event.familyRevoked family1) ∈ p.trace ∧
      (p.threads.all fun t => t.prog.answer.isSome) = true ∧
      Ttl.get p.store.refreshTokens p.store.now (smallDeps.keyOf refresh2) = some t ∧
      t.familyId = family1 ∧ t.status = .active := by
  rcases reachable_of_play_any (authSystem smallDeps) anyStep smallStart refreshDuringRevocation
      (fun p => revoked p.trace family1 && (p.threads.all fun t => t.prog.answer.isSome) &&
        (Ttl.get p.store.refreshTokens p.store.now (smallDeps.keyOf refresh2)).any
          fun t => t.familyId = family1 ∧ t.status = .active)
      (by decide +kernel) with ⟨p, hp, htest⟩
  simp only [Bool.and_eq_true] at htest
  rcases htest with ⟨⟨hrevoked, hdone⟩, hactive⟩
  rcases mem_of_revoked hrevoked with ⟨c, hc⟩
  rcases (Option.any_eq_true _ _).mp hactive with ⟨t, ht, hstatus⟩
  exact ⟨p, c, t, hp, hc, hdone, ht, of_decide_eq_true hstatus⟩

end Sandbox.Auth.FamilyRevocation
