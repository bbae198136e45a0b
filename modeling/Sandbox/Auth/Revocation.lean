import Sandbox.Auth.Blocks
import Sandbox.Auth.Installation
import Sandbox.Interleave.Tokens

/-!
# A Revoked Session Stays Revoked

When `revokeSessionBySid` has completed, no session with that identifier is
loaded again, in every interleaving of all requests in which two kinds of step
meet a condition. A request that touches a session writes the whole value
back, and it must do so while the session can still be found; a revocation
looks up its session, and it must not do so while the session is half created
or half destroyed. Without the first condition a slow authorization request
brings a revoked session back, and nothing finds it by its identifier then.

The invariant knows at most one store key for every identifier. A thread that
has found the key of a session holds `located`; when it deletes what is stored
there, or finds nothing, the session is `gone`, and the conditions keep every
later write from bringing it back. `mayStore` is the right to make the first
write of a session, of which there is one.

## Main definitions

* `condition`: The condition on the steps of a run.
* `Token`, `Known`, `Inv`: The invariant.

## Theorems

* `keeps_touchSsoSession`, `keeps_createSsoSession`,
  `keeps_revokeSessionBySid`: The programs preserve the invariant.
* `poolOk`: Every pool of every run satisfies the invariant.
-/

namespace Sandbox.Auth.Revocation

open Interleave Ttl

/-- The history of a run of the server. -/
abbrev History : Type := List (AuthCall × Event)

/-- No session with this identifier can be loaded. -/
def Absent (s : State) (sid : String) : Prop :=
  ∀ key x, s.presented key = some x → x.sid ≠ sid

/-- A touch writes a session that can still be found by its identifier. A
    revocation looks up a session both of whose entries were written, and
    which still has its index entry or cannot be loaded any more. -/
def condition : Guard State Event AuthCall
  | s, _, .sessionTouched x =>
      Ttl.get s.sidIndex s.now x.sid = some x.id ∧
        ∃ y, s.presented x.id = some y ∧ y.sid = x.sid
  | s, h, .sidLookedUp sid =>
      (∃ c x, (c, Event.sessionStored x) ∈ h ∧ x.sid = sid) ∧
        (∃ c key, (c, Event.sessionIndexed sid key) ∈ h) ∧
        (Ttl.get s.sidIndex s.now sid ≠ none ∨ Absent s sid)
  | _, _, _ => True

inductive Token
  /-- The right to store a new session under a key. -/
  | mayStore (sid key : String)
  /-- A session was given this key. -/
  | minted (sid key : String)
  /-- A stored session has this key. -/
  | located (sid key : String)
  /-- The session cannot be loaded. -/
  | gone (sid : String)
  deriving DecidableEq

/-- Something says that a session has a key. -/
def Known (R : Multiset Token) (s : State) (sid key : String) : Prop :=
  (∃ e, s.ssoSessions key = some e ∧ e.value.sid = sid) ∨
  (∃ e, s.sidIndex sid = some e ∧ e.value = key) ∨
  .mayStore sid key ∈ R ∨ .minted sid key ∈ R ∨ .located sid key ∈ R

/-- A session that a thread knows to be gone, or whose revocation has
    completed. -/
def Gone (R : Multiset Token) (h : History) (sid : String) : Prop :=
  .gone sid ∈ R ∨ ∃ c, (c, Event.sessionRevoked sid) ∈ h

structure Inv (R : Multiset Token) (s : State) (h : History) : Prop where
  unique : ∀ sid key key', Known R s sid key → Known R s sid key' → key = key'
  issued : ∀ sid key, Known R s sid key → sid ∈ s.issued
  storedId : ∀ key e, s.ssoSessions key = some e → e.value.id = key
  once : ∀ sid key, R.count (.mayStore sid key) ≤ 1
  stored : ∀ c x, (c, Event.sessionStored x) ∈ h →
    x.sid ∈ s.issued ∧ ∀ key, .mayStore x.sid key ∉ R
  located : ∀ sid key, .located sid key ∈ R → ∀ key', .mayStore sid key' ∉ R
  gone : ∀ sid, Gone R h sid →
    sid ∈ s.issued ∧ (∀ key, .mayStore sid key ∉ R) ∧ Absent s sid

def protocol : Protocol (Multiset Token) State Event AuthCall where
  guard := condition
  Inv := Inv

section Changes

variable {R : Multiset Token} {s s' : State} {h : History}

/-- A sid that is absent stays so as sessions go away and time passes. -/
theorem Absent.mono {sid : String} (hab : Absent s sid)
    (hstore : ∀ k e, s'.ssoSessions k = some e → s.ssoSessions k = some e)
    (hnow : s.now ≤ s'.now) : Absent s' sid :=
  fun key x hx => hab key x (presented_mono hstore hnow hx)

/-- The invariant survives deletions, time and new random values. -/
theorem Inv.shrink (hinv : Inv R s h)
    (hstore : ∀ k e, s'.ssoSessions k = some e → s.ssoSessions k = some e)
    (hindex : ∀ k e, s'.sidIndex k = some e → s.sidIndex k = some e)
    (hissued : s.issued ⊆ s'.issued) (hnow : s.now ≤ s'.now) : Inv R s' h := by
  have hknown : ∀ sid key, Known R s' sid key → Known R s sid key := by
    rintro sid key (⟨e, he, hsid⟩ | ⟨e, he, hkey⟩ | htok)
    · exact .inl ⟨e, hstore _ _ he, hsid⟩
    · exact .inr (.inl ⟨e, hindex _ _ he, hkey⟩)
    · exact .inr (.inr htok)
  refine ⟨?_, ?_, ?_, hinv.once, ?_, hinv.located, ?_⟩
  · exact fun sid key key' hk hk' => hinv.unique sid key key' (hknown _ _ hk) (hknown _ _ hk')
  · exact fun sid key hk => hissued (hinv.issued sid key (hknown _ _ hk))
  · exact fun key e he => hinv.storedId key e (hstore _ _ he)
  · exact fun c x hx => ⟨hissued (hinv.stored c x hx).1, (hinv.stored c x hx).2⟩
  · intro sid hg
    rcases hinv.gone sid hg with ⟨hi, hm, hab⟩
    exact ⟨hissued hi, hm, hab.mono hstore hnow⟩

/-- The invariant does not notice events about other things. -/
theorem Inv.log (hinv : Inv R s h) (c : AuthCall) {e : Event}
    (hstored : ∀ x, e ≠ .sessionStored x) (hrevoked : ∀ sid, e ≠ .sessionRevoked sid) :
    Inv R s ((c, e) :: h) := by
  refine ⟨hinv.unique, hinv.issued, hinv.storedId, hinv.once, ?_, hinv.located, ?_⟩
  · intro c' x hx
    rcases List.mem_cons.mp hx with heq | hx
    · exact absurd (Prod.mk.inj heq).2.symm (hstored x)
    · exact hinv.stored c' x hx
  · rintro sid (htok | ⟨c', hc⟩)
    · exact hinv.gone sid (.inl htok)
    · rcases List.mem_cons.mp hc with heq | hc
      · exact absurd (Prod.mk.inj heq).2.symm (hrevoked sid)
      · exact hinv.gone sid (.inr ⟨c', hc⟩)

/-- The parts that say nothing about sessions. -/
def otherParts : List Field :=
  [.authorizationRequests, .authorizationCodes, .refreshTokens, .refreshTokenFamilies,
    .sidRefreshFamilies, .mfaPending, .users, .memberships, .mfaMethods, .sessions,
    .sessionClients, .audit, .outbox]

theorem stable : Stable otherParts protocol where
  changes R s s' h hch hinv := by
    have hstore : s'.ssoSessions = s.ssoSessions := hch.same .ssoSessions (by decide)
    have hindex : s'.sidIndex = s.sidIndex := hch.same .sidIndex (by decide)
    exact hinv.shrink (fun k e he => hstore ▸ he) (fun k e he => hindex ▸ he) hch.issued
      (le_of_eq hch.now.symm)
  event R s h c e he hinv := by
    refine hinv.log c ?_ ?_
    · rintro x rfl
      exact absurd he (by decide : Field.ssoSessions ∉ otherParts)
    · rintro sid rfl
      exact absurd he (by decide : Field.sidIndex ∉ otherParts)

end Changes

section Learning

variable {F : Multiset Token} {s : State} {h : History} {sid key : String}

/-- A thread may hold what it has learnt about a session that is stored. -/
theorem Inv.locate (hinv : Inv F s h) (hknown : Known F s sid key)
    (hmay : ∀ key', .mayStore sid key' ∉ F) : Inv ({.located sid key} + F) s h := by
  -- Having located a session adds nothing to what is known.
  have hback : ∀ sid' key', Known ({.located sid key} + F) s sid' key' → Known F s sid' key' := by
    intro sid' key' hk
    simp only [Known, Multiset.mem_add, Multiset.mem_singleton, reduceCtorEq, false_or,
      Token.located.injEq] at hk ⊢
    rcases hk with hk | hk | hk | hk | ⟨rfl, rfl⟩ | hk
    · exact .inl hk
    · exact .inr (.inl hk)
    · exact .inr (.inr (.inl hk))
    · exact .inr (.inr (.inr (.inl hk)))
    · exact hknown
    · exact .inr (.inr (.inr (.inr hk)))
  refine ⟨?_, ?_, hinv.storedId, ?_, ?_, ?_, ?_⟩
  · exact fun sid' k k' hk hk' => hinv.unique sid' k k' (hback _ _ hk) (hback _ _ hk')
  · exact fun sid' k hk => hinv.issued sid' k (hback _ _ hk)
  · intro sid' k
    simpa [Multiset.count_singleton] using hinv.once sid' k
  · intro c x hx
    simpa using hinv.stored c x hx
  · intro sid' k hk
    simp only [Multiset.mem_add, Multiset.mem_singleton, reduceCtorEq, false_or,
      Token.located.injEq] at hk ⊢
    rcases hk with ⟨rfl, rfl⟩ | hk
    · exact hmay
    · exact hinv.located sid' k hk
  · intro sid' hg
    simpa using hinv.gone sid' (by simpa [Gone] using hg)

/-- A thread may forget where a session is stored. -/
theorem Inv.forget (hinv : Inv ({.located sid key} + F) s h) : Inv F s h := by
  have hforth : ∀ sid' key', Known F s sid' key' →
      Known ({.located sid key} + F) s sid' key' := by
    intro sid' key' hk
    simp only [Known, Multiset.mem_add] at hk ⊢
    rcases hk with hk | hk | hk | hk | hk
    · exact .inl hk
    · exact .inr (.inl hk)
    · exact .inr (.inr (.inl (.inr hk)))
    · exact .inr (.inr (.inr (.inl (.inr hk))))
    · exact .inr (.inr (.inr (.inr (.inr hk))))
  -- No other clause counts what was located.
  refine ⟨?_, ?_, hinv.storedId, ?_, ?_, ?_, ?_⟩
  · exact fun sid' k k' hk hk' => hinv.unique sid' k k' (hforth _ _ hk) (hforth _ _ hk')
  · exact fun sid' k hk => hinv.issued sid' k (hforth _ _ hk)
  · intro sid' k
    simpa [Multiset.count_singleton] using hinv.once sid' k
  · intro c x hx
    simpa using hinv.stored c x hx
  · intro sid' k hk
    simpa using hinv.located sid' k (mem_frame _ hk)
  · intro sid' hg
    simpa using hinv.gone sid' (by simpa [Gone] using hg)

/-- A thread may hold the fact that a session is gone. -/
theorem Inv.lose (hinv : Inv F s h) (hsid : sid ∈ s.issued)
    (hmay : ∀ key', .mayStore sid key' ∉ F) (hab : Absent s sid) :
    Inv ({.gone sid} + F) s h := by
  have hback : ∀ sid' key', Known ({.gone sid} + F) s sid' key' → Known F s sid' key' := by
    intro sid' key' hk
    simpa [Known] using hk
  refine ⟨?_, ?_, hinv.storedId, ?_, ?_, ?_, ?_⟩
  · exact fun sid' k k' hk hk' => hinv.unique sid' k k' (hback _ _ hk) (hback _ _ hk')
  · exact fun sid' k hk => hinv.issued sid' k (hback _ _ hk)
  · intro sid' k
    simpa [Multiset.count_singleton] using hinv.once sid' k
  · intro c x hx
    simpa using hinv.stored c x hx
  · intro sid' k hk
    simpa using hinv.located sid' k (by simpa using hk)
  · intro sid' hg
    -- What is gone now is not presented, and nobody may store it again.
    by_cases heq : sid' = sid
    · subst heq
      simpa using ⟨hsid, hmay, hab⟩
    · simpa using hinv.gone sid' (by simpa [Gone, heq] using hg)

/-- What a thread that knows a session's key can rely on. -/
theorem Inv.of_located (hinv : Inv ({.located sid key} + F) s h) :
    sid ∈ s.issued ∧ (∀ key', Token.mayStore sid key' ∉ F) ∧
      ∀ key' x, s.presented key' = some x → x.sid = sid → key' = key := by
  have hloc : Token.located sid key ∈ ({.located sid key} + F : Multiset Token) :=
    mem_held _ _ _ (Multiset.mem_singleton_self _)
  have hknown : Known ({.located sid key} + F) s sid key := .inr (.inr (.inr (.inr hloc)))
  refine ⟨hinv.issued sid key hknown, ?_, ?_⟩
  · exact fun key' hk => hinv.located sid key hloc key' (mem_frame _ hk)
  · rintro key' x hx rfl
    rcases get_eq_some.mp (presented_eq_some.mp hx).1 with ⟨e, he, _, rfl⟩
    exact hinv.unique e.value.sid key' key (.inl ⟨e, he, rfl⟩) hknown

end Learning

section Loading

variable {c : AuthCall} {sid key : String}

/-- A program that says nothing about sessions. -/
theorem keeps_other {α : Type} {p : AuthProg α} (h : Touches otherParts p) :
    Keeps protocol c α p :=
  (safe_touches stable h 0).keeps

/-- A program on other fields keeps every resource. -/
theorem safe_other {α : Type} {p : AuthProg α} (h : Touches otherParts p) (r : Multiset Token) :
    Safe protocol c p r fun _ r' => r' = r :=
  safe_touches stable h r

theorem keeps_deleteSession : Keeps protocol c _ (ssoSessions.delete key : AuthProg Unit) := by
  refine safe_write fun F s hist hinv => ⟨0, ?_, trivial⟩
  exact Inv.shrink hinv (fun k e he => (delete_eq_some he).2) (fun _ _ he => he)
    (List.Subset.refl _) le_rfl

theorem keeps_deleteIndex : Keeps protocol c _ (sidIndex.delete sid : AuthProg Unit) := by
  refine safe_write fun F s hist hinv => ⟨0, ?_, trivial⟩
  exact Inv.shrink hinv (fun _ _ he => he) (fun k e he => (delete_eq_some he).2)
    (List.Subset.refl _) le_rfl

theorem keeps_destroySsoSession (x : SsoSession) : Keeps protocol c _ (destroySsoSession x) :=
  (closed_keeps protocol c).bind
    ((closed_keeps protocol c).both keeps_deleteSession keeps_deleteIndex)
    fun _ => (closed_keeps protocol c).pure _

theorem keeps_loadSsoSessionByKey (key : String) :
    Keeps protocol c _ (loadSsoSessionByKey key) := by
  refine (closed_keeps protocol c).bind (keeps_other touches_get) fun stored => ?_
  cases stored with
  | none => exact (closed_keeps protocol c).pure _
  | some x =>
      refine (closed_keeps protocol c).bind (keeps_other touches_nowSeconds) fun now => ?_
      split
      · exact (closed_keeps protocol c).bind (keeps_destroySsoSession x)
          fun _ => (closed_keeps protocol c).pure _
      · exact (closed_keeps protocol c).pure _

/-- A thread that destroys the session it has found knows that it is gone. -/
theorem safe_destroyLocated {x : SsoSession} (hx : x.id = key) :
    Safe protocol c (destroySsoSession x) {.located sid key}
      fun _ r' => ∃ t, r' = {.gone sid} + t := by
  have hdelete : Safe protocol c (ssoSessions.delete x.id : AuthProg Unit) {.located sid key}
      fun _ r' => r' = {.gone sid} := by
    refine safe_write fun F s hist hinv => ⟨_, ?_, rfl⟩
    rcases Inv.of_located hinv with ⟨hsid, hmay, hkey⟩
    have hstore : ∀ k e, Ttl.delete s.ssoSessions x.id k = some e → s.ssoSessions k = some e :=
      fun k e he => (delete_eq_some he).2
    refine Inv.lose ((Inv.forget hinv).shrink hstore (fun _ _ he => he) (List.Subset.refl _)
      le_rfl) hsid hmay ?_
    rintro key' y hy rfl
    have hbefore : s.presented key' = some y := by
      refine presented_mono ?_ ?_ hy
      · exact hstore
      · exact le_refl s.now
    -- A session with the `sid` lies under the key that is deleted.
    have hsame : key' = x.id := (hkey key' y hbefore rfl).trans hx.symm
    rw [hsame] at hy
    exact absurd ((get_delete_self _ _ _).symm.trans (presented_eq_some.mp hy).1) nofun
  refine safe_seq (safe_both_keeps hdelete keeps_deleteIndex) ?_
  rintro _ _ ⟨_, t, rfl, rfl⟩
  exact safe_pure ⟨t, rfl⟩

/-- What a search that has ended knows. -/
def Found (sid key : String) (found : Option SsoSession) (r : Multiset Token) : Prop :=
  match found with
  | none => ∃ t, r = {.gone sid} + t
  | some x => r = {.located sid key} ∧ x.id = key

/-- Loading by the key of a session that was found in the index. -/
theorem safe_loadLocated :
    Safe protocol c (loadSsoSessionByKey key) {.located sid key} (Found sid key) := by
  have hget : Safe protocol c (ssoSessions.get key : AuthProg _) {.located sid key}
      (Found sid key) := by
    refine safe_read fun F s hist hinv => ?_
    change ∃ r', Inv (r' + F) s hist ∧ Found sid key (Ttl.get s.ssoSessions s.now key) r'
    cases hget : Ttl.get s.ssoSessions s.now key with
    | none =>
        -- Where nothing is found, no session of the `sid` is presented.
        rcases Inv.of_located hinv with ⟨hsid, hmay, hkey⟩
        refine ⟨_, Inv.lose (Inv.forget hinv) hsid hmay ?_, 0, (add_zero _).symm⟩
        rintro key' y hy rfl
        rw [hkey key' y hy rfl] at hy
        exact absurd (hget.symm.trans (presented_eq_some.mp hy).1) nofun
    | some x =>
        rcases get_eq_some.mp hget with ⟨e, he, _, rfl⟩
        exact ⟨_, hinv, rfl, hinv.storedId key e he⟩
  refine safe_seq hget fun stored r hr => ?_
  cases stored with
  | none => exact safe_pure hr
  | some x =>
      rcases hr with ⟨rfl, hid⟩
      refine safe_seq (safe_other touches_nowSeconds _) ?_
      rintro now _ rfl
      split
      · refine safe_seq (safe_destroyLocated hid) fun _ r' hr' => ?_
        exact safe_pure hr'
      · exact safe_pure ⟨rfl, hid⟩

/-- What a look into the index tells about a `sid`. -/
def LookedUp (sid : String) : Option String → Multiset Token → Prop
  | none, r => r = {.gone sid}
  | some key, r => r = {.located sid key}

/-- Finding a session by its identifier, when the condition is met. -/
theorem safe_findSsoSessionBySid :
    Safe protocol c (findSsoSessionBySid sid) 0 fun a r => ∃ key, Found sid key a r := by
  have hlook : Safe protocol c (sidIndex.getLogged (fun _ => .sidLookedUp sid) sid : AuthProg _)
      0 (LookedUp sid) := by
    refine safe_logged fun F s hist hinv hcond => ?_
    rcases hcond with ⟨⟨c₁, x, hx, rfl⟩, -, halive⟩
    rw [zero_add] at hinv
    have hlog := Inv.log hinv c (e := .sidLookedUp x.sid) nofun nofun
    change ∃ r', Inv (r' + F) s _ ∧ LookedUp x.sid (Ttl.get s.sidIndex s.now x.sid) r'
    -- Found or not, the index has been asked; without an entry the session is gone.
    cases hget : Ttl.get s.sidIndex s.now x.sid with
    | none =>
        rcases hinv.stored c₁ x hx with ⟨hsid, hmay⟩
        refine ⟨_, hlog.lose hsid hmay ?_, rfl⟩
        exact halive.resolve_left fun hne => hne hget
    | some key =>
        rcases get_eq_some.mp hget with ⟨e, he, _, rfl⟩
        exact ⟨_, hlog.locate (.inr (.inl ⟨e, he, rfl⟩)) (hinv.stored c₁ x hx).2, rfl⟩
  refine safe_seq hlook fun a r hr => ?_
  cases a with
  | none => exact safe_pure ⟨sid, 0, hr.trans (add_zero _).symm⟩
  | some key =>
      subst hr
      exact safe_mono safe_loadLocated fun a r hr => ⟨key, hr⟩

end Loading

section Writing

variable {R F : Multiset Token} {s : State} {h : History} {c : AuthCall} {sid key : String}

/-- Writing a session that is known under its key and is not gone. -/
theorem Inv.write (hinv : Inv R s h) {x : SsoSession} (hknown : Known R s x.sid x.id)
    (hgone : ¬ Gone R h x.sid) (ttl : Int) :
    Inv R { s with ssoSessions := Ttl.set s.ssoSessions s.now x.id x ttl } h := by
  have hback : ∀ sid key,
      Known R { s with ssoSessions := Ttl.set s.ssoSessions s.now x.id x ttl } sid key →
        Known R s sid key := by
    rintro sid key (⟨e, he, rfl⟩ | hk)
    · rcases put_eq_some he with ⟨rfl, rfl⟩ | ⟨_, he⟩
      · exact hknown
      · exact .inl ⟨e, he, rfl⟩
    · exact .inr hk
  refine ⟨?_, ?_, ?_, hinv.once, hinv.stored, hinv.located, ?_⟩
  · exact fun sid k k' hk hk' => hinv.unique sid k k' (hback _ _ hk) (hback _ _ hk')
  · exact fun sid k hk => hinv.issued sid k (hback _ _ hk)
  · intro k e he
    rcases put_eq_some he with ⟨rfl, rfl⟩ | ⟨_, he⟩
    · rfl
    · exact hinv.storedId k e he
  · intro sid hg
    rcases hinv.gone sid hg with ⟨hi, hm, hab⟩
    refine ⟨hi, hm, ?_⟩
    rintro k y hy rfl
    rcases presented_eq_some.mp hy with ⟨hget, hexp⟩
    rcases get_set_eq_some hget with ⟨rfl, rfl⟩ | ⟨_, hget⟩
    · exact hgone hg
    · exact hab k y (presented_eq_some.mpr ⟨hget, hexp⟩) rfl

/-- Writing the index entry of a session that is known under the key. -/
theorem Inv.index (hinv : Inv R s h) (hknown : Known R s sid key) (ttl : Int) :
    Inv R { s with sidIndex := Ttl.set s.sidIndex s.now sid key ttl } h := by
  have hback : ∀ sid' key',
      Known R { s with sidIndex := Ttl.set s.sidIndex s.now sid key ttl } sid' key' →
        Known R s sid' key' := by
    rintro sid' key' (hk | ⟨e, he, rfl⟩ | hk)
    · exact .inl hk
    · rcases put_eq_some he with ⟨rfl, rfl⟩ | ⟨_, he⟩
      · exact hknown
      · exact .inr (.inl ⟨e, he, rfl⟩)
    · exact .inr (.inr hk)
  refine ⟨?_, ?_, hinv.storedId, hinv.once, hinv.stored, hinv.located, hinv.gone⟩
  · exact fun sid k k' hk hk' => hinv.unique sid k k' (hback _ _ hk) (hback _ _ hk')
  · exact fun sid k hk => hinv.issued sid k (hback _ _ hk)

/-- Once a session's first write is made, the right to make it is used up. -/
theorem Inv.spend {x : SsoSession} (hinv : Inv ({.mayStore x.sid x.id} + F) s h) :
    Inv F s ((c, .sessionStored x) :: h) := by
  have hown : Token.mayStore x.sid x.id ∈ ({.mayStore x.sid x.id} + F : Multiset Token) :=
    mem_held _ _ _ (Multiset.mem_singleton_self _)
  -- Nobody else may store this `sid`, under any key.
  have hmay : ∀ key, Token.mayStore x.sid key ∉ F := by
    intro key hk
    have hsame : key = x.id := hinv.unique x.sid key x.id
      (.inr (.inr (.inl (mem_frame _ hk)))) (.inr (.inr (.inl hown)))
    subst hsame
    exact notMem_of_count_le_one (hinv.once x.sid x.id) hk
  -- What the others know, they knew beside the token that is spent.
  have hforth : ∀ sid key, Known F s sid key → Known ({.mayStore x.sid x.id} + F) s sid key := by
    intro sid key hk
    simp only [Known, Multiset.mem_add] at hk ⊢
    rcases hk with hk | hk | hk | hk | hk
    · exact .inl hk
    · exact .inr (.inl hk)
    · exact .inr (.inr (.inl (.inr hk)))
    · exact .inr (.inr (.inr (.inl (.inr hk))))
    · exact .inr (.inr (.inr (.inr (.inr hk))))
  refine ⟨?_, ?_, hinv.storedId, ?_, ?_, ?_, ?_⟩
  · exact fun sid k k' hk hk' => hinv.unique sid k k' (hforth _ _ hk) (hforth _ _ hk')
  · exact fun sid k hk => hinv.issued sid k (hforth _ _ hk)
  · intro sid k
    have hle := hinv.once sid k
    rw [Multiset.count_add] at hle
    omega
  -- The session that is now stored was known by its own call alone.
  · intro c' y hy
    rcases List.mem_cons.mp hy with heq | hy
    · cases heq
      exact ⟨hinv.issued x.sid x.id (.inr (.inr (.inl hown))), hmay⟩
    · rcases hinv.stored c' y hy with ⟨hi, hm⟩
      exact ⟨hi, fun k hk => hm k (mem_frame _ hk)⟩
  · intro sid k hk k' hk'
    exact hinv.located sid k (mem_frame _ hk) k' (mem_frame _ hk')
  · intro sid hg
    have hg' : Gone ({.mayStore x.sid x.id} + F) h sid := by
      simpa [Gone] using hg
    rcases hinv.gone sid hg' with ⟨hi, hm, hab⟩
    exact ⟨hi, fun k hk => hm k (mem_frame _ hk), hab⟩

/-- A fresh identifier may be given any key. -/
theorem Inv.mint (hinv : Inv F s h) (hfresh : sid ∉ s.issued) :
    Inv ({.mayStore sid key} + {.minted sid key} + F)
      { s with issued := sid :: s.issued } h := by
  have hnew : ∀ key', ¬ Known F s sid key' := fun key' hk => hfresh (hinv.issued sid key' hk)
  -- The new `sid` is known by the call that drew it and otherwise not.
  have hback : ∀ sid' key',
      Known ({.mayStore sid key} + {.minted sid key} + F)
          { s with issued := sid :: s.issued } sid' key' →
        Known F s sid' key' ∨ sid' = sid ∧ key' = key := by
    intro sid' key' hk
    simp only [Known, Multiset.mem_add, Multiset.mem_singleton, reduceCtorEq, false_or, or_false,
      Token.mayStore.injEq, Token.minted.injEq] at hk ⊢
    rcases hk with hk | hk | (hk | hk) | (hk | hk) | hk
    · exact .inl (.inl hk)
    · exact .inl (.inr (.inl hk))
    · exact .inr hk
    · exact .inl (.inr (.inr (.inl hk)))
    · exact .inr hk
    · exact .inl (.inr (.inr (.inr (.inl hk))))
    · exact .inl (.inr (.inr (.inr (.inr hk))))
  -- In each case a `sid` that was known before is not the new one.
  refine ⟨?_, ?_, hinv.storedId, ?_, ?_, ?_, ?_⟩
  · intro sid' k k' hk hk'
    rcases hback _ _ hk with hold | ⟨rfl, rfl⟩
    · rcases hback _ _ hk' with hold' | ⟨rfl, rfl⟩
      · exact hinv.unique sid' k k' hold hold'
      · exact absurd hold (hnew k)
    · rcases hback _ _ hk' with hold' | ⟨_, rfl⟩
      · exact absurd hold' (hnew k')
      · rfl
  · intro sid' k hk
    rcases hback _ _ hk with hk | ⟨rfl, _⟩
    · exact List.mem_cons_of_mem _ (hinv.issued sid' k hk)
    · exact List.mem_cons_self
  · intro sid' k
    simp only [Multiset.count_add, Multiset.count_singleton, reduceCtorEq, if_false]
    split
    · next heq =>
        cases heq
        have hnone : Token.mayStore sid key ∉ F := fun hk =>
          hnew key (.inr (.inr (.inl hk)))
        rw [Multiset.count_eq_zero_of_notMem hnone]
    · have hle := hinv.once sid' k
      omega
  · intro c x hx
    rcases hinv.stored c x hx with ⟨hi, hm⟩
    refine ⟨List.mem_cons_of_mem _ hi, fun k hk => ?_⟩
    simp only [Multiset.mem_add, Multiset.mem_singleton, reduceCtorEq, or_false,
      Token.mayStore.injEq] at hk
    rcases hk with ⟨rfl, rfl⟩ | hk
    · exact hfresh hi
    · exact hm k hk
  · intro sid' k hk k' hk'
    simp only [Multiset.mem_add, Multiset.mem_singleton, reduceCtorEq, false_or, or_false,
      Token.mayStore.injEq] at hk hk'
    rcases hk' with ⟨rfl, rfl⟩ | hk'
    · exact hnew k (.inr (.inr (.inr (.inr hk))))
    · exact hinv.located sid' k hk k' hk'
  · intro sid' hg
    have hg' : Gone F h sid' := by simpa [Gone] using hg
    rcases hinv.gone sid' hg' with ⟨hi, hm, hab⟩
    refine ⟨List.mem_cons_of_mem _ hi, fun k hk => ?_, hab⟩
    simp only [Multiset.mem_add, Multiset.mem_singleton, reduceCtorEq, or_false,
      Token.mayStore.injEq] at hk
    rcases hk with ⟨rfl, rfl⟩ | hk
    · exact hfresh hi
    · exact hm k hk

end Writing

section Programs

variable {c : AuthCall} {deps : Deps}

/-- Touching a session, when the condition is met. -/
theorem keeps_touchSsoSession (session : SsoSession) (client : OidcClient) (tenantId : String)
    (environment : RequestEnvironment) :
    Keeps protocol c _ (touchSsoSession session client tenantId environment) := by
  have hC := closed_keeps (ω := Outside) protocol c
  refine hC.bind (keeps_other touches_nowSeconds) fun now => ?_
  refine hC.bind (hC.both (keeps_other (touches_sessionsTouch.mono (by decide)))
    (hC.both ?_ (keeps_other (touches_recordClient.mono (by decide))))) fun answers => ?_
  · refine safe_logged fun F s hist hinv hcond => ⟨0, ?_, trivial⟩
    rcases hcond with ⟨_, y, hy, hsid⟩
    rcases get_eq_some.mp (presented_eq_some.mp hy).1 with ⟨e, he, _, hval⟩
    -- The session that is stored now has the same identifier and key.
    have hknown : Known (0 + F) s session.sid session.id := .inl ⟨e, he, hval ▸ hsid⟩
    have hgone : ¬ Gone (0 + F) hist session.sid := fun hg =>
      (hinv.gone _ hg).2.2 _ _ hy hsid
    exact (Inv.write (x := { session with lastSeenAt := now }) hinv hknown hgone _).log c
      nofun nofun
  · split
    · exact hC.pure _
    · split
      · exact hC.bind (keeps_other (touches_recordAudit.mono (by decide))) fun _ => hC.pure _
      · exact hC.pure _

/-- A fresh identifier comes with the right to store its session. -/
theorem safe_mintSid (key : String) :
    Safe protocol c (randomToken 32) 0
      fun sid r => r = {.mayStore sid key} + {.minted sid key} := by
  refine safe_ask fun F s hist i sid s' hinv hrun => ?_
  cases i <;> first | cases hrun | skip
  simp only at hrun
  split at hrun
  · next hfresh =>
      cases hrun
      rw [zero_add] at hinv
      exact ⟨_, Inv.mint hinv hfresh.2, rfl⟩
  · cases hrun

/-- A new session has a sid that was never revoked. -/
theorem keeps_createSsoSession (user : User) (authenticated : CognitoAuthenticated)
    (environment : RequestEnvironment) :
    Keeps protocol c _ (createSsoSession deps user authenticated environment) := by
  have hC := closed_keeps (ω := Outside) protocol c
  refine hC.bind (keeps_other touches_nowSeconds) fun now => ?_
  refine hC.bind (keeps_other touches_randomToken) fun cookieValue => ?_
  -- The `sid` that is drawn is new, and may be stored and indexed once each.
  refine safe_seq (safe_mintSid (deps.keyOf cookieValue)) ?_
  rintro sid _ rfl
  refine safe_seq (safe_other touches_randomIv _) ?_
  rintro iv _ rfl
  refine safe_seq (safe_both (Q := fun _ _ => True) (R := fun _ _ => True) ?_ ?_)
    fun _ _ _ => safe_pure trivial
  -- Storing the session uses up the right to do so.
  · refine safe_logged fun F s hist hinv _ => ⟨0, ?_, trivial⟩
    have hown : Token.mayStore sid (deps.keyOf cookieValue)
        ∈ ({.mayStore sid (deps.keyOf cookieValue)} + F : Multiset Token) :=
      mem_held _ _ _ (Multiset.mem_singleton_self _)
    have hgone : ¬ Gone ({.mayStore sid (deps.keyOf cookieValue)} + F) hist sid := fun hg =>
      (hinv.gone _ hg).2.1 _ hown
    rw [zero_add]
    exact Inv.spend (Inv.write hinv (.inr (.inr (.inl hown))) hgone _)
  · have hindex : Safe protocol c
        (sidIndex.setLogged (.sessionIndexed sid (deps.keyOf cookieValue)) sid
          (deps.keyOf cookieValue) ssoExpiry.absoluteSeconds : AuthProg Unit)
        {.minted sid (deps.keyOf cookieValue)} fun _ _ => True := by
      refine safe_logged fun F s hist hinv _ =>
        ⟨{.minted sid (deps.keyOf cookieValue)}, ?_, trivial⟩
      have hminted : Token.minted sid (deps.keyOf cookieValue)
          ∈ ({.minted sid (deps.keyOf cookieValue)} + F : Multiset Token) :=
        mem_held _ _ _ (Multiset.mem_singleton_self _)
      exact (Inv.index hinv (.inr (.inr (.inr (.inl hminted)))) _).log c nofun nofun
    refine safe_mono (safe_both_keeps hindex ?_) fun _ _ _ => trivial
    exact keeps_other (touches_sessionsCreate.mono (by decide))

/-- A completed revocation knows that its session is gone. -/
theorem keeps_revokeSessionBySid (sid : String) (reason : SessionRevokeReason)
    (environment : Option RequestEnvironment) :
    Keeps protocol c _ (revokeSessionBySid deps sid reason environment) := by
  have hC := closed_keeps (ω := Outside) protocol c
  have hfamily : ∀ familyId, Keeps protocol c _ (revokeRefreshTokenFamily familyId) :=
    fun _ => keeps_other (touches_revokeRefreshTokenFamily.mono (by decide))
  refine safe_seq
    (safe_both_keeps safe_findSsoSessionBySid (keeps_other touches_findWithClients)) ?_
  rintro ⟨session, recorded⟩ _ ⟨r, t, rfl, key, hfound⟩
  -- Either way the session is gone before the clients are told.
  have hgone : Safe protocol c (revokeFoundSession deps session sid) (r + t)
      fun _ r => ∃ t', r = {.gone sid} + t' := by
    cases session with
    | none =>
        rcases hfound with ⟨t₁, rfl⟩
        exact safe_pure ⟨t₁ + t, add_assoc _ _ _⟩
    | some x =>
        rcases hfound with ⟨rfl, hid⟩
        refine safe_seq (safe_other touches_listRefreshFamilies _) ?_
        rintro families _ rfl
        rw [add_comm _ t]
        refine safe_seq (safe_both
          (Keeps.safe (hC.all fun ref _ => hfamily ref.familyId) t)
          (safe_keeps_both (keeps_other touches_revokeCognitoTokens)
            (safe_destroyLocated hid))) ?_
        rintro _ _ ⟨t₁, _, rfl, _, _, t₂, rfl, t₃, rfl⟩
        refine safe_mono
          (safe_other ((touches_delete onField_sidRefreshFamilies).mono (by decide)) _) ?_
        rintro _ _ rfl
        exact ⟨t₁ + (t₃ + t₂), by rw [add_assoc, add_left_comm t₁]⟩
  refine safe_seq hgone ?_
  rintro _ _ ⟨t', rfl⟩
  refine safe_seq (Q := fun _ r => ∃ t', r = {.gone sid} + t') ?_ ?_
  · refine safe_mono (safe_keeping ({.gone sid} + t') (hC.both
      (hC.all fun oidcClientId _ => keeps_other (touches_notifyClientById.mono (by decide)))
      (hC.bind (keeps_other touches_nowSeconds) fun now =>
        keeps_other (touches_markRevoked.mono (by decide))))) ?_
    rintro _ _ ⟨q, rfl⟩
    exact ⟨q + t', add_left_comm _ _ _⟩
  · rintro told _ ⟨t₁, rfl⟩
    refine safe_seq (safe_other (touches_recordAudit.mono (by decide)) _) ?_
    rintro _ _ rfl
    refine safe_emit fun F s hist hinv _ => ⟨{.gone sid} + t₁, ?_, trivial⟩
    have hown : Token.gone sid ∈ ({.gone sid} + t₁ + F : Multiset Token) := by
      rw [add_assoc]
      exact mem_held _ _ _ (Multiset.mem_singleton_self _)
    refine ⟨hinv.unique, hinv.issued, hinv.storedId, hinv.once, ?_, hinv.located, ?_⟩
    · intro c' x hx
      exact hinv.stored c' x ((List.mem_cons.mp hx).resolve_left nofun)
    · rintro sid' (htok | ⟨c', hc⟩)
      · exact hinv.gone sid' (.inl htok)
      · rcases List.mem_cons.mp hc with heq | hc
        · cases heq
          exact hinv.gone sid (.inl hown)
        · exact hinv.gone sid' (.inr ⟨c', hc⟩)

end Programs

section Runs

variable {deps : Deps}

/-- Every request preserves the invariant. -/
theorem keeps_body (c : AuthCall) : Keeps protocol c _ (AuthCall.body deps c) := by
  have hC := closed_keeps (ω := Outside) protocol c
  have hper : HasPeripheral (Keeps protocol c) := fun h => keeps_other (h.mono (by decide))
  -- Families, codes and requests have no part in the sessions.
  have hfamily : ∀ familyId, Keeps protocol c _ (revokeRefreshTokenFamily familyId) :=
    fun _ => keeps_other (touches_revokeRefreshTokenFamily.mono (by decide))
  have hstore : ∀ (rid : Option String) (key : String) (grant : CodeGrant),
      Keeps protocol c _ (authorizationCodes.setLogged (.codeStored rid key) key (.unused grant)
        authorizationCodeTtl : AuthProg Unit) :=
    fun _ _ _ => keeps_other ((touches_setLogged onField_authorizationCodes rfl).mono (by decide))
  have hmark : ∀ key familyId, Keeps protocol c _ (rememberConsumedCode key familyId) :=
    fun _ _ => keeps_other ((touches_set onField_authorizationCodes).mono (by decide))
  have htakeCode : ∀ key,
      Keeps protocol c _ (authorizationCodes.getAndDelete key : AuthProg _) :=
    fun _ => keeps_other ((touches_getAndDelete onField_authorizationCodes).mono (by decide))
  have hsave : ∀ request, Keeps protocol c _ (storePendingAuthorization deps request) :=
    fun _ => keeps_other (touches_storePendingAuthorization.mono (by decide))
  have htake : ∀ rid, Keeps protocol c _ (consumePendingAuthorization deps rid) :=
    fun _ => keeps_other ((touches_getAndDelete onField_authorizationRequests).mono (by decide))
  exact Blocks.body
    { closed := hC
      peripheral := hper
      load := keeps_loadSsoSessionByKey
      destroy := keeps_destroySsoSession
      create := keeps_createSsoSession
      save := fun _ _ _ _ => hsave
      authorize := fun _ _ _ _ =>
        closed_authorizeWithSession hC hper (hstore none) keeps_touchSsoSession
      resume := fun result rid environment => closed_resumeLogin hC hper (htake rid)
        (closed_authorizeWithSession hC hper (hstore (some rid)) keeps_touchSsoSession)
        result environment
      exchange := fun _ _ input _ client => closed_exchange hC hper keeps_loadSsoSessionByKey
        htakeCode hmark
        (fun _ => keeps_other (touches_createRefreshTokenFamily.mono (by decide)))
        hfamily client input
      refresh := fun _ _ value _ client => closed_refresh hC hper keeps_loadSsoSessionByKey
        (fun _ => keeps_other (touches_consumeRefreshToken.mono (by decide)))
        (fun _ => keeps_other (touches_rotateRefreshToken.mono (by decide)))
        hfamily client value
      revokeFamily := hfamily
      revokeSession := keeps_revokeSessionBySid
      addMember := fun _ _ _ => keeps_other (touches_upsertServiceMembership.mono (by decide))
      removeMember := fun _ _ _ =>
        keeps_other (touches_removeServiceMembership.mono (by decide)) }

theorem inv_start (now : Int) (db : Identity) : Inv 0 (State.start now db) [] := by
  have hstore : ∀ key e, (State.start now db).ssoSessions key ≠ some e :=
    fun _ e => Option.some_ne_none e |>.symm
  have hindex : ∀ sid e, (State.start now db).sidIndex sid ≠ some e :=
    fun _ e => Option.some_ne_none e |>.symm
  -- At the start no `sid` is known to anybody.
  have hknown : ∀ sid key, ¬ Known 0 (State.start now db) sid key := by
    rintro sid key (⟨e, he, _⟩ | ⟨e, he, _⟩ | hk | hk | hk)
    · exact hstore key e he
    · exact hindex sid e he
    · exact Multiset.notMem_zero _ hk
    · exact Multiset.notMem_zero _ hk
    · exact Multiset.notMem_zero _ hk
  refine ⟨?_, ?_, ?_, ?_, ?_, ?_, ?_⟩
  · exact fun sid key _ hk => absurd hk (hknown sid key)
  · exact fun sid key hk => absurd hk (hknown sid key)
  · exact fun key e he => absurd he (hstore key e)
  · intro sid key
    rw [Multiset.count_zero]
    exact Nat.zero_le _
  · exact fun c x hx => absurd hx List.not_mem_nil
  · exact fun sid key hk => absurd hk (Multiset.notMem_zero _)
  · rintro sid (htok | ⟨c, hc⟩)
    · exact absurd htok (Multiset.notMem_zero _)
    · exact absurd hc List.not_mem_nil

/-- Time and the operator do not bring sessions back. -/
theorem inv_env {R : Multiset Token} {s s' : State} {h : History} {t : Change}
    (ht : t.apply s = some s') (hinv : Inv R s h) : Inv R s' h := by
  rcases apply_cases ht with ⟨seconds, rfl⟩ | ⟨db, _, _, rfl⟩
  · refine hinv.shrink (fun _ _ he => he) (fun _ _ he => he) (List.Subset.refl _) ?_
    change s.now ≤ s.now + seconds
    omega
  · exact hinv.shrink (fun _ _ he => he) (fun _ _ he => he) (List.Subset.refl _) le_rfl

/-- Every pool of every run that meets the condition satisfies the invariant. -/
theorem poolOk {now : Int} {db : Identity} {p : Pool State Outside Event AuthCall Answer}
    (h : Reachable (authSystem deps) condition (State.start now db) p) :
    PoolOk protocol (fun _ _ _ => True) p :=
  poolOk_of_reachable keeps_body (fun _ _ _ _ _ ht hinv => inv_env ht hinv)
    (inv_start now db) h

end Runs

section Tests

/-- The condition as far as it can be tested: a session that is looked up
    still has its index entry. -/
def conditionTest : State → History → Event → Bool
  | s, _, .sessionTouched x =>
      Ttl.get s.sidIndex s.now x.sid = some x.id && (s.presented x.id).any (·.sid = x.sid)
  | s, h, .sidLookedUp sid =>
      (h.any fun y => match y.2 with | .sessionStored x => x.sid = sid | _ => false) &&
        (h.any fun y => match y.2 with | .sessionIndexed sid' _ => sid' = sid | _ => false) &&
        (Ttl.get s.sidIndex s.now sid).isSome
  | _, _, _ => true

theorem condition_of_test {s : State} {h : History} {e : Event}
    (htest : conditionTest s h e = true) : condition s h e := by
  unfold conditionTest at htest
  split at htest
  · next x =>
      rcases Bool.and_eq_true_iff.mp htest with ⟨hindex, hpresented⟩
      rcases (Option.any_eq_true _ _).mp hpresented with ⟨y, hy, hsid⟩
      exact ⟨of_decide_eq_true hindex, y, hy, of_decide_eq_true hsid⟩
  · next sid =>
      simp only [Bool.and_eq_true] at htest
      rcases htest with ⟨⟨hstored, hindexed⟩, hsome⟩
      rcases List.any_eq_true.mp hstored with ⟨⟨c, e⟩, hmem, he⟩
      rcases List.any_eq_true.mp hindexed with ⟨⟨c', e'⟩, hmem', he'⟩
      refine ⟨⟨c, ?_⟩, ⟨c', ?_⟩, .inl (Option.isSome_iff_ne_none.mp hsome)⟩
      · cases e with
        | sessionStored x => exact ⟨x, hmem, of_decide_eq_true he⟩
        | _ => cases he
      · cases e' with
        | sessionIndexed sid' key => exact ⟨key, of_decide_eq_true he' ▸ hmem'⟩
        | _ => cases he'
  · next hother₁ hother₂ =>
      cases e with
      | sessionTouched x => exact absurd rfl (hother₁ x)
      | sidLookedUp sid => exact absurd rfl (hother₂ sid)
      | _ => exact trivial

/-- Loading with a cookie value gives a session with an identifier. -/
def loads (s : State) (cookie sid : String) : Bool :=
  match (loadSsoSession smallDeps (some cookie)).runLeft [.ulid "", .ulid ""] s with
  | some (_, some x, _) => x.sid = sid
  | _ => false

theorem exec_of_loads {s : State} {cookie sid : String} (h : loads s cookie sid = true) :
    ∃ es x s', Exec s (loadSsoSession smallDeps (some cookie)) es (some x) s' ∧ x.sid = sid := by
  unfold loads at h
  split at h
  · next es x s' hrun => exact ⟨es, x, s', exec_of_runLeft _ _ _ _ _ _ hrun, of_decide_eq_true h⟩
  · cases h

/-- The revocation of a session has completed. -/
def revoked (h : History) (sid : String) : Bool :=
  h.any fun y => match y.2 with | .sessionRevoked sid' => sid' = sid | _ => false

/-- A sid whose revocation passes the test was revoked. -/
theorem mem_of_revoked {h : History} {sid : String} (hrevoked : revoked h sid = true) :
    ∃ c, (c, Event.sessionRevoked sid) ∈ h := by
  rcases List.any_eq_true.mp hrevoked with ⟨⟨c, e⟩, hmem, he⟩
  cases e with
  | sessionRevoked sid' => exact ⟨c, of_decide_eq_true he ▸ hmem⟩
  | _ => cases he

end Tests

/-- In every run that meets the condition, once `revokeSessionBySid` has
    completed for an identifier, no cookie value loads a session with it. -/
theorem revoked_session_not_loaded (deps : Deps) (now : Int) (db : Identity)
    (p : Pool State Outside Event AuthCall Answer)
    (h : Reachable (authSystem deps) condition (State.start now db) p)
    (c : AuthCall) (sid : String) (hrevoked : (c, Event.sessionRevoked sid) ∈ p.trace)
    (cookie : Option String) (es : List Event) (x : SsoSession) (s' : State)
    (hload : Exec p.store (loadSsoSession deps cookie) es (some x) s') : x.sid ≠ sid := by
  rcases poolOk h with ⟨rs, _, hinv⟩
  rcases exec_loadSsoSession hload with ⟨value, _, hpresented⟩
  exact (hinv.gone sid (.inr ⟨c, hrevoked⟩)).2.2 _ x hpresented

/-- Two logins; one session is revoked while the other gets a code. -/
def revokeOneOfTwo : Moves :=
  loginMoves 0 pendingId1 cookie1 sid1 ++ loginMoves 2 pendingId2 cookie2 sid2 ++
  [.spawn (.authorize crmParams (some cookie2) browser)] ++ turns 4 9 ++
  [.run 4 (.random code1)] ++ turns 4 3 ++
  [.spawn (.revokeSessionBySid sid1 .userRevoked (some browser))] ++ turns 5 18 ++
  [.run 5 (.audit "event" true)] ++ turns 5 1 ++ turns 4 3

theorem other_session_loaded : ∃ p es x s',
    Reachable (authSystem smallDeps) condition smallStart p ∧
      (∃ c, (c, Event.sessionRevoked sid1) ∈ p.trace) ∧
      Exec p.store (loadSsoSession smallDeps (some cookie2)) es (some x) s' ∧ x.sid ≠ sid1 := by
  rcases reachable_of_play_any (authSystem smallDeps) (fun s h e => conditionTest s h e = true)
      smallStart revokeOneOfTwo (fun p => revoked p.trace sid1 && loads p.store cookie2 sid2)
      (by decide +kernel) with ⟨p, hp, htest⟩
  rcases Bool.and_eq_true_iff.mp htest with ⟨hrevoked, hloads⟩
  rcases mem_of_revoked hrevoked with ⟨c, hc⟩
  rcases exec_of_loads hloads with ⟨es, x, s', hload, _⟩
  have hp' := reachable_mono (fun _ _ _ => condition_of_test) hp
  exact ⟨p, es, x, s', hp', ⟨c, hc⟩, hload,
    revoked_session_not_loaded smallDeps 1000 smallIdentity p hp' c sid1 hc _ es x s' hload⟩

/-- An authorization request has loaded the session, the session is revoked,
    and the request issues its code and touches the session. -/
def touchAfterRevocation : Moves :=
  loginMoves 0 pendingId1 cookie1 sid1 ++
  [.spawn (.authorize crmParams (some cookie1) browser)] ++ turns 2 4 ++
  [.spawn (.revokeSessionBySid sid1 .userRevoked (some browser))] ++ turns 3 18 ++
  [.run 3 (.audit "event" true)] ++ turns 3 1 ++
  turns 2 5 ++ [.run 2 (.random code1)] ++ turns 2 6

/-- Without the condition a late touch brings the session back. -/
theorem touched_session_loaded : ∃ p c es x s',
    Reachable (authSystem smallDeps) anyStep smallStart p ∧
      (c, Event.sessionRevoked sid1) ∈ p.trace ∧
      Exec p.store (loadSsoSession smallDeps (some cookie1)) es (some x) s' ∧ x.sid = sid1 := by
  rcases reachable_of_play_any (authSystem smallDeps) anyStep
      smallStart touchAfterRevocation (fun p => revoked p.trace sid1 && loads p.store cookie1 sid1)
      (by decide +kernel) with ⟨p, hp, htest⟩
  rcases Bool.and_eq_true_iff.mp htest with ⟨hrevoked, hloads⟩
  rcases mem_of_revoked hrevoked with ⟨c, hc⟩
  rcases exec_of_loads hloads with ⟨es, x, s', hload, hsid⟩
  exact ⟨p, c, es, x, s', hp, hc, hload, hsid⟩

end Sandbox.Auth.Revocation
