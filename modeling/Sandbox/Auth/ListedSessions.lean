import Sandbox.Auth.Installation
import Sandbox.Auth.SessionRecords

/-!
# Listed Sessions

A user's sessions are listed from the database, where each has a record, while
a session lives in the volatile store. The list is right if every record that
is not revoked and within its limits has its session there.

Creating, touching, expiring and revoking keep it so, since they treat both
sides alike or only when the record is past its limits too. A login in a
browser that still holds a session does not: it ends the old session and leaves
its record as it is. So the list is right after every run in which no login
replaces a session, and one such login is enough to make it wrong.

## Main definitions

* `Listed`: Every active record has its session.
* `ReplacesNone`: No login replaces a session.

## Theorems

* `Listed.step`: Every step but the end of a replaced session keeps the list
  right.
* `listed_sessions_live`: The list is right after every run in which no login
  replaces a session.
* `second_login_lists_dead_session`: A login that does.
-/

namespace Sandbox.Auth.ListedSessions

open Interleave Ttl

/-- Every record that is active has its session. -/
def Listed (s : State) : Prop :=
  ∀ r ∈ s.sessions, Sessions.isActive r s.now = true →
    ∃ key x, s.presented key = some x ∧ x.sid = r.id

/-- The session that is left is not there. -/
def Vacant (leaving : Option String) (s : State) : Prop :=
  ∀ key, leaving = some key → s.presented key = none

theorem isActive_iff {r : AuthSessionRecord} {now : Int} :
    Sessions.isActive r now = true ↔ r.revokedAt = none ∧
      now < r.lastSeenAt + ssoExpiry.idleSeconds ∧
        now < r.createdAt + ssoExpiry.absoluteSeconds := by
  unfold Sessions.isActive
  exact decide_eq_true_iff

section Steps

variable {deps : Deps} {leaving : Option String} {s s' : State} {x : SsoSession} {key : String}

/-- Marking a record is no change of the volatile store. -/
theorem presented_marked {sid : String} (hmark : Marked sid s s') (key : String) :
    s'.presented key = s.presented key := by
  unfold State.presented
  rw [hmark.changes.now, show s'.ssoSessions = s.ssoSessions from
    hmark.changes.same .ssoSessions (by decide)]

/-- Looking for a session changes no record. -/
theorem records_sought {sid : String} (hsought : Sought sid s s') :
    s'.sessions = s.sessions ∧ s'.now = s.now := by
  cases hsought with
  | found _ _ hdrop => exact ⟨hdrop.changes.same .sessions (by decide), hdrop.changes.now⟩
  | missing _ hch => exact ⟨hch.same .sessions (by decide), hch.now⟩

/-- Nothing but a new session is presented that was not before. -/
theorem Vacant.step (hvacant : Vacant leaving s) (hstep : SessionStep deps leaving s s') :
    Vacant leaving s' := by
  -- A session that goes away presents none.
  have hdropped : ∀ {x : SsoSession} {s'}, Dropped x s s' → Vacant leaving s' := by
    intro x s' hdrop key hkey
    by_contra hsome
    rcases Option.ne_none_iff_exists'.mp hsome with ⟨y, hy⟩
    exact nomatch (hvacant key hkey).symm.trans (hdrop.presented_before hy).2
  intro key hkey
  cases hstep with
  | aside hch => exact (hch.presented key).trans (hvacant key hkey)
  | created hcreated hne =>
      refine (hcreated.presented_of_ne ?_).trans (hvacant key hkey)
      rintro rfl
      exact hne hkey
  | touched htouched hx =>
      refine (htouched.presented_of_ne ?_).trans (hvacant key hkey)
      rintro rfl
      exact nomatch hx.symm.trans (hvacant _ hkey)
  | expired hdrop => exact hdropped hdrop key hkey
  | ended hdrop => exact hdropped hdrop key hkey
  | revoked hsought hmark =>
      rw [presented_marked hmark]
      cases hsought with
      | missing _ hch => exact (hch.presented key).trans (hvacant key hkey)
      | found _ _ hdrop => exact hdropped hdrop key hkey

theorem Listed.aside (h : Listed s) (hch : Changes noSessions s s') : Listed s' := by
  intro r hr hactive
  rw [show s'.sessions = s.sessions from hch.same .sessions (by decide)] at hr
  rw [hch.now] at hactive
  rcases h r hr hactive with ⟨key, x, hx, hsid⟩
  exact ⟨key, x, (hch.presented key).trans hx, hsid⟩

/-- A new session comes with its record and replaces none in the store. -/
theorem Listed.created (h : Listed s) (hrec : Recorded deps s)
    (hinj : Function.Injective deps.keyOf) {a : CreatedSsoSession}
    (hcreated : Created deps a s s') : Listed s' := by
  intro r hr hactive
  rcases hcreated.sessions with ⟨environment, hrecords⟩
  rw [hrecords] at hr
  rw [hcreated.changes.now] at hactive
  rcases List.mem_append.mp hr with hr | hr
  · rcases h r hr hactive with ⟨key, x, hx, hsid⟩
    refine ⟨key, x, (hcreated.presented_of_ne ?_).trans hx, hsid⟩
    -- The new key is the digest of a cookie that was not given out yet.
    rintro rfl
    rcases hrec.stored hx with ⟨e, he, _, rfl⟩
    rcases (hrec.refers _ e he).cookie with ⟨v, hv, _, hkey⟩
    rw [hrec.presented_id hx] at hkey
    exact hcreated.freshCookie (hinj (hkey.trans hcreated.id) ▸ hv)
  · cases List.mem_singleton.mp hr
    exact ⟨_, _, hcreated.presented, rfl⟩

theorem Listed.touched (h : Listed s) (htouched : Touched x s s')
    (hx : s.presented x.id = some x) : Listed s' := by
  intro r' hr' hactive
  rcases htouched.sessions with ⟨environment, hrecords⟩
  rw [hrecords] at hr'
  rw [htouched.changes.now] at hactive
  rcases List.mem_map.mp hr' with ⟨r, hr, rfl⟩
  by_cases hid : r.id = x.sid
  · rw [if_pos hid]
    exact ⟨x.id, _, htouched.presented hx, hid.symm⟩
  · rw [if_neg hid] at hactive ⊢
    rcases h r hr hactive with ⟨key, y, hy, hsid⟩
    refine ⟨key, y, (htouched.presented_of_ne ?_).trans hy, hsid⟩
    rintro rfl
    cases hx.symm.trans hy
    exact hid hsid.symm

/-- A session that has expired is not presented, so no record leads to it. -/
theorem Listed.expired (h : Listed s) (hrec : Recorded deps s) (hdrop : Dropped x s s')
    (hx : Ttl.get s.ssoSessions s.now key = some x) (hexp : x.isExpired s.now = true) :
    Listed s' := by
  intro r hr hactive
  rw [show s'.sessions = s.sessions from hdrop.changes.same .sessions (by decide)] at hr
  rw [hdrop.changes.now] at hactive
  rcases h r hr hactive with ⟨key', y, hy, hsid⟩
  refine ⟨key', y, (hdrop.presented_of_ne ?_).trans hy, hsid⟩
  rcases get_eq_some.mp hx with ⟨e, he, _, rfl⟩
  rintro rfl
  have hy' := presented_eq_some.mp hy
  rw [hrec.id _ e he, hx] at hy'
  cases hy'.1
  exact Bool.false_ne_true (hy'.2.symm.trans hexp)

/-- The record of a session that is revoked is not active any more. -/
theorem Listed.revoked {s₁ : State} {sid : String} (h : Listed s) (hrec : Recorded deps s)
    (hsought : Sought sid s s₁) (hmark : Marked sid s₁ s') : Listed s' := by
  intro r' hr' hactive
  rcases hmark.sessions with ⟨reason, hrecords⟩
  rw [hrecords, (records_sought hsought).1] at hr'
  rw [hmark.changes.now, (records_sought hsought).2] at hactive
  rcases List.mem_map.mp hr' with ⟨r, hr, rfl⟩
  by_cases hmarked : r.id = sid ∧ r.revokedAt = none
  · rw [if_pos hmarked] at hactive
    exact nomatch (isActive_iff.mp hactive).1
  · rw [if_neg hmarked] at hactive ⊢
    rcases h r hr hactive with ⟨key, y, hy, hsid⟩
    refine ⟨key, y, (presented_marked hmark key).trans (hsought.presented hrec hy ?_), hsid⟩
    intro heq
    exact hmarked ⟨hsid.symm.trans heq, (isActive_iff.mp hactive).1⟩

/-- Every step keeps the list right, if no session is left. -/
theorem Listed.step (h : Listed s) (hrec : Recorded deps s)
    (hinj : Function.Injective deps.keyOf) (hvacant : Vacant leaving s)
    (hstep : SessionStep deps leaving s s') : Listed s' := by
  cases hstep with
  | aside hch => exact h.aside hch
  | created hcreated => exact h.created hrec hinj hcreated
  | touched htouched hx => exact h.touched htouched hx
  | expired hdrop hx hexp => exact h.expired hrec hdrop hx hexp
  | ended hdrop hkey hx => exact nomatch (hvacant _ hkey).symm.trans hx
  | revoked hsought hmark => exact h.revoked hrec hsought hmark

/-- A request keeps the list right, if it leaves no session. -/
theorem Listed.steps (h : Listed s) (hrec : Recorded deps s)
    (hinj : Function.Injective deps.keyOf) (hvacant : Vacant leaving s)
    (hsteps : Relation.ReflTransGen (SessionStep deps leaving) s s') : Listed s' := by
  -- Sound records, listed sessions and the vacant key hold of each step together.
  have hall : Recorded deps s' ∧ Listed s' ∧ Vacant leaving s' := by
    induction hsteps with
    | refl => exact ⟨hrec, h, hvacant⟩
    | tail _ hstep ih =>
        exact ⟨ih.1.step hinj hstep, ih.2.1.step ih.1 hinj ih.2.2 hstep, ih.2.2.step hstep⟩
  exact hall.2.1

/-- A record that is still active was so earlier, and its session has not
    expired either. -/
theorem Listed.tick (h : Listed s) (hrec : Recorded deps s) (seconds : Nat) :
    Listed { s with now := s.now + seconds } := by
  intro r hr hactive
  have hlimits := isActive_iff.mp hactive
  dsimp only at hlimits
  rcases h r hr (isActive_iff.mpr ⟨hlimits.1, by omega, by omega⟩) with ⟨key, x, hx, hsid⟩
  rcases get_eq_some.mp (presented_eq_some.mp hx).1 with ⟨e, he, hlive, rfl⟩
  rcases hrec.recorded key e he hlive with ⟨r', hr', hof⟩
  have hsame : r' = r := List.inj_on_of_nodup_map hrec.ids hr' hr (hof.id.trans hsid)
  subst hsame
  have hseen := hof.lastSeenAt
  have hcreated := hof.createdAt
  refine ⟨key, e.value, presented_eq_some.mpr ⟨get_eq_some.mpr ⟨e, he, ?_, rfl⟩, ?_⟩, hsid⟩
  -- The entry lasts as long as the record, which is active at the later time, too.
  · have hends := hrec.ends key e he
    change s.now + seconds < e.expiresAt
    omega
  · rw [← Bool.not_eq_true, SsoSession.isExpired, SessionExpiry.isExpired_iff]
    dsimp only
    omega

end Steps

section Runs

variable {deps : Deps} {s s' : State}

/-- A login that creates a session does not come with its cookie, nor with one
    that still presents a session. -/
def ReplacesNone (deps : Deps) (s : State) : Happening Event AuthCall Change Answer → Prop
  | .call c _ es => ∀ x, .sessionStored x ∈ es →
      ∀ key, c.leaving deps = some key → key ≠ x.id ∧ s.presented key = none
  | .env _ => True

/-- The list is right after a request. -/
theorem listed_call {c : AuthCall} {a : Answer c} {es : List Event}
    (hinj : Function.Injective deps.keyOf) (hok : ReplacesNone deps s (.call c a es))
    (hrec : Recorded deps s) (h : Listed s) (hexec : Exec s (AuthCall.body deps c) es a s') :
    Recorded deps s' ∧ Listed s' := by
  have hE : ∀ e ∈ es, notLeaving deps c e := by
    rintro e he x rfl heq
    exact (hok x he x.id heq).1 rfl
  rcases steps_of_exec hinj hrec hexec hE with ⟨leaving, hst, hleaving⟩
  refine ⟨hst.2, h.steps hrec hinj (fun key hkey => ?_) hst.1⟩
  rcases hleaving key hkey with ⟨hc, x, hx⟩
  exact (hok x hx key hc).2

/-- The list is right after every run in which no login replaces a session. -/
theorem listed_of_runs {now : Int} {db : Identity}
    {ls : List (Happening Event AuthCall Change Answer)} (hinj : Function.Injective deps.keyOf)
    (h : RunsWhile (authSystem deps) (ReplacesNone deps) (State.start now db) ls s) :
    Recorded deps s ∧ Listed s := by
  refine h.induct (I := fun s => Recorded deps s ∧ Listed s) ?_ ?_ ⟨recorded_start now db, nofun⟩
  · exact fun c a es s s' hok hs hexec => listed_call hinj hok hs.1 hs.2 hexec
  · intro t s s' _ hs ht
    refine ⟨recorded_env ht hs.1, ?_⟩
    rcases apply_cases ht with ⟨seconds, rfl⟩ | ⟨db, _, _, rfl⟩
    · exact hs.2.tick hs.1 seconds
    · exact hs.2

/-- The list holds the active records of the user. -/
theorem exec_listActiveByUser {userId : String} {es : List Event}
    {listed : List AuthSessionWithClients}
    (h : Exec s (Sessions.listActiveByUser userId) es listed s') :
    s' = s ∧ ∀ row ∈ listed, row.record ∈ s.sessions ∧ row.record.userId = userId ∧
      Sessions.isActive row.record s.now = true := by
  rcases exec_bind h with ⟨records, s₁, _, _, hread, hattach, _⟩
  rcases exec_read hread with ⟨_, hrecords, rfl⟩
  rcases exec_read hattach with ⟨_, rfl, rfl⟩
  refine ⟨rfl, fun row hrow => ?_⟩
  rcases List.mem_map.mp hrow with ⟨r, hr, rfl⟩
  rw [hrecords, List.mem_insertionSort, List.mem_filter] at hr
  rcases hr with ⟨hmem, hcond⟩
  rcases of_decide_eq_true hcond with ⟨huser, hactive⟩
  exact ⟨hmem, huser, hactive⟩

/-- A cookie whose digest presents a session loads it. -/
theorem exists_load {value : String} {x : SsoSession} (hne : value ≠ "")
    (hx : s.presented (deps.keyOf value) = some x) :
    Exec s (loadSsoSession deps (some value)) [] (some x) s := by
  rcases presented_eq_some.mp hx with ⟨hget, hexpired⟩
  unfold loadSsoSession
  dsimp only
  rw [if_neg hne]
  refine exec_of_read (.ulid "") ?_
  dsimp only [ssoSessions]
  rw [hget]
  refine exec_of_read (.ulid "") ?_
  change Exec s (if x.isExpired s.now = true then _ else pure (some x)) [] (some x) s
  rw [if_neg (by rw [hexpired]; exact nofun)]
  exact .done

/-- A record has a session that some cookie still loads. -/
def Live (deps : Deps) (s : State) (r : AuthSessionRecord) : Prop :=
  ∃ value ∈ s.issued, ∃ x, x.sid = r.id ∧ s.presented (deps.keyOf value) = some x ∧
    (∃ es s', Exec s (loadSsoSession deps (some value)) es (some x) s') ∧
    ∀ es a s', Exec s (loadSsoSession deps (some value)) es a s' → a = some x

/-- After every run of requests that do not overlap, in which no login replaces
    a session, every record in a user's list has its session, and its cookie
    loads it. -/
theorem listed_sessions_live (deps : Deps) (hinj : Function.Injective deps.keyOf) (now : Int)
    (db : Identity) (ls : List (Happening Event AuthCall Change Answer)) (s : State)
    (h : RunsWhile (authSystem deps) (ReplacesNone deps) (State.start now db) ls s)
    (userId : String) (es : List Event) (listed : List AuthSessionWithClients) (s' : State)
    (hlist : Exec s (Sessions.listActiveByUser userId) es listed s') :
    s' = s ∧ ∀ row ∈ listed, row.record.userId = userId ∧ Live deps s row.record := by
  rcases listed_of_runs hinj h with ⟨hrec, hlisted⟩
  rcases exec_listActiveByUser hlist with ⟨hsame, hrows⟩
  refine ⟨hsame, fun row hrow => ?_⟩
  rcases hrows row hrow with ⟨hmem, huser, hactive⟩
  -- An active record is of a session that is presented, under the key of a cookie.
  rcases hlisted _ hmem hactive with ⟨key, x, hx, hsid⟩
  rcases hrec.stored hx with ⟨e, he, _, rfl⟩
  rcases (hrec.refers _ e he).cookie with ⟨value, hvalue, hne, hkey⟩
  rw [hrec.presented_id hx] at hkey
  subst hkey
  refine ⟨huser, value, hvalue, e.value, hsid, hx, ⟨_, _, exists_load hne hx⟩, ?_⟩
  intro es a s'' hload
  unfold loadSsoSession at hload
  dsimp only at hload
  rw [if_neg hne] at hload
  exact (exec_loadSsoSessionByKey hload).trans hx

end Runs

section Example

/-- Alice logs in with two browsers, and both her sessions are listed. -/
theorem both_browsers_listed : ∃ ls s es listed s',
    RunsWhile (authSystem smallDeps) (ReplacesNone smallDeps) smallStart ls s ∧
    Exec s (Sessions.listActiveByUser alice.id) es listed s' ∧ listed.length = 2 ∧
    ∀ row ∈ listed, Live smallDeps s row.record := by
  rcases exists_runs (authSystem smallDeps) (.ulid "") 60 smallStart
    (loginTurns pendingId1 cookie1 sid1 none ++ loginTurns pendingId2 cookie2 sid2 none)
    (fun r => r.1.all (fun l => match l with
        | .call c _ _ => (c.leaving smallDeps).isNone
        | .env _ => true) &&
      ((Sessions.listActiveByUser alice.id).runAlone (.ulid "") 5 [] r.2).any
        fun x => x.2.1.length = 2)
    (by decide +kernel) with ⟨ls, s, hruns, htest⟩
  simp only [Bool.and_eq_true, List.all_eq_true, Option.any_eq_true, decide_eq_true_eq] at htest
  rcases htest with ⟨hnone, ⟨es, listed, s'⟩, hrun, hlength⟩
  have hlist := exec_of_runAlone _ _ _ _ _ _ _ _ hrun
  have hwhile : RunsWhile (authSystem smallDeps) (ReplacesNone smallDeps) smallStart ls s := by
    refine runsWhile_of_runs hruns fun l hl s => ?_
    cases l with
    | env t => trivial
    | call c a es =>
        intro x _ key hkey
        have hc := hnone _ hl
        dsimp only at hc
        rw [hkey] at hc
        cases hc
  refine ⟨ls, s, es, listed, s', hwhile, hlist, hlength, fun row hrow => ?_⟩
  exact ((listed_sessions_live smallDeps smallDeps_keyOf_injective 1000 smallIdentity ls s hwhile
    alice.id es listed s' hlist).2 row hrow).2

/-- No call leaves a session that it has just made. -/
def leavesNoNew : Happening Event AuthCall Change Answer → Bool
  | .call c _ es => es.all fun
      | .sessionStored x => c.leaving smallDeps ≠ some x.id
      | _ => true
  | .env _ => true

theorem unguessed_of_leavesNoNew {l : Happening Event AuthCall Change Answer}
    (h : leavesNoNew l = true) : Unguessed smallDeps l := by
  cases l with
  | env t => trivial
  | call c a es =>
      rintro e he x rfl
      simp only [leavesNoNew, List.all_eq_true] at h
      exact of_decide_eq_true (h _ he)

/-- She logs in again in the same browser, and the list still has the session
    that was ended. -/
theorem second_login_lists_dead_session : ∃ ls s es listed s' row,
    Runs (authSystem smallDeps) smallStart ls s ∧
    Exec s (Sessions.listActiveByUser alice.id) es listed s' ∧ row ∈ listed ∧
    ¬ Live smallDeps s row.record := by
  rcases exists_runs (authSystem smallDeps) (.ulid "") 60 smallStart
    (loginTurns pendingId1 cookie1 sid1 none ++ loginTurns pendingId2 cookie2 sid2 (some cookie1))
    (fun r => r.1.all leavesNoNew &&
      ((Sessions.listActiveByUser alice.id).runAlone (.ulid "") 5 [] r.2).any
        fun x => x.2.1.any fun row => Ttl.get r.2.sidIndex r.2.now row.record.id = none)
    (by decide +kernel) with ⟨ls, s, hruns, htest⟩
  simp only [Bool.and_eq_true, List.all_eq_true, Option.any_eq_true, List.any_eq_true,
    decide_eq_true_eq] at htest
  rcases htest with ⟨hall, ⟨es, listed, s'⟩, hrun, row, hrow, hgone⟩
  refine ⟨ls, s, es, listed, s', row, hruns, exec_of_runAlone _ _ _ _ _ _ _ _ hrun, hrow, ?_⟩
  have hrec : Recorded smallDeps s := recorded_of_runs smallDeps_keyOf_injective hruns
    fun l hl => unguessed_of_leavesNoNew (hall l hl)
  -- A session with the `sid` of the row would be found through the index.
  rintro ⟨value, _, x, hsid, hx, _⟩
  rcases get_eq_some.mp (presented_eq_some.mp hx).1 with ⟨e, he, hlive, rfl⟩
  have hindex := hrec.indexed _ e he hlive
  rw [hsid] at hindex
  exact nomatch hgone.symm.trans (get_eq_some.mpr ⟨_, hindex, hlive, rfl⟩)

end Example

end Sandbox.Auth.ListedSessions
