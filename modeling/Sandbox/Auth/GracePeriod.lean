import Sandbox.Auth.PendingRecords

/-!
# The Time for a Second Factor

A login leaves its pending record for five minutes. Counting a refusal keeps
the record's end, but a registration that takes a secret saves the record
with five minutes of its own. A page that asks for a new secret every few
minutes keeps the record for as long as it likes, on a password that was
entered once.

If no record is saved again after the second of its login, then five minutes
after the login no call for it succeeds any more.

## Main definitions

* `loginSystem`: Logins and their second factor.
* `neverExtended`: The condition on the saves of a run.

## Theorems

* `login_ends`: Five minutes after the login no call succeeds.
-/

namespace Sandbox.Auth.GracePeriod

open Interleave Ttl PendingLogin

inductive LoginCall
  | login (credentials : CognitoCredentials) (environment : RequestEnvironment) (rid : String)
  | factor (call : MfaCall)
  deriving DecidableEq

def LoginCall.Answer : LoginCall → Type
  | .login .. => Except CognitoAuthError LoginOutcome
  | .factor call => call.Answer

/-- A call for a second factor does not get what it asks for. -/
def LoginCall.Fails : (c : LoginCall) → c.Answer → Prop
  | .login .., _ => False
  | .factor call, a => ¬ call.Succeeds a

/-- Any number of logins and their second factor. -/
def loginSystem (deps : Deps) :
    System State Outside Event LoginCall Change LoginCall.Answer where
  body
    | .login credentials environment rid => login deps credentials environment rid
    | .factor call => (mfaSystem deps).body call
  env := Change.apply

abbrev History : Type := List (LoginCall × Event)

/-- A record is saved under a key. -/
def savesAt (deps : Deps) (key : String) : Event → Bool
  | .pendingSaved pendingId => deps.keyOf pendingId = key
  | _ => false

/-- What is stored under a key lasts as long as if it were saved now. -/
def lastsAsLong (s : State) (key : String) : Bool :=
  (s.mfaPending key).any fun e => s.now + mfaPendingTtl ≤ e.expiresAt

/-- A record that was saved before is saved again only if that does not make
    it last longer. -/
def neverExtended (deps : Deps) : Guard State Event LoginCall
  | s, h, .pendingSaved pendingId =>
      (h.any fun x => savesAt deps (deps.keyOf pendingId) x.2) = true →
        lastsAsLong s (deps.keyOf pendingId) = true
  | _, _, _ => True

instance (deps : Deps) (s : State) (h : History) (e : Event) :
    Decidable (neverExtended deps s h e) := by
  unfold neverExtended
  split <;> infer_instance

/-- A key was saved, and what it leads to ends in time. -/
structure Inv (deps : Deps) (key : String) (deadline : Int) (s : State) (h : History) :
    Prop where
  saved : (h.any fun x => savesAt deps key x.2) = true
  ends : ∀ e, s.mfaPending key = some e → e.expiresAt ≤ deadline

section Runs

variable {deps : Deps} {key pendingId : String} {deadline : Int} {s s' : State} {h : History}
  {call : LoginCall} {guard : Guard State Event LoginCall} {init : State}
  {p q : Pool State Outside Event LoginCall LoginCall.Answer}

theorem effects_loginSystem (call : LoginCall) :
    Effects (PendingStep deps True) ((loginSystem deps).body call) := by
  cases call with
  | login credentials environment rid => exact effects_login trivial _ _
  | factor call => exact effects_mfa trivial call

/-- What a save leaves under its key. -/
theorem entry_of_saved {saving : Prop} {e : Entry MfaPending}
    (hR : PendingStep deps saving s (some (.pendingSaved pendingId)) s')
    (he : s'.mfaPending (deps.keyOf pendingId) = some e) :
    e.expiresAt = s.now + mfaPendingTtl := by
  cases hR with
  | aside hevent _ _ => exact absurd rfl (hevent _ rfl)
  | asked hx => cases hx
  | saved _ _ pending =>
      have heq := (put_self _ _ _).symm.trans he
      cases heq
      rfl

theorem Inv.silent (hi : Inv deps key deadline s h) (hR : PendingStep deps True s none s') :
    Inv deps key deadline s' h := by
  refine ⟨hi.saved, fun new hnew => ?_⟩
  rcases hR.entry (fun _ heq => by cases heq) hnew with ⟨old, hold, hends, _⟩
  rw [hends]
  exact hi.ends old hold

theorem Inv.event {x : Event} (hi : Inv deps key deadline s h)
    (hguard : neverExtended deps s h x) (hR : PendingStep deps True s (some x) s') :
    Inv deps key deadline s' ((call, x) :: h) := by
  have hsaved : (List.any ((call, x) :: h) fun x => savesAt deps key x.2) = true := by
    rw [List.any_cons, hi.saved, Bool.or_true]
  refine ⟨hsaved, fun new hnew => ?_⟩
  by_cases hx : savesAt deps key x = true
  · -- The record was saved before, so it lasted as long already.
    cases x with
    | pendingSaved pendingId =>
        have hkey : deps.keyOf pendingId = key := of_decide_eq_true hx
        subst hkey
        rcases (Option.any_eq_true _ _).mp (hguard hi.saved) with ⟨old, hold, hle⟩
        rw [entry_of_saved hR hnew]
        exact Int.le_trans (of_decide_eq_true hle) (hi.ends old hold)
    | _ => cases hx
  -- The step saves no record of this key, so the entry is the old one.
  · have hsave : ∀ id, some x = some (.pendingSaved id) → deps.keyOf id ≠ key := by
      rintro id heq rfl
      cases heq
      exact hx (decide_eq_true rfl)
    rcases hR.entry hsave hnew with ⟨old, hold, hends, _⟩
    rw [hends]
    exact hi.ends old hold

theorem Inv.change {t : Change} (hi : Inv deps key deadline s h) (ht : t.apply s = some s') :
    Inv deps key deadline s' h := by
  rcases apply_cases ht with ⟨seconds, rfl⟩ | ⟨db, _, _, rfl⟩
  · exact ⟨hi.saved, hi.ends⟩
  · exact ⟨hi.saved, hi.ends⟩

theorem Inv.run (hi : Inv deps key deadline p.store p.trace)
    (hp : Reachable (loginSystem deps) (neverExtended deps) init p)
    (hpq : Relation.ReflTransGen (PoolStep (loginSystem deps) (neverExtended deps)) p q) :
    Inv deps key deadline q.store q.trace :=
  run_effects (I := Inv deps key deadline) effects_loginSystem (fun _ _ _ hR hi => hi.silent hR)
    (fun _ _ _ _ _ hguard hR hi => hi.event hguard hR) (fun _ _ _ _ ht hi => hi.change ht) hp hi hpq

/-- The clock does not go back. -/
theorem now_le_of_run (hp : Reachable (loginSystem deps) guard init p)
    (hle : deadline ≤ p.store.now)
    (hpq : Relation.ReflTransGen (PoolStep (loginSystem deps) guard) p q) :
    deadline ≤ q.store.now := by
  refine run_effects (I := fun s _ => deadline ≤ s.now) effects_loginSystem ?_ ?_ ?_ hp hle hpq
  · intro s s' hist hR hle
    rwa [hR.now]
  · intro call x s s' hist _ hR hle
    rwa [hR.now]
  · intro t s s' hist ht hle
    rcases apply_cases ht with ⟨seconds, rfl⟩ | ⟨db, _, _, rfl⟩
    · have hlater : s.now ≤ s.now + seconds := by omega
      exact Int.le_trans hle hlater
    · exact hle

/-- After the deadline the record cannot be read. -/
theorem Inv.not_stored (hi : Inv deps (deps.keyOf pendingId) deadline s h)
    (hlate : deadline ≤ s.now) : ¬ Stored deps s pendingId := by
  intro hstored
  rcases Option.isSome_iff_exists.mp hstored with ⟨pending, hget⟩
  rcases get_eq_some.mp hget with ⟨e, he, hlt, _⟩
  have hends := hi.ends e he
  omega

/-- What a save begins. -/
theorem Inv.begin (hp : Reachable (loginSystem deps) guard init p)
    (hstep : PoolStep (loginSystem deps) guard p q)
    (htrace : q.trace = (call, .pendingSaved pendingId) :: p.trace) :
    Inv deps (deps.keyOf pendingId) (p.store.now + mfaPendingTtl) q.store q.trace := by
  rcases poolStep_effects (effects_of_reachable effects_loginSystem hp) hstep with
    ⟨hsame, _⟩ | ⟨call', x, hcons, _, hR⟩
  · have hlength := congrArg List.length (hsame.symm.trans htrace)
    simp at hlength
  · rw [htrace] at hcons ⊢
    cases hcons
    refine ⟨by simp [savesAt], fun e he => ?_⟩
    exact Int.le_of_eq (entry_of_saved hR he)

end Runs

/-- In every run in which no save makes a record last longer: from five minutes
    after a login saved its pending record on, no call for that record that
    begins then succeeds. -/
theorem login_ends (deps : Deps) (init : State)
    (p₀ p₁ p q : Pool State Outside Event LoginCall LoginCall.Answer)
    (hp₀ : Reachable (loginSystem deps) (neverExtended deps) init p₀)
    (hlogin : PoolStep (loginSystem deps) (neverExtended deps) p₀ p₁)
    (credentials : CognitoCredentials) (environment : RequestEnvironment) (rid pendingId : String)
    (htrace : p₁.trace =
      (.login credentials environment rid, .pendingSaved pendingId) :: p₀.trace)
    (hrun : Relation.ReflTransGen (PoolStep (loginSystem deps) (neverExtended deps)) p₁ p)
    (hlate : p₀.store.now + mfaPendingTtl ≤ p.store.now)
    (hlast : Relation.ReflTransGen (PoolStep (loginSystem deps) (neverExtended deps)) p q)
    (i : Nat) (hi : NotBegun (loginSystem deps) p i) (call : MfaCall)
    (hcall : call.pendingId = pendingId) (a : call.Answer)
    (hanswer : q.threads[i]? = some ⟨.factor call, .done a⟩) : ¬ call.Succeeds a := by
  have hp₁ := hp₀.tail hlogin
  have hp := hp₁.trans hrun
  have hinv := (Inv.begin hp₀ hlogin htrace).run hp₁ hrun
  -- From here on the record cannot be read.
  have hgone : ∀ r, Relation.ReflTransGen
      (PoolStep (loginSystem deps) (neverExtended deps)) p r →
      ¬ Stored deps r.store pendingId := by
    intro r hpr
    exact (hinv.run hp hpr).not_stored (now_le_of_run hp hlate hpr)
  subst hcall
  have hdismissed := dismissed_of_notBegun
    (Q := LoginCall.Fails) (K := (· = .factor call))
    (G := fun s => ¬ Stored deps s call.pendingId) hgone ?_ hi hlast _ hanswer rfl
  · rcases hdismissed with hstart | ⟨b, hdone, hfails⟩
    · exact absurd hstart.symm (body_ne_done call a)
    · cases hdone
      exact hfails
  · rintro c s e s' p' rfl hnot hstep
    exact ⟨_, (step_expired hnot hstep).2, call.not_succeeds_expired⟩

section Example

/-- A login in four parts: up to the save of its record, the save, up to a
    later time, and on from there. -/
theorem exists_late_run (guard : Guard State Event LoginCall) [∀ s h e, Decidable (guard s h e)]
    (init : State) (before : List (Move Outside LoginCall Change))
    (save : Move Outside LoginCall Change) (between after : List (Move Outside LoginCall Change))
    (test : Pool State Outside Event LoginCall LoginCall.Answer →
      Pool State Outside Event LoginCall LoginCall.Answer →
      Pool State Outside Event LoginCall LoginCall.Answer →
      Pool State Outside Event LoginCall LoginCall.Answer → Bool)
    (h : ((Pool.play (loginSystem smallDeps) guard ⟨init, [], []⟩ before).any fun p₀ =>
      (p₀.move (loginSystem smallDeps) guard save).any fun p₁ =>
        (p₁.play (loginSystem smallDeps) guard between).any fun p =>
          (p.play (loginSystem smallDeps) guard after).any (test p₀ p₁ p)) = true) :
    ∃ p₀ p₁ p q, Reachable (loginSystem smallDeps) guard init p₀ ∧
      PoolStep (loginSystem smallDeps) guard p₀ p₁ ∧
      Relation.ReflTransGen (PoolStep (loginSystem smallDeps) guard) p₁ p ∧
      Relation.ReflTransGen (PoolStep (loginSystem smallDeps) guard) p q ∧
      test p₀ p₁ p q = true := by
  rcases (Option.any_eq_true _ _).mp h with ⟨p₀, hp₀, h⟩
  rcases (Option.any_eq_true _ _).mp h with ⟨p₁, hp₁, h⟩
  rcases (Option.any_eq_true _ _).mp h with ⟨p, hp, h⟩
  rcases (Option.any_eq_true _ _).mp h with ⟨q, hq, htest⟩
  exact ⟨p₀, p₁, p, q, reachable_of_play _ _ _ _ _ hp₀, poolStep_of_move _ _ _ _ _ hp₁,
    run_of_play _ _ _ _ _ hp, run_of_play _ _ _ _ _ hq, htest⟩

def aliceLogin : LoginCall := .login ⟨"alice@example.com", "password"⟩ browser ""

def aliceSetup : MfaCall := .setup pendingId1 "123456" browser

/-- A number of steps of one call that need nothing but an audit record. -/
def steps (index count : Nat) : List (Move Outside LoginCall Change) :=
  List.replicate count (.run index (.audit "event" true))

/-- Alice has no factor registered yet. -/
def passwordMoves : List (Move Outside LoginCall Change) :=
  [.spawn aliceLogin,
    .run 0 (.authenticated (.ok (.authenticated
      ⟨"alice-sub", "alice@example.com", none, cognitoTokens⟩))),
    .run 0 (.random "iv"), .run 0 (.random pendingId1)]

/-- A registration page takes a secret. Replacing one takes two steps more. -/
def pageMoves (index replacing : Nat) : List (Move Outside LoginCall Change) :=
  [.spawn (.factor (.begin pendingId1 false))] ++ steps index 2 ++
    [.run index (.secret (.ok "SECRET"))] ++ steps index replacing ++
    [.run index (.random "iv")] ++ steps index 1

/-- A code is sent in and accepted. -/
def setupMoves (index : Nat) : List (Move Outside LoginCall Change) :=
  [.spawn (.factor aliceSetup)] ++ steps index 2 ++
    [.run index (.done (.ok ())), .run index (.done (.ok ()))] ++ steps index 5 ++
    [.run index (.random cookie1), .run index (.random sid1), .run index (.random "iv")] ++
    steps index 9

/-- The record of a login was just saved. -/
def savedNow (p₀ p₁ : Pool State Outside Event LoginCall LoginCall.Answer) : Bool :=
  match p₁.trace with
  | (call, .pendingSaved pendingId) :: h =>
      call = aliceLogin ∧ pendingId = pendingId1 ∧ h.length = p₀.trace.length
  | _ => false

theorem trace_of_savedNow {guard : Guard State Event LoginCall}
    {p₀ p₁ : Pool State Outside Event LoginCall LoginCall.Answer}
    (hstep : PoolStep (loginSystem smallDeps) guard p₀ p₁) (h : savedNow p₀ p₁ = true) :
    p₁.trace = (aliceLogin, .pendingSaved pendingId1) :: p₀.trace := by
  unfold savedNow at h
  split at h
  · next call pendingId hist heq =>
      rcases of_decide_eq_true h with ⟨rfl, rfl, hlength⟩
      rcases trace_of_poolStep hstep with hsame | ⟨y, hcons⟩
      · rw [heq] at hsame
        rw [← hsame, List.length_cons] at hlength
        omega
      · rw [heq] at hcons
        rw [heq, (List.cons.inj hcons).2]
  · cases h

/-- How the registration at an index was answered. -/
def setupAnswer (index : Nat) (q : Pool State Outside Event LoginCall LoginCall.Answer) :
    Option (Except MfaFlowError MfaCompleted) :=
  match q.threads[index]? with
  | some ⟨.factor (.setup pendingId _ _), prog⟩ =>
      if pendingId = pendingId1 then prog.answer else none
  | _ => none

theorem answered_of_setupAnswer {index : Nat} {a : Except MfaFlowError MfaCompleted}
    {q : Pool State Outside Event LoginCall LoginCall.Answer} (h : setupAnswer index q = some a) :
    ∃ code environment,
      q.threads[index]? = some ⟨.factor (.setup pendingId1 code environment), .done a⟩ := by
  unfold setupAnswer at h
  split at h
  · next pendingId code environment prog heq =>
      by_cases hid : pendingId = pendingId1
      · subst hid
        have hprog := eq_done_of_answer ((if_pos rfl).symm.trans h)
        refine ⟨code, environment, heq.trans ?_⟩
        rw [hprog]
      · have hnone := (if_neg hid).symm.trans h
        cases hnone
  · cases h

theorem notBegun_of_length {p : Pool State Outside Event LoginCall LoginCall.Answer} {i : Nat}
    (h : p.threads.length ≤ i) : NotBegun (loginSystem smallDeps) p i := by
  intro t ht
  rw [List.getElem?_eq_none h] at ht
  cases ht

/-- Alice opens the registration page at once and sends in a code five minutes
    after her password. -/
theorem late_setup_fails : ∃ p₀ p q a,
    Reachable (loginSystem smallDeps) (neverExtended smallDeps) smallStart p₀ ∧
    p₀.store.now + mfaPendingTtl ≤ p.store.now ∧
    Relation.ReflTransGen (PoolStep (loginSystem smallDeps) (neverExtended smallDeps)) p q ∧
    setupAnswer 2 q = some a ∧ ¬ ∃ completed, a = .ok completed := by
  rcases exists_late_run (neverExtended smallDeps) smallStart passwordMoves
    (.run 0 (.audit "" false)) (pageMoves 1 0 ++ [.env (.tick 300)])
    (.spawn (.factor aliceSetup) :: steps 2 1)
    (fun p₀ p₁ p q => savedNow p₀ p₁ && decide (p₀.store.now + mfaPendingTtl ≤ p.store.now) &&
      decide (p.threads.length ≤ 2) && (setupAnswer 2 q).isSome) (by decide +kernel)
    with ⟨p₀, p₁, p, q, hp₀, hstep, hrun, hlast, htest⟩
  simp only [Bool.and_eq_true, decide_eq_true_eq, Option.isSome_iff_exists] at htest
  rcases htest with ⟨⟨⟨hsaved, hlate⟩, hlength⟩, a, ha⟩
  rcases answered_of_setupAnswer ha with ⟨code, environment, hanswer⟩
  refine ⟨p₀, p, q, a, hp₀, hlate, hlast, ha, ?_⟩
  exact login_ends smallDeps smallStart p₀ p₁ p q hp₀ hstep _ _ _ _
    (trace_of_savedNow hstep hsaved) hrun hlate hlast 2 (notBegun_of_length hlength)
    (.setup pendingId1 code environment) rfl a hanswer

/-- She opens the page again after three minutes, and the code she sends in
    five and a half minutes after her password is accepted. -/
theorem late_setup_succeeds : ∃ p₀ p₁ p q call,
    ∃ a : MfaCall.Answer call, ∃ i,
    Reachable (loginSystem smallDeps) anyStep smallStart p₀ ∧
    PoolStep (loginSystem smallDeps) anyStep p₀ p₁ ∧
    p₁.trace = (aliceLogin, .pendingSaved pendingId1) :: p₀.trace ∧
    Relation.ReflTransGen (PoolStep (loginSystem smallDeps) anyStep) p₁ p ∧
    p₀.store.now + mfaPendingTtl ≤ p.store.now ∧
    Relation.ReflTransGen (PoolStep (loginSystem smallDeps) anyStep) p q ∧
    NotBegun (loginSystem smallDeps) p i ∧ call.pendingId = pendingId1 ∧
    q.threads[i]? = some ⟨.factor call, .done a⟩ ∧ call.Succeeds a := by
  rcases exists_late_run anyStep smallStart passwordMoves (.run 0 (.audit "" false))
    (pageMoves 1 0 ++ [.env (.tick 200)] ++ pageMoves 2 2 ++ [.env (.tick 130)]) (setupMoves 3)
    (fun p₀ p₁ p q => savedNow p₀ p₁ && decide (p₀.store.now + mfaPendingTtl ≤ p.store.now) &&
      decide (p.threads.length ≤ 3) && (setupAnswer 3 q).any fun a => a.isOk) (by decide +kernel)
    with ⟨p₀, p₁, p, q, hp₀, hstep, hrun, hlast, htest⟩
  simp only [Bool.and_eq_true, decide_eq_true_eq, Option.any_eq_true] at htest
  rcases htest with ⟨⟨⟨hsaved, hlate⟩, hlength⟩, a, ha, hok⟩
  rcases answered_of_setupAnswer ha with ⟨code, environment, hanswer⟩
  have hsucceeds : ∃ completed, a = .ok completed := by
    cases a with
    | error e => cases hok
    | ok completed => exact ⟨completed, rfl⟩
  exact ⟨p₀, p₁, p, q, .setup pendingId1 code environment, a, 3, hp₀, hstep,
    trace_of_savedNow hstep hsaved, hrun, hlate, hlast, notBegun_of_length hlength, rfl, hanswer,
    hsucceeds⟩

end Example

end Sandbox.Auth.GracePeriod
