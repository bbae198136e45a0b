import Mathlib.Algebra.Order.Group.Multiset
import Sandbox.Web.Routing
import Sandbox.Web.Tenants

/-!
# One Session for One Login

A login is told from others by its nonce. In every interleaving of all
requests it is begun at most once, taken by a callback at most once, and at
most one session is created of it. Two callbacks with the same cookie, the
same state and the same code may run side by side.

What a request has drawn, it alone may store, and what it has taken, it alone
may enter with. Both are rights, and the invariant counts them with the events
that use them up. The store holds at most one login with a nonce, so taking it
leaves none.

## Main definitions

* `begins`, `takes`, `enters`: The events of a login.
* `Right`: What a request alone may do.
* `Inv`: How events, rights and stored logins are counted.

## Theorems

* `inv_draw`, `inv_store`, `inv_take`, `inv_enter`: The four steps.
* `safe_login`, `safe_callback`: The two requests that take them.
* `each_login_one_session`: The counts of every run.
-/

namespace Sandbox.Web.OneSession

open Interleave Ttl

variable {jose : Jose}

abbrev History (jose : Jose) : Type := List (WebCall jose × Event)

section Counting

/-- A login with this nonce was begun. -/
def begins (nonce : String) : Event → Bool
  | .preAuthStored _ _ pending => pending.nonce = nonce
  | _ => false

/-- A login with this nonce was taken. -/
def takes (nonce : String) : Event → Bool
  | .preAuthTaken _ _ (some pending) => pending.nonce = nonce
  | _ => false

/-- A session was created of an ID Token with this nonce. -/
def enters (nonce : String) : Event → Bool
  | .sessionCreated _ claims => claims "nonce" = some (.string nonce)
  | _ => false

/-- The number of events of a kind. -/
def tally (test : Event → Bool) (h : History jose) : Nat := h.countP fun x => test x.2

theorem tally_cons (test : Event → Bool) (call : WebCall jose) (e : Event) (h : History jose) :
    tally test ((call, e) :: h) = tally test h + if test e then 1 else 0 := by
  unfold tally
  rw [List.countP_cons]

theorem tally_of_decide {test : Event → Bool} {e : Event} {P : Prop} [Decidable P]
    (he : test e = decide P) (call : WebCall jose) (h : History jose) :
    tally test ((call, e) :: h) = tally test h + if P then 1 else 0 := by
  rw [tally_cons, he]
  simp only [decide_eq_true_eq]

theorem tally_idle {test : Event → Bool} {e : Event} (he : test e = false) (call : WebCall jose)
    (h : History jose) : tally test ((call, e) :: h) = tally test h := by
  rw [tally_cons, he]
  rfl

end Counting

/-- What a request alone may do: to store a login with the nonce it has drawn,
    or to create a session of the login it has taken. -/
inductive Right
  | begin (nonce : String)
  | enter (nonce : String)
  deriving DecidableEq

/-- A login with this nonce is stored. -/
def Waiting (s : WebState) (nonce : String) : Prop :=
  ∃ key e, s.preAuth key = some e ∧ e.value.nonce = nonce

/-- Rights are used once, and only one login with a nonce is stored. -/
structure Inv (R : Multiset Right) (s : WebState) (h : History jose) : Prop where
  entered : ∀ nonce, tally (enters nonce) h + R.count (.enter nonce) ≤ tally (takes nonce) h
  taken : ∀ nonce, tally (takes nonce) h ≤ tally (begins nonce) h
  waiting : ∀ nonce, Waiting s nonce → tally (takes nonce) h + 1 ≤ tally (begins nonce) h
  begun : ∀ nonce, tally (begins nonce) h + R.count (.begin nonce) ≤ 1
  fresh : ∀ nonce, nonce ∉ s.issued → tally (begins nonce) h + R.count (.begin nonce) = 0
  alone : ∀ key key' e e', s.preAuth key = some e → s.preAuth key' = some e' →
    e.value.nonce = e'.value.nonce → key = key'
  named : ∀ call session claims, (call, .sessionCreated session claims) ∈ h →
    ∃ nonce, claims "nonce" = some (.string nonce)

def protocol (jose : Jose) : Protocol (Multiset Right) WebState Event (WebCall jose) where
  guard := anyStep
  Inv := Inv

/-- The logins stay as they are. -/
def Quiet (s s' : WebState) : Prop := s'.preAuth = s.preAuth ∧ s.issued ⊆ s'.issued

/-- An event that is no part of a login. -/
def Plain : Event → Prop
  | .preAuthStored _ _ _ => False
  | .preAuthTaken _ _ (some _) => False
  | .sessionCreated _ _ => False
  | _ => True

section Steps

variable {R F : Multiset Right} {s s' : WebState} {h : History jose} {call : WebCall jose}
  {nonce : String}

theorem plain_begins {e : Event} (he : Plain e) (nonce : String) : begins nonce e = false := by
  cases e with
  | preAuthStored slug id pending => exact he.elim
  | _ => rfl

theorem plain_takes {e : Event} (he : Plain e) (nonce : String) : takes nonce e = false := by
  cases e with
  | preAuthTaken slug id found =>
      cases found with
      | none => rfl
      | some pending => exact he.elim
  | _ => rfl

theorem plain_enters {e : Event} (he : Plain e) (nonce : String) : enters nonce e = false := by
  cases e with
  | sessionCreated session claims => exact he.elim
  | _ => rfl

/-- Logins may be lost. -/
theorem Inv.fewer (hi : Inv R s h) (hissued : s.issued ⊆ s'.issued)
    (hstored : ∀ key e, s'.preAuth key = some e → s.preAuth key = some e) : Inv R s' h where
  entered := hi.entered
  taken := hi.taken
  waiting nonce := by
    rintro ⟨key, e, he, hnonce⟩
    exact hi.waiting nonce ⟨key, e, hstored key e he, hnonce⟩
  begun := hi.begun
  fresh nonce hnonce := hi.fresh nonce fun hmem => hnonce (hissued hmem)
  alone key key' e e' he he' := hi.alone key key' e e' (hstored key e he) (hstored key' e' he')
  named := hi.named

/-- The invariant holds on where nothing is added. -/
theorem Inv.quiet (hi : Inv R s h) (hs : Quiet s s') : Inv R s' h :=
  hi.fewer hs.2 fun _ _ he => hs.1 ▸ he

theorem Inv.plain {e : Event} (hi : Inv R s h) (he : Plain e) : Inv R s ((call, e) :: h) := by
  have hbegins : ∀ nonce, tally (begins nonce) ((call, e) :: h) = tally (begins nonce) h :=
    fun nonce => tally_idle (plain_begins he nonce) call h
  have htakes : ∀ nonce, tally (takes nonce) ((call, e) :: h) = tally (takes nonce) h :=
    fun nonce => tally_idle (plain_takes he nonce) call h
  have henters : ∀ nonce, tally (enters nonce) ((call, e) :: h) = tally (enters nonce) h :=
    fun nonce => tally_idle (plain_enters he nonce) call h
  -- No count changes, so each part is as before.
  constructor
  · simp only [henters, htakes]
    exact hi.entered
  · simp only [hbegins, htakes]
    exact hi.taken
  · simp only [hbegins, htakes]
    exact hi.waiting
  · simp only [hbegins]
    exact hi.begun
  · simp only [hbegins]
    exact hi.fresh
  · exact hi.alone
  · intro call' session claims hmem
    rcases List.mem_cons.mp hmem with heq | hmem
    · cases heq
      exact he.elim
    · exact hi.named call' session claims hmem

/-- A request may give up what it holds. -/
theorem Inv.drop (hi : Inv (R + F) s h) : Inv F s h where
  entered nonce := by
    have hle := hi.entered nonce
    rw [Multiset.count_add] at hle
    omega
  taken := hi.taken
  waiting := hi.waiting
  begun nonce := by
    have hle := hi.begun nonce
    rw [Multiset.count_add] at hle
    omega
  fresh nonce hnonce := by
    have heq := hi.fresh nonce hnonce
    rw [Multiset.count_add] at heq
    omega
  alone := hi.alone
  named := hi.named

/-- Who draws a nonce may store a login with it. -/
theorem inv_draw (hi : Inv F s h) (hnew : nonce ∉ s.issued) :
    Inv ({.begin nonce} + F) { s with issued := nonce :: s.issued } h := by
  -- The call may begin one login with the new nonce.
  have hcount : ∀ n, ({.begin nonce} + F : Multiset Right).count (.begin n)
      = (if n = nonce then 1 else 0) + F.count (.begin n) := by
    intro n
    rw [Multiset.count_add, Multiset.count_singleton]
    by_cases hn : n = nonce
    · rw [if_pos hn, if_pos (congrArg Right.begin hn)]
    · rw [if_neg hn, if_neg fun heq => hn (Right.begin.inj heq)]
  refine ⟨fun n => ?_, hi.taken, hi.waiting, fun n => ?_, fun n hn => ?_, hi.alone, hi.named⟩
  · rw [Multiset.count_add, Multiset.count_singleton, if_neg nofun, Nat.zero_add]
    exact hi.entered n
  · rw [hcount]
    by_cases hn : n = nonce
    · -- It was drawn just now, so nothing of it is counted yet.
      have hzero := hi.fresh n (hn ▸ hnew)
      rw [if_pos hn]
      omega
    · rw [if_neg hn, Nat.zero_add]
      exact hi.begun n
  · have hne : n ≠ nonce := fun heq => hn (heq ▸ List.mem_cons_self)
    rw [hcount, if_neg hne, Nat.zero_add]
    exact hi.fresh n fun hmem => hn (List.mem_cons_of_mem _ hmem)

/-- A login that is stored is the only one with its nonce. -/
theorem inv_store {slug id key : String} {pending : PreAuthState} {ttl : Int}
    (hi : Inv ({.begin pending.nonce} + F) s h) :
    Inv F { s with preAuth := Ttl.set s.preAuth s.now key pending ttl }
      ((call, .preAuthStored slug id pending) :: h) := by
  have hzero : tally (begins pending.nonce) h = 0 := by
    have hle := hi.begun pending.nonce
    rw [Multiset.count_add, Multiset.count_singleton_self] at hle
    omega
  have htakes : ∀ n, tally (takes n) ((call, .preAuthStored slug id pending) :: h)
      = tally (takes n) h := fun n => tally_idle rfl call h
  have henters : ∀ n, tally (enters n) ((call, .preAuthStored slug id pending) :: h)
      = tally (enters n) h := fun n => tally_idle rfl call h
  have hbegins : ∀ n, tally (begins n) ((call, .preAuthStored slug id pending) :: h)
      = tally (begins n) h + if pending.nonce = n then 1 else 0 :=
    fun n => tally_of_decide rfl call h
  have hdrop := hi.drop
  -- Nothing else with this nonce is stored.
  have hnone : ¬ Waiting s pending.nonce := by
    intro hw
    have hle := hi.waiting _ hw
    omega
  refine ⟨fun n => ?_, fun n => ?_, fun n hw => ?_, fun n => ?_, fun n hn => ?_, ?_, ?_⟩
  · rw [henters, htakes]
    exact hdrop.entered n
  · rw [htakes, hbegins]
    exact Nat.le_add_right_of_le (hi.taken n)
  · rw [htakes, hbegins]
    rcases hw with ⟨k, e, he, hnonce⟩
    rcases put_eq_some he with ⟨_, rfl⟩ | ⟨_, hold⟩
    · rw [if_pos hnonce]
      exact Nat.add_le_add_right (hi.taken n) 1
    · exact Nat.le_add_right_of_le (hi.waiting n ⟨k, e, hold, hnonce⟩)
  · rw [hbegins]
    by_cases hn : pending.nonce = n
    · have hle := hi.begun n
      rw [Multiset.count_add, hn, Multiset.count_singleton_self] at hle
      rw [if_pos hn]
      omega
    · rw [if_neg hn]
      exact hdrop.begun n
  · have hzero' := hi.fresh n hn
    rw [Multiset.count_add, Multiset.count_singleton] at hzero'
    by_cases heq : pending.nonce = n
    · rw [if_pos (congrArg Right.begin heq.symm)] at hzero'
      omega
    · rw [hbegins, if_neg heq]
      omega
  · intro k k' e e' he he' hnonce
    rcases put_eq_some he with ⟨rfl, rfl⟩ | ⟨_, hold⟩
    · rcases put_eq_some he' with ⟨rfl, _⟩ | ⟨_, hold'⟩
      · rfl
      · exact absurd ⟨k', e', hold', hnonce.symm⟩ hnone
    · rcases put_eq_some he' with ⟨rfl, rfl⟩ | ⟨_, hold'⟩
      · exact absurd ⟨k, e, hold, hnonce⟩ hnone
      · exact hi.alone k k' e e' hold hold' hnonce
  · intro call' session claims hmem
    rcases List.mem_cons.mp hmem with heq | hmem
    · cases heq
    · exact hi.named call' session claims hmem

/-- Who takes a login may enter with it, and it is gone. -/
theorem inv_take {slug id key : String} {pending : PreAuthState} (hi : Inv F s h)
    (hget : Ttl.get s.preAuth s.now key = some pending) :
    Inv ({.enter pending.nonce} + F) { s with preAuth := Ttl.delete s.preAuth key }
      ((call, .preAuthTaken slug id (some pending)) :: h) := by
  rcases get_eq_some.mp hget with ⟨e, he, _, rfl⟩
  have hstored := hi.waiting _ ⟨key, e, he, rfl⟩
  have hbegins : ∀ n, tally (begins n) ((call, .preAuthTaken slug id (some e.value)) :: h)
      = tally (begins n) h := fun n => tally_idle rfl call h
  have henters : ∀ n, tally (enters n) ((call, .preAuthTaken slug id (some e.value)) :: h)
      = tally (enters n) h := fun n => tally_idle rfl call h
  have htakes : ∀ n, tally (takes n) ((call, .preAuthTaken slug id (some e.value)) :: h)
      = tally (takes n) h + if e.value.nonce = n then 1 else 0 :=
    fun n => tally_of_decide rfl call h
  have hcount : ∀ n, ({.enter e.value.nonce} + F : Multiset Right).count (.enter n)
      = (if e.value.nonce = n then 1 else 0) + F.count (.enter n) := by
    intro n
    rw [Multiset.count_add, Multiset.count_singleton]
    by_cases hn : e.value.nonce = n
    · rw [if_pos hn, if_pos (congrArg Right.enter hn.symm)]
    · rw [if_neg hn, if_neg fun heq => hn (Right.enter.inj heq).symm]
  have hbegin : ∀ n, ({.enter e.value.nonce} + F : Multiset Right).count (.begin n)
      = F.count (.begin n) := by
    intro n
    rw [Multiset.count_add, Multiset.count_singleton, if_neg nofun, Nat.zero_add]
  refine ⟨fun n => ?_, fun n => ?_, fun n hw => ?_, fun n => ?_, fun n hn => ?_, ?_, ?_⟩
  · have hle := hi.entered n
    rw [henters, htakes, hcount]
    omega
  · have hle := hi.taken n
    rw [htakes, hbegins]
    by_cases hn : e.value.nonce = n
    · rw [if_pos hn, ← hn]
      exact hstored
    · rw [if_neg hn]
      exact hle
  · rcases hw with ⟨k, e', he', hnonce⟩
    rcases delete_eq_some he' with ⟨hne, hold⟩
    have hn : e.value.nonce ≠ n :=
      -- Another one with this nonce would be at the same key.
      fun heq => hne (hi.alone k key e' e hold he (hnonce.trans heq.symm))
    rw [htakes, hbegins, if_neg hn]
    exact hi.waiting n ⟨k, e', hold, hnonce⟩
  · rw [hbegins, hbegin]
    exact hi.begun n
  · rw [hbegins, hbegin]
    exact hi.fresh n hn
  · intro k k' e₁ e₂ he₁ he₂
    exact hi.alone k k' e₁ e₂ (delete_eq_some he₁).2 (delete_eq_some he₂).2
  · intro call' session claims hmem
    rcases List.mem_cons.mp hmem with heq | hmem
    · cases heq
    · exact hi.named call' session claims hmem

/-- Who enters uses the right up. -/
theorem inv_enter {session : TenantSession} {claims : JWTPayload}
    (hi : Inv ({.enter nonce} + F) s h) (hclaims : claims "nonce" = some (.string nonce)) :
    Inv F s ((call, .sessionCreated session claims) :: h) := by
  have hbegins : ∀ n, tally (begins n) ((call, .sessionCreated session claims) :: h)
      = tally (begins n) h := fun n => tally_idle rfl call h
  have htakes : ∀ n, tally (takes n) ((call, .sessionCreated session claims) :: h)
      = tally (takes n) h := fun n => tally_idle rfl call h
  -- Only the count of this nonce goes up, and its right is used up.
  have henters : ∀ n, tally (enters n) ((call, .sessionCreated session claims) :: h)
      = tally (enters n) h + if nonce = n then 1 else 0 := by
    intro n
    refine tally_of_decide ?_ call h
    rw [enters, hclaims]
    simp only [Option.some.injEq, Claim.string.injEq]
  have hdrop := hi.drop
  refine ⟨fun n => ?_, fun n => ?_, fun n hw => ?_, fun n => ?_, fun n hn => ?_, hi.alone, ?_⟩
  · have hle := hi.entered n
    rw [Multiset.count_add, Multiset.count_singleton] at hle
    rw [henters, htakes]
    by_cases hn : nonce = n
    · rw [if_pos (congrArg Right.enter hn.symm)] at hle
      rw [if_pos hn]
      omega
    · rw [if_neg hn]
      omega
  · rw [htakes, hbegins]
    exact hi.taken n
  · rw [htakes, hbegins]
    exact hi.waiting n hw
  · rw [hbegins]
    exact hdrop.begun n
  · rw [hbegins]
    exact hdrop.fresh n hn
  · intro call' session' claims' hmem
    rcases List.mem_cons.mp hmem with heq | hmem
    · cases heq
      exact ⟨nonce, hclaims⟩
    · exact hi.named call' session' claims' hmem

end Steps

section Programs

variable {deps : WebDeps jose} {call : WebCall jose} {R : Multiset Right}
  {client : OidcClientConfig}

/-- The requests that are no part of a login leave the logins alone. -/
theorem routing_quiet :
    Routing (fun α (_ : Ignorance) (p : WebProg jose α) _ => Within Quiet Plain p)
      fun _ => .ignorant := by
  have hclosed : Closed fun α (p : WebProg jose α) => Within Quiet Plain p :=
    { pure := fun a => within_pure a
      bind := within_bind
      both := within_both
      all := fun h => within_all fun p hp => by
        rcases List.mem_map.mp hp with ⟨x, hx, rfl⟩
        exact h x hx }
  have hwrite : ∀ f : WebState → WebState, (∀ s, Quiet s (f s)) →
      Within Quiet Plain (Prog.write f : WebProg jose Unit) := fun f hf => within_write hf
  refine routing_of_closed hclosed ?_ ?_ ?_ ?_
  · refine fun hp => within_mono hp (fun s s' hs => ⟨hs.2.2.2.1, hs.2.2.2.2⟩) fun e he => ?_
    cases e with
    | preAuthStored _ _ _ | preAuthTaken _ _ _ | sessionCreated _ _ => exact he.elim
    | _ => trivial
  · exact fun session ttl => within_logged (fun _ => ⟨rfl, List.Subset.refl _⟩) fun _ => trivial
  · refine fun session => hclosed.bind (hclosed.both (hwrite _ fun _ => ?_) (hwrite _ fun _ => ?_))
      fun _ => within_logged (fun _ => ⟨rfl, List.Subset.refl _⟩) fun _ => trivial
    all_goals exact ⟨rfl, List.Subset.refl _⟩
  · refine fun sid => hclosed.bind (within_read fun _ => ⟨rfl, List.Subset.refl _⟩) fun keys => ?_
    refine hclosed.bind (hclosed.both (hclosed.all fun _ _ => hwrite _ fun _ => ?_)
      (hwrite _ fun _ => ?_)) fun _ => hclosed.bind
        (within_logged (fun _ => ⟨rfl, List.Subset.refl _⟩) fun _ => trivial) fun _ =>
          hclosed.pure _
    all_goals exact ⟨rfl, List.Subset.refl _⟩

/-- What leaves the logins alone keeps what is held. -/
theorem safe_quiet {α : Type} {p : WebProg jose α} (hp : Within Quiet Plain p) :
    Safe (protocol jose) call p R fun _ R' => R' = R :=
  safe_within hp (fun _ _ _ _ hs hi => Inv.quiet hi hs) (fun _ _ _ _ he hi => Inv.plain hi he) R

/-- A program after one that leaves the logins alone. -/
theorem safe_after {α β : Type} {p : WebProg jose α} {f : α → WebProg jose β}
    {Q : β → Multiset Right → Prop} (hp : Within Quiet Plain p)
    (hf : ∀ a, Safe (protocol jose) call (f a) R Q) : Safe (protocol jose) call (p >>= f) R Q := by
  refine safe_seq (safe_quiet hp) ?_
  rintro a _ rfl
  exact hf a

theorem quiet_aside {α : Type} {p : WebProg jose α} (hp : Within Unmoved Mute p) :
    Within Quiet Plain p :=
  routing_quiet.aside (k := .ignorant) hp

/-- A nonce that is drawn gives the right to begin one login. -/
theorem safe_randomToken :
    Safe (protocol jose) call (randomToken : WebProg jose String) 0 fun nonce R' =>
      R' = {.begin nonce} := by
  refine safe_ask fun F s h i b s' hi hrun => ?_
  rw [zero_add] at hi
  split at hrun
  · split at hrun
    · next v hv =>
        cases hrun
        exact ⟨_, inv_draw hi hv.2, rfl⟩
    · cases hrun
  · cases hrun

/-- A login stores what it has drawn. -/
theorem safe_login (returnTo : Option String) (context : TenantContext) :
    Safe (protocol jose) call (login deps returnTo context) 0 fun _ _ => True := by
  refine safe_after (quiet_aside unmoved_getDiscovery) fun discovery => ?_
  cases discovery with
  | error e => exact safe_pure trivial
  | ok endpoint =>
      refine safe_after (quiet_aside unmoved_randomToken) fun preAuthId =>
        safe_after (quiet_aside unmoved_randomToken) fun codeVerifier =>
        safe_after (quiet_aside unmoved_randomToken) fun state => ?_
      refine safe_seq safe_randomToken ?_
      rintro nonce _ rfl
      refine safe_seq (Q := fun _ R' => R' = 0) ?_ fun _ _ _ => safe_pure trivial
      refine safe_logged fun F s h hi _ => ⟨0, ?_, rfl⟩
      rw [zero_add]
      exact inv_store hi

/-- What a request may do with the login it has found. -/
def rightOf : Option PreAuthState → Multiset Right
  | none => 0
  | some pending => {.enter pending.nonce}

/-- A pre-auth entry that is taken gives the right to one session. -/
theorem safe_takePreAuth (cookie : Option String) :
    Safe (protocol jose) call (takePreAuth client cookie : WebProg jose _) 0 fun found R' =>
      R' = rightOf found := by
  cases cookie with
  | none => exact safe_pure rfl
  | some id =>
      refine safe_logged fun F s h hi _ => ?_
      rw [zero_add] at hi
      refine ⟨_, ?_, rfl⟩
      dsimp only [preAuth, Ttl.getAndDelete]
      cases hget : Ttl.get s.preAuth s.now (preAuthKey client id) with
      | none =>
          -- Nothing is taken, but what has ended may be dropped.
          rw [rightOf, zero_add]
          refine Inv.plain (hi.fewer (List.Subset.refl _) fun key e he => ?_) trivial
          exact (delete_eq_some he).2
      | some pending => exact inv_take hi hget

/-- The one creation uses the right up. -/
theorem safe_createSession {nonce : String} {claims : JWTPayload}
    (hclaims : claims "nonce" = some (.string nonce)) (input : NewSessionInput jose) :
    Safe (protocol jose) call (createSession claims input) {.enter nonce} fun _ _ => True := by
  refine safe_after (quiet_aside (unmoved_read _)) fun now =>
    safe_after (quiet_aside unmoved_randomToken) fun id =>
    safe_after (quiet_aside unmoved_randomToken) fun csrfToken => ?_
  refine safe_seq (Q := fun _ _ => True) ?_ fun _ _ _ => safe_pure trivial
  refine safe_mono (safe_both_keeps (Q := fun _ _ => True) ?_ ?_) fun _ _ _ => trivial
  · refine safe_logged fun F s h hi _ => ⟨0, ?_, trivial⟩
    rw [zero_add]
    exact Inv.quiet (inv_enter hi hclaims) ⟨rfl, List.Subset.refl _⟩
  · refine (safe_quiet ?_).keeps
    exact within_write fun _ => ⟨rfl, List.Subset.refl _⟩

/-- A session is opened with the right of the entry that was taken. -/
theorem safe_enterSession {cookie : Option String} {pending : PreAuthState} {claims : JWTPayload}
    (hclaims : claims "nonce" = some (.string pending.nonce)) (tokens : TokenResponse jose)
    (hslug : isSlug client.tenantSlug.toList = true) :
    Safe (protocol jose) call (enterSession client cookie pending claims tokens)
      {.enter pending.nonce} fun _ _ => True := by
  unfold enterSession
  split
  · split
    · exact safe_pure trivial
    · refine safe_after ?_ fun _ => ?_
      · refine within_bind (routing_quiet.loadSession (k := .ignorant) hslug cookie)
          fun existing => ?_
        cases existing with
        | none => exact within_pure _
        | some existing => exact routing_quiet.destroy (k := .ignorant) existing (le_refl _)
      · exact safe_seq (safe_createSession hclaims _) fun _ _ _ => safe_pure trivial
  · exact safe_pure trivial

/-- A callback enters with the login it has taken, if at all. -/
theorem safe_callback {cookie preAuthCookie : Option String} {query : CallbackQuery}
    {session : Option TenantSession} (hslug : isSlug client.tenantSlug.toList = true) :
    Safe (protocol jose) call (callback deps cookie preAuthCookie query ⟨client, session⟩) 0
      fun _ _ => True := by
  refine safe_seq (safe_takePreAuth preAuthCookie) ?_
  rintro found _ rfl
  cases found with
  | none => exact safe_pure trivial
  | some pending =>
      dsimp only [rightOf]
      -- An early end leaves the right unused.
      unfold answerCallback
      split
      · exact safe_pure trivial
      split
      · exact safe_pure trivial
      split
      · exact safe_pure trivial
      split
      · exact safe_pure trivial
      next code _ =>
      split
      · exact safe_pure trivial
      refine safe_after (quiet_aside (unmoved_exchangeCode _ _ _)) fun reply => ?_
      cases reply with
      | error e => exact safe_pure trivial
      | ok tokens =>
          dsimp only [verifyLogin]
          cases tokens.idToken with
          | none => exact safe_pure trivial
          | some idToken =>
              refine safe_after (quiet_aside unmoved_jwksSource) fun source =>
                safe_after (quiet_aside (unmoved_read _)) fun now => ?_
              split
              · exact safe_pure trivial
              -- The claims carry the nonce of the entry that was taken.
              · next claims hverified =>
                  exact safe_enterSession (OidcProvider.verifyIdToken_nonce hverified) tokens hslug

theorem safe_respond (deps : WebDeps jose) (call : WebCall jose) :
    Safe (protocol jose) call (respond deps call) 0 fun _ _ => True := by
  cases hcall : call.isOfLogin with
  | false =>
      exact safe_mono (safe_quiet (routing_quiet.respond (k := .ignorant)
          (fun _ => le_refl _) deps call
        hcall)) fun _ _ _ => trivial
  | true =>
      -- The middleware before a route touches neither entries nor counts.
      have hcontext : ∀ (host cookie : Option String) (next : TenantContext → WebProg jose Answer),
          (∀ client session, resolveClient deps host = some client →
            Safe (protocol jose) call (next ⟨client, session⟩) 0 fun _ _ => True) →
          Safe (protocol jose) call (tenantContext deps host cookie next) 0 fun _ _ => True := by
        intro host cookie next hnext
        unfold tenantContext
        cases hclient : resolveClient deps host with
        | none => exact safe_pure trivial
        | some client =>
            refine safe_after (routing_quiet.contextSession (k := .ignorant)
              (resolveClient_slug hclient) cookie) fun session => ?_
            exact safe_seq (hnext client session hclient) fun _ _ _ => safe_pure trivial
      cases call with
      | login host cookie returnTo =>
          exact hcontext host cookie _ fun _ _ _ => safe_login returnTo _
      | callback host cookie preAuthCookie query =>
          exact hcontext host cookie _ fun _ _ hclient => safe_callback (resolveClient_slug hclient)
      | _ => cases hcall

end Programs

theorem inv_start (now : Int) : Inv 0 (.start now) ([] : History jose) where
  entered _ := Nat.le_refl 0
  taken _ := Nat.le_refl 0
  waiting _ := fun ⟨_, _, he, _⟩ => nomatch he
  begun _ := Nat.zero_le 1
  fresh _ _ := rfl
  alone _ _ _ _ he := nomatch he
  named _ _ _ hmem := absurd hmem List.not_mem_nil

theorem inv_of_reachable {deps : WebDeps jose} {now : Int}
    {p : Pool WebState (Outside jose) Event (WebCall jose) fun _ => Answer}
    (h : Reachable (webSystem deps) anyStep (.start now) p) : ∃ R, Inv R p.store p.trace := by
  have hok : PoolOk (protocol jose) (fun _ _ _ => True) p := by
    refine poolOk_of_reachable (P := protocol jose) (fun call => safe_respond deps call) ?_ ?_ h
    · rintro R s hist seconds s' henv hi
      cases henv
      exact Inv.quiet hi ⟨rfl, List.Subset.refl _⟩
    · exact inv_start now
  rcases hok with ⟨rs, _, hinv⟩
  exact ⟨_, hinv⟩

/-- The counts do not depend on what is held. -/
theorem Inv.counted {R : Multiset Right} {s : WebState} {h : History jose} (hi : Inv R s h)
    (nonce : String) : tally (enters nonce) h ≤ tally (takes nonce) h ∧
      tally (takes nonce) h ≤ tally (begins nonce) h ∧ tally (begins nonce) h ≤ 1 := by
  have hentered := hi.entered nonce
  have hbegun := hi.begun nonce
  exact ⟨by omega, hi.taken nonce, by omega⟩

/-- In every run a login is begun at most once with a nonce, it is taken at
    most as often as it was begun, and at most as many sessions are created of
    it as it was taken. Every session is created of some login. -/
theorem each_login_one_session (deps : WebDeps jose) (now : Int)
    (p : Pool WebState (Outside jose) Event (WebCall jose) fun _ => Answer)
    (h : Reachable (webSystem deps) anyStep (.start now) p) :
    (∀ nonce, tally (enters nonce) p.trace ≤ tally (takes nonce) p.trace ∧
      tally (takes nonce) p.trace ≤ tally (begins nonce) p.trace ∧
      tally (begins nonce) p.trace ≤ 1) ∧
    ∀ call session claims, (call, .sessionCreated session claims) ∈ p.trace →
      ∃ nonce, claims "nonce" = some (.string nonce) := by
  rcases inv_of_reachable h with ⟨R, hinv⟩
  exact ⟨hinv.counted, hinv.named⟩

section Example

/-- A callback of the login whose id is the first random value. -/
def acmeCallback : WebCall openJose :=
  .callback (some "acme.crm.test") none (some (token32 'a'))
    ⟨some (token32 'c'), none, none, none, some "code"⟩

/-- Two callbacks with one cookie overlap, and one of them takes the login. -/
def twiceMoves : List (Move (Outside openJose) (WebCall openJose) Nat) :=
  [.spawn (.login (some "acme.crm.test") none none),
    .run 0 (.discovered (.ok "https://auth.test/authorize"))] ++
  ['a', 'b', 'c', 'd'].map (fun c => .run 0 (.random (token32 c))) ++
  [.run 0 .none, .spawn acmeCallback, .spawn acmeCallback, .run 1 .none, .run 2 .none, .run 1 .none,
    .run 1 (.tokens (.ok ⟨"A", 900, some acmeIdToken, "R"⟩)),
    .run 1 (.jwks fun _ => .ok ["key"]), .run 1 .none, .run 1 .none,
    .run 1 (.random (token32 'e')), .run 1 (.random (token32 'f')),
    .run 1 .none, .run 1 .none, .run 1 .none]

/-- One session is created. -/
theorem two_callbacks_one_session :
    ∃ p, Reachable (webSystem crmWeb) anyStep (.start 1000) p ∧
      tally (enters (token32 'd')) p.trace = 1 := by
  rcases reachable_of_play_any (webSystem crmWeb) anyStep (.start 1000) twiceMoves
    (fun p => decide (1 ≤ tally (enters (token32 'd')) p.trace)) (by decide +kernel) with
    ⟨p, hp, htest⟩
  have hone := of_decide_eq_true htest
  rcases (each_login_one_session crmWeb 1000 p hp).1 (token32 'd') with ⟨hentered, htaken, hbegun⟩
  exact ⟨p, hp, by omega⟩

end Example

end Sandbox.Web.OneSession
