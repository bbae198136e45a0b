import Mathlib.Algebra.Order.Group.Multiset
import Sandbox.Auth.Footprint
import Sandbox.Auth.Installation
import Sandbox.Interleave.Tokens

/-!
# Pending Logins

After the password, a login waits in a pending record for its second factor.
The record is read when a code comes in, and deleted once the user directory
has accepted the code. Two submissions that overlap may both read it, both
be accepted, and both create a session; a registration page that is renewed
may write the record back after it was deleted.

That is all that can go wrong. If every accepted submission deletes a record
that is still there, and a renewal writes only over one that is still there,
then a deletion takes the right to the one session of the record with it
(`Right.session`), and nobody can read the record again.

## Main definitions

* `mfaSystem`: The second factor.
* `onlyWhileStored`: The condition on the steps of a run.
* `Accepted`: What the directory must have answered before.
* `Right`: The resource of a call.

## Theorems

* `safe_acceptedDelete`: The right to a session comes with the deletion.
* `one_session_per_login`: One session, and only after an acceptance.
-/

namespace Sandbox.Auth.PendingLogin

open Interleave Ttl

inductive MfaCall
  | challenge (pendingId code : String) (environment : RequestEnvironment)
  | setup (pendingId code : String) (environment : RequestEnvironment)
  | begin (pendingId : String) (renew : Bool)
  deriving DecidableEq

def MfaCall.pendingId : MfaCall → String
  | .challenge pendingId _ _ => pendingId
  | .setup pendingId _ _ => pendingId
  | .begin pendingId _ => pendingId

def MfaCall.Answer : MfaCall → Type
  | .challenge .. => Except MfaFlowError MfaCompleted
  | .setup .. => Except MfaFlowError MfaCompleted
  | .begin .. => Except MfaFlowError TotpSetup

/-- The second factor of any number of logins. -/
def mfaSystem (deps : Deps) : System State Outside Event MfaCall Change MfaCall.Answer where
  body
    | .challenge pendingId code environment =>
        completeTotpChallenge deps pendingId code environment
    | .setup pendingId code environment => completeTotpSetup deps pendingId code environment
    | .begin pendingId renew => beginTotpSetup deps pendingId renew
  env := Change.apply

abbrev History : Type := List (MfaCall × Event)

/-- A pending record is there. -/
def Stored (deps : Deps) (s : State) (pendingId : String) : Prop :=
  (Ttl.get s.mfaPending s.now (deps.keyOf pendingId)).isSome = true

instance (deps : Deps) (s : State) (pendingId : String) : Decidable (Stored deps s pendingId) :=
  inferInstanceAs (Decidable (_ = _))

/-- An accepted submission deletes a record that is there, and a renewal
    writes over one. -/
def onlyWhileStored (deps : Deps) : Guard State Event MfaCall
  | s, _, .pendingDeleted pendingId true => Stored deps s pendingId
  | s, _, .pendingSaved pendingId => Stored deps s pendingId
  | _, _, _ => True

instance (deps : Deps) (s : State) (h : List (MfaCall × Event)) (e : Event) :
    Decidable (onlyWhileStored deps s h e) :=
  match e with
  | .pendingDeleted pendingId true => inferInstanceAs (Decidable (Stored deps s pendingId))
  | .pendingSaved pendingId => inferInstanceAs (Decidable (Stored deps s pendingId))
  | .pendingDeleted _ false | .sessionStored _ | .sessionIndexed _ _ | .sessionTouched _
  | .sidLookedUp _ | .requestSaved _ | .sessionRevoked _ | .codeStored _ _ | .tokenStored _ _
  | .tokenIndexed _ _ | .familyRead _ | .familyRevoked _ | .memberAdded _ _ _ | .emailMissing _
  | .userCreated _ | .totpResponded _ | .softwareTokenAssociated _ | .softwareTokenVerified _
  | .totpEnabled _ => isTrue trivial

/-- The condition, where it is asked for. -/
def onlyWhileStoredIf (deps : Deps) (strict : Prop) : Guard State Event MfaCall :=
  fun s h e => strict → onlyWhileStored deps s h e

/-- A session is created from a pending record. -/
def createsFrom (pendingId : String) : MfaCall × Event → Bool
  | (call, .sessionStored _) => call.pendingId = pendingId
  | _ => false

/-- The directory has accepted a code: for a challenge, or for a factor that
    it then has made required. -/
def Accepted : MfaCall → History → Prop
  | .challenge pendingId code environment, h =>
      ∃ authenticated,
        (.challenge pendingId code environment, .totpResponded (.ok authenticated)) ∈ h
  | .setup pendingId code environment, h =>
      ∃ later earlier,
        h = later ++ (.setup pendingId code environment, .totpEnabled (.ok ())) :: earlier ∧
          (.setup pendingId code environment, .softwareTokenVerified (.ok ())) ∈ earlier
  | .begin _ _, _ => False

/-- What a call has: the right to the session of a record, or the directory's
    answers. -/
inductive Right
  | session (pendingId : String)
  | verified (call : MfaCall)
  | accepted (call : MfaCall)
  deriving DecidableEq

/-- Sessions are created after an acceptance. Under the condition, a record
    whose session was created or is about to be cannot be read. -/
structure Inv (deps : Deps) (strict : Prop) (R : Multiset Right) (s : State) (h : History) :
    Prop where
  verified : ∀ call, .verified call ∈ R → (call, .softwareTokenVerified (.ok ())) ∈ h
  accepted : ∀ call, .accepted call ∈ R → Accepted call h
  created : ∀ later call session earlier, h = later ++ (call, .sessionStored session) :: earlier →
    Accepted call earlier
  once : strict → ∀ pendingId,
    R.count (.session pendingId) + h.countP (createsFrom pendingId) ≤ 1
  gone : strict → ∀ pendingId,
    0 < R.count (.session pendingId) + h.countP (createsFrom pendingId) → ¬ Stored deps s pendingId

def protocol (deps : Deps) (strict : Prop) : Protocol (Multiset Right) State Event MfaCall where
  guard := onlyWhileStoredIf deps strict
  Inv := Inv deps strict

section Changes

variable {deps : Deps} {strict : Prop} {R r F : Multiset Right} {s s' : State} {h : History}
  {call : MfaCall} {pendingId : String}

/-- A factor that was accepted stays so in every longer history. -/
theorem Accepted.cons (ha : Accepted call h) (x : MfaCall × Event) : Accepted call (x :: h) := by
  cases call with
  | challenge pendingId code environment =>
      exact ha.imp fun _ hmem => List.mem_cons_of_mem x hmem
  | setup pendingId code environment =>
      rcases ha with ⟨later, earlier, rfl, hmem⟩
      exact ⟨x :: later, earlier, rfl, hmem⟩
  | «begin» pendingId renew => exact ha

/-- What cannot be read cannot be read after such a change. -/
theorem not_stored (hs : Sparing s.mfaPending s.now s'.mfaPending s'.now)
    (hnot : ¬ Stored deps s pendingId) : ¬ Stored deps s' pendingId := by
  intro hstored
  have hnone := hs _ (Option.not_isSome_iff_eq_none.mp hnot)
  unfold Stored at hstored
  rw [hnone] at hstored
  cases hstored

/-- The invariant holds on where no pending login is prolonged. -/
theorem Inv.sparing (hi : Inv deps strict R s h)
    (hs : strict → Sparing s.mfaPending s.now s'.mfaPending s'.now) : Inv deps strict R s' h where
  verified := hi.verified
  accepted := hi.accepted
  created := hi.created
  once := hi.once
  gone hstrict pendingId hpos := not_stored (hs hstrict) (hi.gone hstrict pendingId hpos)

/-- Resources may be lost. -/
theorem Inv.drop (hi : Inv deps strict R s h) (hle : r ≤ R) : Inv deps strict r s h where
  verified call hmem := hi.verified call (Multiset.mem_of_le hle hmem)
  accepted call hmem := hi.accepted call (Multiset.mem_of_le hle hmem)
  created := hi.created
  once hstrict pendingId := by
    have hcount := Multiset.count_le_of_le (.session pendingId) hle
    have honce := hi.once hstrict pendingId
    omega
  gone hstrict pendingId hpos := by
    have hcount := Multiset.count_le_of_le (.session pendingId) hle
    exact hi.gone hstrict pendingId (by omega)

/-- An event that creates no session. -/
theorem Inv.log {e : Event} (hi : Inv deps strict R s h)
    (he : ∀ session, e ≠ .sessionStored session) :
    Inv deps strict R s ((call, e) :: h) := by
  have hno : ∀ pendingId, createsFrom pendingId (call, e) = false := by
    intro pendingId
    cases e with
    | sessionStored session => exact absurd rfl (he session)
    | _ => rfl
  have hcount : ∀ pendingId,
      List.countP (createsFrom pendingId) ((call, e) :: h) = h.countP (createsFrom pendingId) :=
    fun pendingId => List.countP_cons_of_neg (Bool.eq_false_iff.mp (hno pendingId))
  refine ⟨?_, ?_, ?_, ?_, ?_⟩
  · exact fun call' hmem => List.mem_cons_of_mem _ (hi.verified call' hmem)
  · exact fun call' hmem => (hi.accepted call' hmem).cons _
  -- The creation lies in the older history, since the new event is none.
  · intro later call' session earlier heq
    cases later with
    | nil => exact absurd (Prod.mk.inj (List.cons.inj heq).1).2 (he session)
    | cons x later => exact hi.created later call' session earlier (List.cons.inj heq).2
  · intro hstrict pendingId
    rw [hcount]
    exact hi.once hstrict pendingId
  · intro hstrict pendingId hpos
    rw [hcount] at hpos
    exact hi.gone hstrict pendingId hpos

/-- The directory's answers may be known any number of times. -/
theorem Inv.know (hi : Inv deps strict R s h)
    (hknown : ∀ x ∈ r, (∃ call, x = .verified call ∧ (call, .softwareTokenVerified (.ok ())) ∈ h) ∨
      ∃ call, x = .accepted call ∧ Accepted call h) : Inv deps strict (r + R) s h := by
  -- Facts about factors carry no right to a session.
  have hsession : ∀ pendingId, r.count (.session pendingId) = 0 := by
    intro pendingId
    refine Multiset.count_eq_zero_of_notMem fun hmem => ?_
    rcases hknown _ hmem with ⟨call, heq, _⟩ | ⟨call, heq, _⟩
    · cases heq
    · cases heq
  refine ⟨fun call hmem => ?_, fun call hmem => ?_, hi.created, fun hstrict pendingId => ?_,
    fun hstrict pendingId hpos => ?_⟩
  · rcases Multiset.mem_add.mp hmem with hmem | hmem
    · rcases hknown _ hmem with ⟨call', heq, hv⟩ | ⟨call', heq, _⟩
      · cases heq
        exact hv
      · cases heq
    · exact hi.verified call hmem
  · rcases Multiset.mem_add.mp hmem with hmem | hmem
    · rcases hknown _ hmem with ⟨call', heq, _⟩ | ⟨call', heq, ha⟩
      · cases heq
      · cases heq
        exact ha
    · exact hi.accepted call hmem
  · rw [Multiset.count_add, hsession, Nat.zero_add]
    exact hi.once hstrict pendingId
  · rw [Multiset.count_add, hsession, Nat.zero_add] at hpos
    exact hi.gone hstrict pendingId hpos

/-- The deletion of a record that is there comes with the right to its
    session. -/
theorem Inv.take (hi : Inv deps strict R s h) (hstored : strict → Stored deps s pendingId) :
    Inv deps strict ({.session pendingId} + R)
      { s with mfaPending := Ttl.delete s.mfaPending (deps.keyOf pendingId) } h := by
  have hdelete : Sparing s.mfaPending s.now
      (Ttl.delete s.mfaPending (deps.keyOf pendingId)) s.now := sparing_delete _ _ _
  -- The record goes away, and the call takes its right.
  have hgone : ¬ Stored deps
      { s with mfaPending := Ttl.delete s.mfaPending (deps.keyOf pendingId) } pendingId := by
    unfold Stored
    rw [get_delete_self]
    exact nofun
  refine ⟨fun call hmem => ?_, fun call hmem => ?_, hi.created, fun hstrict pendingId' => ?_,
    fun hstrict pendingId' hpos => ?_⟩
  · rcases Multiset.mem_add.mp hmem with hmem | hmem
    · cases Multiset.mem_singleton.mp hmem
    · exact hi.verified call hmem
  · rcases Multiset.mem_add.mp hmem with hmem | hmem
    · cases Multiset.mem_singleton.mp hmem
    · exact hi.accepted call hmem
  · rw [Multiset.count_add, Multiset.count_singleton]
    split
    · next heq =>
        have heq' : pendingId' = pendingId := Right.session.inj heq
        -- It was still stored, so nobody had taken the right before.
        have hnone : ¬ 0 < R.count (.session pendingId') + h.countP (createsFrom pendingId') :=
          fun hpos => hi.gone hstrict pendingId' hpos (heq' ▸ hstored hstrict)
        omega
    · rw [Nat.zero_add]
      exact hi.once hstrict pendingId'
  · by_cases heq : pendingId' = pendingId
    · subst heq
      exact hgone
    · have hne : Right.session pendingId' ≠ .session pendingId := fun h => heq (Right.session.inj h)
      rw [Multiset.count_add, Multiset.count_singleton, if_neg hne, Nat.zero_add] at hpos
      refine not_stored ?_ (hi.gone hstrict pendingId' hpos)
      exact hdelete

/-- The right to a session is used up when it is created. -/
theorem Inv.create {session : SsoSession}
    (hi : Inv deps strict ({.session call.pendingId, .accepted call} + F) s h) :
    Inv deps strict F s ((call, .sessionStored session) :: h) := by
  -- One right less is one session more, so their sum stays.
  have hcount : ∀ pendingId,
      F.count (.session pendingId) +
          List.countP (createsFrom pendingId) ((call, .sessionStored session) :: h) =
        Multiset.count (.session pendingId) ({.session call.pendingId, .accepted call} + F) +
          h.countP (createsFrom pendingId) := by
    intro pendingId
    rw [List.countP_cons, Multiset.count_add, Multiset.insert_eq_cons, Multiset.count_cons,
      Multiset.count_singleton]
    by_cases heq : call.pendingId = pendingId
    · simp [createsFrom, heq]
      omega
    · simp [createsFrom, heq, Ne.symm heq]
  have hafter : Inv deps strict F s h := hi.drop (Multiset.le_add_left _ _)
  refine ⟨?_, ?_, ?_, fun hstrict pendingId => ?_, fun hstrict pendingId hpos => ?_⟩
  · exact fun call' hmem => List.mem_cons_of_mem _ (hafter.verified call' hmem)
  · exact fun call' hmem => (hafter.accepted call' hmem).cons _
  -- The newest session is from this call, whose factor was accepted.
  · intro later call' session' earlier heq
    cases later with
    | nil =>
        cases (List.cons.inj heq).1
        rw [← (List.cons.inj heq).2]
        exact hi.accepted call (mem_held _ _ _ (by simp))
    | cons x later => exact hi.created later call' session' earlier (List.cons.inj heq).2
  · rw [hcount]
    exact hi.once hstrict pendingId
  · rw [hcount] at hpos
    exact hi.gone hstrict pendingId hpos

end Changes

section Programs

variable {deps : Deps} {strict : Prop} {r : Multiset Right} {call : MfaCall} {α β : Type}
  {pendingId code : String} {environment : RequestEnvironment}

/-- The parts that say nothing about pending records and sessions. -/
def otherParts : List Field := [.sidIndex, .users, .mfaMethods, .sessions, .audit]

theorem stable : Stable otherParts (protocol deps strict) where
  changes R s s' h hch hi := by
    have hpending : s'.mfaPending = s.mfaPending := hch.same .mfaPending (by decide)
    refine Inv.sparing hi fun _ key hnone => ?_
    rw [hpending, hch.now]
    exact hnone
  event R s h call e he hi := by
    refine Inv.log hi ?_
    rintro session rfl
    exact absurd he (by decide : Field.ssoSessions ∉ otherParts)

theorem safe_aside {p : AuthProg α} (hp : Touches otherParts p) (r : Multiset Right) :
    Safe (protocol deps strict) call p r fun _ r' => r' = r :=
  safe_touches stable hp r

/-- A program after one that touches nothing of this. -/
theorem safe_after {p : AuthProg α} {f : α → AuthProg β} {Q : β → Multiset Right → Prop}
    (hp : Touches otherParts p) (hf : ∀ a, Safe (protocol deps strict) call (f a) r Q) :
    Safe (protocol deps strict) call (p >>= f) r Q := by
  refine safe_seq (safe_aside hp r) ?_
  rintro a _ rfl
  exact hf a

/-- What runs at the side touches nothing of this. -/
theorem safe_bothAside {p : AuthProg α} {q : AuthProg β} {Q : α → Multiset Right → Prop}
    (hp : Safe (protocol deps strict) call p r Q) (hq : Touches otherParts q) :
    Safe (protocol deps strict) call (Prog.both p q) r fun _ _ => True := by
  have hboth := safe_both hp (safe_aside hq 0)
  rw [add_zero] at hboth
  exact safe_mono hboth fun _ _ _ => trivial

/-- What is answered in the end does not matter. -/
theorem safe_end {a : α} : Safe (protocol deps strict) call (pure a : AuthProg α) r
    fun _ _ => True :=
  safe_pure trivial

/-- The directory answers, and the answer may be known. -/
theorem safe_reply {reply : Type} {event : reply → Event}
    {run : Outside → State → Option (reply × State)} (known : reply → Multiset Right)
    (hrun : ∀ i s b s', run i s = some (b, s') → s' = s)
    (hknown : ∀ b R s h, Inv deps strict (r + R) s h →
      Inv deps strict (known b + R) s ((call, event b) :: h)) :
    Safe (protocol deps strict) call (.act (fun b => some (event b)) run .done) r
      fun b r' => r' = known b := by
  intro F s h i b s' hi hstep _
  rw [hrun i s b s' hstep]
  exact ⟨known b, hknown b F s h hi, rfl⟩

/-- A record is read. -/
theorem safe_loadPending {f : Option MfaPending → AuthProg β} {Q : β → Multiset Right → Prop}
    (hf : ∀ a, Safe (protocol deps strict) call (f a) r Q) :
    Safe (protocol deps strict) call (loadPending deps pendingId >>= f) r Q :=
  safe_after touches_get hf

/-- A deletion after a refusal. -/
theorem safe_refusedDelete (r : Multiset Right) :
    Safe (protocol deps strict) call (deletePending deps pendingId false) r fun _ r' => r' = r := by
  refine safe_logged fun F s h hi _ => ⟨r, ?_, rfl⟩
  have hs : Sparing s.mfaPending s.now (Ttl.delete s.mfaPending (deps.keyOf pendingId)) s.now :=
    sparing_delete _ _ _
  exact Inv.log (Inv.sparing hi fun _ => hs) nofun

/-- A deletion after an acceptance takes the right to the session with it. -/
theorem safe_acceptedDelete (r : Multiset Right) :
    Safe (protocol deps strict) call (deletePending deps pendingId true) r
      fun _ r' => r' = {.session pendingId} + r := by
  refine safe_logged fun F s h hi hguard => ⟨_, ?_, rfl⟩
  rw [add_assoc]
  exact Inv.log (Inv.take hi hguard) nofun

/-- A renewal writes over a record that is there. -/
theorem safe_savePending (pending : MfaPending) (r : Multiset Right) :
    Safe (protocol deps strict) call (savePending deps pendingId pending) r fun _ r' => r' = r := by
  refine safe_logged fun F s h hi hguard =>
      ⟨r, Inv.log (Inv.sparing hi fun hstrict => ?_) nofun, rfl⟩
  exact sparing_set _ _ (hguard hstrict)

/-- An update of the pending login gives no right. -/
theorem safe_updatePending (pending : MfaPending) (r : Multiset Right) :
    Safe (protocol deps strict) call (updatePending deps pendingId pending) r
      fun _ r' => r' = r := by
  refine safe_atomic fun F s h hi => ⟨r, ?_, rfl⟩
  have hs : Sparing s.mfaPending s.now
      (Ttl.update s.mfaPending s.now (deps.keyOf pendingId) pending).2 s.now :=
    sparing_update _ _ _ _
  exact Inv.sparing hi fun _ => hs

/-- A session is stored by whoever has the right to it. -/
theorem safe_storeSession {session : SsoSession} {ttl : Int} :
    Safe (protocol deps strict) call
      (ssoSessions.setLogged (.sessionStored session) session.id session ttl : AuthProg Unit)
      {.session call.pendingId, .accepted call} fun _ r' => r' = 0 := by
  refine safe_logged fun F s h hi _ => ⟨0, ?_, rfl⟩
  rw [zero_add]
  exact Inv.sparing (Inv.create hi) fun _ _ hnone => hnone

/-- A session is opened with the right of a factor that was accepted. -/
theorem safe_createSsoSession (user : User) (authenticated : CognitoAuthenticated) :
    Safe (protocol deps strict) call (createSsoSession deps user authenticated environment)
      {.session call.pendingId, .accepted call} fun _ _ => True := by
  refine safe_after touches_nowSeconds fun now => ?_
  refine safe_after touches_randomToken fun cookieValue => ?_
  refine safe_after touches_randomToken fun sid => ?_
  refine safe_after touches_randomIv fun iv => ?_
  have hrest : Touches otherParts (Prog.both
      (sidIndex.setLogged (.sessionIndexed sid (deps.keyOf cookieValue)) sid
        (deps.keyOf cookieValue) ssoExpiry.absoluteSeconds)
      (Sessions.create sid user.id environment now)) :=
    touches_both ((touches_setLogged onField_sidIndex rfl).mono (by decide))
      (touches_sessionsCreate.mono (by decide))
  exact safe_seq (safe_bothAside safe_storeSession hrest) fun _ _ _ => safe_end

/-- A login is finished with the right of a factor that was accepted. -/
theorem safe_finishLogin (authenticated : CognitoAuthenticated) (method : MfaMethod) :
    Safe (protocol deps strict) call (finishLogin deps authenticated environment method)
      {.session call.pendingId, .accepted call} fun _ _ => True := by
  refine safe_after (touches_resolveUser.mono (by decide)) fun user => ?_
  split
  · exact safe_after (touches_recordAudit.mono (by decide)) fun _ => safe_end
  · refine safe_after touches_nowSeconds fun now => ?_
    refine safe_after (touches_recordMfaMethod.mono (by decide)) fun _ => ?_
    refine safe_seq (safe_createSsoSession user authenticated) fun created r' _ => ?_
    exact safe_after (touches_recordAudit.mono (by decide)) fun _ => safe_end

/-- A record is deleted after an acceptance, and the session is created. -/
theorem safe_acceptedLogin {f : Option LoginSuccess → AuthProg β}
    (authenticated : CognitoAuthenticated) (method : MfaMethod) (hid : call.pendingId = pendingId)
    (hf : ∀ success r, Safe (protocol deps strict) call (f success) r fun _ _ => True) :
    Safe (protocol deps strict) call
      (deletePending deps pendingId true >>= fun _ =>
        finishLogin deps authenticated environment method >>= f)
      {.accepted call} fun _ _ => True := by
  refine safe_seq (safe_acceptedDelete _) ?_
  rintro _ _ rfl
  rw [← hid]
  exact safe_seq (safe_finishLogin authenticated method) fun success r _ => hf success r

/-- The code of a challenge was refused. -/
theorem safe_refuseTotpCode (username cognitoSession rid : String) (attempts : Nat) :
    Safe (protocol deps strict) call
      (refuseTotpCode deps pendingId username cognitoSession rid attempts environment) r
      fun _ _ => True := by
  refine safe_after (touches_recordAudit.mono (by decide)) fun _ => ?_
  split
  · exact safe_seq (safe_refusedDelete _) fun _ _ _ => safe_end
  · exact safe_seq (safe_updatePending _ _) fun _ _ _ => safe_end

/-- What is known after an acceptance. -/
def knownIf {reply : Type} (x : Right) : Except CognitoMfaError reply → Multiset Right
  | .ok _ => {x}
  | .error _ => 0

/-- A code that the directory accepts gives the right to a session. -/
theorem safe_respondToTotp (username cognitoSession : String) :
    Safe (protocol deps strict) (.challenge pendingId code environment)
      (respondToTotp username cognitoSession code) 0
      fun b r' => r' = knownIf (.accepted (.challenge pendingId code environment)) b := by
  refine safe_reply _ (fun i s b s' hi => ?_) fun b R s h hi => ?_
  · split at hi
    · cases hi
      rfl
    · cases hi
  · rw [zero_add] at hi
    refine Inv.know (Inv.log hi nofun) fun x hx => .inr ?_
    cases b with
    | error e => exact absurd hx (Multiset.notMem_zero x)
    | ok authenticated =>
        exact ⟨_, Multiset.mem_singleton.mp hx, authenticated, List.mem_cons_self⟩

/-- A first code that the directory verifies gives the right to the enrolment. -/
theorem safe_verifySoftwareToken (accessToken : String) :
    Safe (protocol deps strict) call (verifySoftwareToken accessToken code) 0
      fun b r' => r' = knownIf (.verified call) b := by
  refine safe_reply _ (fun i s b s' hi => ?_) fun b R s h hi => ?_
  · split at hi
    · cases hi
      rfl
    · cases hi
  · rw [zero_add] at hi
    refine Inv.know (Inv.log hi nofun) fun x hx => .inl ?_
    cases b with
    | error e => exact absurd hx (Multiset.notMem_zero x)
    | ok u => exact ⟨_, Multiset.mem_singleton.mp hx, List.mem_cons_self⟩

/-- A factor that was verified is made required. -/
theorem safe_enableTotp (accessToken : String) :
    Safe (protocol deps strict) (.setup pendingId code environment) (enableTotp accessToken)
      {.verified (.setup pendingId code environment)}
      fun b r' => r' = knownIf (.accepted (.setup pendingId code environment)) b := by
  refine safe_reply _ (fun i s b s' hi => ?_) fun b R s h hi => ?_
  · split at hi
    · cases hi
      rfl
    · cases hi
  · have hverified := hi.verified _ (mem_held _ _ _ (Multiset.mem_singleton_self _))
    have hafter : Inv deps strict R s h := hi.drop (Multiset.le_add_left _ _)
    refine Inv.know (Inv.log hafter nofun) fun x hx => .inr ?_
    cases b with
    | error e => exact absurd hx (Multiset.notMem_zero x)
    | ok u => exact ⟨_, Multiset.mem_singleton.mp hx, [], h, rfl, hverified⟩

theorem safe_associateSoftwareToken (accessToken : String) :
    Safe (protocol deps strict) call (associateSoftwareToken accessToken) 0
      fun _ r' => r' = 0 := by
  refine safe_reply (fun _ => 0) (fun i s b s' hi => ?_) fun b R s h hi => ?_
  · split at hi
    · cases hi
      rfl
    · cases hi
  · exact Inv.log hi nofun

/-- A challenge opens a session only for an accepted code. -/
theorem safe_completeTotpChallenge :
    Safe (protocol deps strict) (.challenge pendingId code environment)
      (completeTotpChallenge deps pendingId code environment) 0 fun _ _ => True := by
  refine safe_loadPending fun pending => ?_
  split
  · refine safe_seq (safe_respondToTotp _ _) ?_
    rintro responded _ rfl
    split
    · exact safe_seq (safe_refuseTotpCode _ _ _ _) fun _ _ _ => safe_end
    · exact safe_seq (safe_refusedDelete _) fun _ _ _ => safe_end
    · refine safe_acceptedLogin _ _ rfl fun success r => ?_
      split
      · exact safe_end
      · exact safe_end
  · exact safe_end

/-- An enrolment opens a session only for a verified code. -/
theorem safe_verifySetup (sub email : String) (name : Option String) (rid : String)
    (tokens : CognitoTokens) :
    Safe (protocol deps strict) (.setup pendingId code environment)
      (verifySetup deps pendingId code sub email name rid tokens environment) 0
      fun _ _ => True := by
  refine safe_seq (safe_verifySoftwareToken _) ?_
  rintro verified _ rfl
  split
  · exact safe_after (touches_recordAudit.mono (by decide)) fun _ => safe_end
  · exact safe_seq (safe_refusedDelete _) fun _ _ _ => safe_end
  · refine safe_seq (safe_enableTotp _) ?_
    rintro enabled _ rfl
    split
    · exact safe_seq (safe_refusedDelete _) fun _ _ _ => safe_end
    · refine safe_acceptedLogin _ _ rfl fun success r => ?_
      split
      · exact safe_end
      · exact safe_after (touches_recordAudit.mono (by decide)) fun _ => safe_end

/-- An enrolment that is completed opens a session only for a verified code. -/
theorem safe_completeTotpSetup :
    Safe (protocol deps strict) (.setup pendingId code environment)
      (completeTotpSetup deps pendingId code environment) 0 fun _ _ => True := by
  refine safe_loadPending fun pending => ?_
  split
  · refine safe_after touches_nowSeconds fun now => ?_
    split
    · exact safe_end
    · split
      · exact safe_end
      · split
        · exact safe_end
        · exact safe_verifySetup _ _ _ _ _
  · exact safe_end

theorem safe_associateSecret (sub email : String) (name : Option String)
    (encryptedTokens rid : String) (hadSecret : Bool) (now : Int) :
    Safe (protocol deps strict) call
      (associateSecret deps pendingId sub email name encryptedTokens rid hadSecret now) 0
      fun _ _ => True := by
  unfold associateSecret
  split
  · exact safe_end
  · refine safe_seq (safe_associateSoftwareToken _) ?_
    rintro associated _ rfl
    cases associated with
    | error e => exact safe_end
    -- The audit entry and the sealing come before the record is saved.
    | ok secret =>
        refine safe_after ?_ fun _ => ?_
        · split
          · exact touches_recordAudit.mono (by decide)
          · exact touches_pure _
        · refine safe_after touches_randomIv fun iv => ?_
          exact safe_seq (safe_savePending _ _) fun _ _ _ => safe_end

theorem safe_beginTotpSetup (renew : Bool) :
    Safe (protocol deps strict) call (beginTotpSetup deps pendingId renew) 0 fun _ _ => True := by
  refine safe_loadPending fun pending => ?_
  split
  · refine safe_after touches_nowSeconds fun now => ?_
    split
    · split
      · exact safe_end
      · exact safe_associateSecret _ _ _ _ _ _ _
    · exact safe_associateSecret _ _ _ _ _ _ _
  · exact safe_end

theorem safe_body (call : MfaCall) :
    Safe (protocol deps strict) call ((mfaSystem deps).body call) 0 fun _ _ => True := by
  cases call with
  | challenge pendingId code environment => exact safe_completeTotpChallenge
  | setup pendingId code environment => exact safe_completeTotpSetup
  | «begin» pendingId renew => exact safe_beginTotpSetup renew

end Programs

section Runs

variable {deps : Deps} {strict : Prop} {init : State}
  {p : Pool State Outside Event MfaCall MfaCall.Answer}

theorem inv_init (s : State) : Inv deps strict 0 s [] where
  verified _ h := absurd h (Multiset.notMem_zero _)
  accepted _ h := absurd h (Multiset.notMem_zero _)
  created later call session earlier heq := by
    cases later with
    | nil => cases heq
    | cons x later => cases heq
  once _ _ := Nat.zero_le 1
  gone _ _ hpos := absurd hpos (Nat.lt_irrefl 0)

theorem inv_of_mfa (h : Reachable (mfaSystem deps) (onlyWhileStoredIf deps strict) init p) :
    ∃ R, Inv deps strict R p.store p.trace := by
  have hok := poolOk_of_reachable (P := protocol deps strict) safe_body ?_ (inv_init init) h
  · rcases hok with ⟨Rs, _, hinv⟩
    exact ⟨_, hinv⟩
  · intro R s hist change s' henv hi
    rcases apply_cases henv with ⟨seconds, rfl⟩ | ⟨db, _, _, rfl⟩
    · have hle : s.now ≤ s.now + seconds := by omega
      exact Inv.sparing hi fun _ => sparing_later _ hle
    · exact Inv.sparing hi fun _ _ hnone => hnone

end Runs

/-- In every run, a session is created only after the directory has accepted
    a code for the pending record of its call. In every run that meets the
    condition, no pending record gives more than one session. -/
theorem one_session_per_login (deps : Deps) (init : State) :
    (∀ p : Pool State Outside Event MfaCall MfaCall.Answer,
      Reachable (mfaSystem deps) anyStep init p →
      ∀ later call session earlier, p.trace = later ++ (call, .sessionStored session) :: earlier →
        Accepted call earlier) ∧
    ∀ p : Pool State Outside Event MfaCall MfaCall.Answer,
      Reachable (mfaSystem deps) (onlyWhileStored deps) init p →
      ∀ pendingId, p.trace.countP (createsFrom pendingId) ≤ 1 := by
  refine ⟨fun p hp => ?_, fun p hp pendingId => ?_⟩
  · have hfree : Reachable (mfaSystem deps) (onlyWhileStoredIf deps False) init p :=
      reachable_mono (fun _ _ _ _ => False.elim) hp
    rcases inv_of_mfa hfree with ⟨R, hinv⟩
    exact hinv.created
  · have hstrict : Reachable (mfaSystem deps) (onlyWhileStoredIf deps True) init p :=
      reachable_mono (fun _ _ _ hg _ => hg) hp
    rcases inv_of_mfa hstrict with ⟨R, hinv⟩
    have hcount := hinv.once trivial pendingId
    omega

section Example

/-- A login that waits for the code of a challenge. -/
def waiting : State :=
  { smallStart with
    mfaPending := Ttl.set Ttl.empty 1000 (smallDeps.keyOf pendingId1)
      (.totpChallenge "alice" "session" "" 0) mfaPendingTtl }

def aliceCode : MfaCall := .challenge pendingId1 "123456" browser

/-- What the directory and the random generator answer to an accepted code. -/
def acceptedReply : Outside :=
  .totp (.ok ⟨"alice-sub", "alice@example.com", none, cognitoTokens⟩)

/-- A number of steps of one call that need nothing from outside. -/
def steps (index count : Nat) : List (Move Outside MfaCall Change) :=
  List.replicate count (.run index (.audit "" false))

/-- A call from the directory's answer to its session. -/
def sessionMoves (index : Nat) (cookieValue sid : String) : List (Move Outside MfaCall Change) :=
  steps index 5 ++ [.run index (.random cookieValue), .run index (.random sid),
    .run index (.random "iv")] ++ steps index 1

def loginMoves : List (Move Outside MfaCall Change) :=
  [.spawn aliceCode] ++ steps 0 1 ++ [.run 0 acceptedReply] ++ sessionMoves 0 cookie1 sid1

/-- A code that is submitted twice at once, and accepted both times. -/
def overlappingMoves : List (Move Outside MfaCall Change) :=
  [.spawn aliceCode, .spawn aliceCode] ++ steps 0 1 ++ steps 1 1 ++
    [.run 0 acceptedReply, .run 1 acceptedReply] ++ sessionMoves 0 cookie1 sid1 ++
    sessionMoves 1 cookie2 sid2

/-- A code that is submitted once gives one session. -/
theorem alice_has_one_session :
    ∃ p, Reachable (mfaSystem smallDeps) (onlyWhileStored smallDeps) waiting p ∧
      p.trace.countP (createsFrom pendingId1) = 1 := by
  rcases reachable_of_play_any (mfaSystem smallDeps) (onlyWhileStored smallDeps) waiting loginMoves
    (fun p => decide (1 ≤ p.trace.countP (createsFrom pendingId1))) (by decide +kernel)
    with ⟨p, hp, htest⟩
  have hle := (one_session_per_login smallDeps waiting).2 p hp pendingId1
  exact ⟨p, hp, Nat.le_antisymm hle (of_decide_eq_true htest)⟩

/-- A code that is submitted twice at once gives two. -/
theorem alice_has_two_sessions :
    ∃ p, Reachable (mfaSystem smallDeps) anyStep waiting p ∧
      p.trace.countP (createsFrom pendingId1) = 2 := by
  rcases reachable_of_play_any (mfaSystem smallDeps) anyStep waiting overlappingMoves
    (fun p => decide (p.trace.countP (createsFrom pendingId1) = 2)) (by decide +kernel)
    with ⟨p, hp, htest⟩
  exact ⟨p, hp, of_decide_eq_true htest⟩

end Example

end Sandbox.Auth.PendingLogin
