import Sandbox.Auth.PendingRecords

/-!
# Guessing Codes

Somebody who knows a password may guess the code of its second factor. Each
refusal is counted in the pending record, and the fifth deletes the record.

The count is read before the directory is asked and written back after it has
answered. Guesses that overlap read the same count and write the same count
back, so any number of them may be refused. If every code is refused while
the record counts all codes refused before, then there are five refusals at
most. Guesses that do not overlap always meet that condition. Whatever the
guesses do, none makes the record last longer, and once it is gone no further
guess reaches the directory.

## Main definitions

* `guessSystem`: Any number of guesses for one record.
* `allCounted`: The condition on the refusals of a run.
* `AsksDirectory`: A guess is about to reach the directory.

## Theorems

* `exec_guess`: What a guess does if no other runs.
* `guesses_capped`: There are five refusals at most.
-/

namespace Sandbox.Auth.Guesses

open Interleave Ttl PendingLogin

structure Guess where
  code : String
  environment : RequestEnvironment
  deriving DecidableEq

/-- Any number of guesses for one pending record. -/
def guessSystem (deps : Deps) (pendingId : String) :
    System State Outside Event Guess Change fun _ => Except MfaFlowError MfaCompleted where
  body guess := completeTotpChallenge deps pendingId guess.code guess.environment
  env := Change.apply

abbrev History : Type := List (Guess × Event)

/-- The directory has refused a code. -/
def isRefusal : Event → Bool
  | .totpResponded (.error .codeMismatch) => true
  | _ => false

def refusals (h : History) : Nat :=
  h.countP fun x => isRefusal x.2

/-- The refusals that the record counts, if it is there. -/
def attemptsOf (deps : Deps) (s : State) (pendingId : String) : Option Nat :=
  match Ttl.get s.mfaPending s.now (deps.keyOf pendingId) with
  | some (.totpChallenge _ _ _ attempts) => some attempts
  | _ => none

/-- A code is refused while the record counts every code refused before. -/
def allCounted (deps : Deps) (pendingId : String) : Guard State Event Guess :=
  fun s h e => isRefusal e = true → attemptsOf deps s pendingId = some (refusals h)

instance (deps : Deps) (pendingId : String) (s : State) (h : History) (e : Event) :
    Decidable (allCounted deps pendingId s h e) :=
  inferInstanceAs (Decidable (_ → _))

/-- A guess is about to get the directory's answer to its code. -/
def AsksDirectory {α : Type} (p : AuthProg α) : Prop :=
  ∃ s reply s' p', Step s p (some (.totpResponded reply)) s' p'

/-- The record, if there is one, ends when it should and counts fewer refusals
    than the limit. -/
def Bounded (deps : Deps) (pendingId : String) (expiresAt : Int) (s : State) : Prop :=
  ∀ e, s.mfaPending (deps.keyOf pendingId) = some e → e.expiresAt = expiresAt ∧
    ∃ username cognitoSession rid attempts, attempts < mfaMaxAttempts ∧
      e.value = .totpChallenge username cognitoSession rid attempts

section Overlapping

variable {deps : Deps} {pendingId : String} {expiresAt : Int} {s s' : State}
  {guard : Guard State Event Guess}
  {init : State} {p q : Pool State Outside Event Guess fun _ => Except MfaFlowError MfaCompleted}

theorem Bounded.step {e : Option Event} (hb : Bounded deps pendingId expiresAt s)
    (h : PendingStep deps False s e s') : Bounded deps pendingId expiresAt s' := by
  intro new hnew
  have hsave : ∀ id, e = some (.pendingSaved id) → deps.keyOf id ≠ deps.keyOf pendingId := by
    rintro id rfl
    exact absurd rfl (h.not_saved id)
  rcases h.entry hsave hnew with ⟨old, hold, hends, hcases⟩
  rcases hb old hold with ⟨hexpires, hcounts⟩
  refine ⟨hends.trans hexpires, ?_⟩
  rcases hcases with rfl | hcounted
  · exact hcounts
  · exact hcounted

theorem Bounded.change {t : Change} (hb : Bounded deps pendingId expiresAt s)
    (h : t.apply s = some s') : Bounded deps pendingId expiresAt s' := by
  rcases apply_cases h with ⟨seconds, rfl⟩ | ⟨db, _, _, rfl⟩
  · exact hb
  · exact hb

/-- A record that can be read counts fewer refusals than the limit. -/
theorem Bounded.attempts_lt {n : Nat} (hb : Bounded deps pendingId expiresAt s)
    (h : attemptsOf deps s pendingId = some n) : n < mfaMaxAttempts := by
  unfold attemptsOf at h
  split at h
  · next username cognitoSession rid attempts hget =>
      cases h
      rcases get_eq_some.mp hget with ⟨e, he, _, hval⟩
      rcases (hb e he).2 with ⟨_, _, _, attempts', hlt, hval'⟩
      rw [hval'] at hval
      cases hval
      exact hlt
  · cases h

theorem effects_guess (guess : Guess) :
    Effects (PendingStep deps False) ((guessSystem deps pendingId).body guess) :=
  effects_completeTotpChallenge

theorem bounded_of_reachable (hinit : Bounded deps pendingId expiresAt init)
    (h : Reachable (guessSystem deps pendingId) guard init p) :
    Bounded deps pendingId expiresAt p.store :=
  effects_inv (I := fun s _ => Bounded deps pendingId expiresAt s) effects_guess
    (fun _ _ _ hR hb => hb.step hR) (fun _ _ _ _ _ _ hR hb => hb.step hR)
    (fun _ _ _ _ ht hb => hb.change ht) hinit h

/-- Under the condition, the next refusal is within the limit. -/
theorem refusals_le (hinit : Bounded deps pendingId expiresAt init)
    (h : Reachable (guessSystem deps pendingId) (allCounted deps pendingId) init p) :
    refusals p.trace ≤ mfaMaxAttempts := by
  have hinv := effects_inv
    (I := fun s h => Bounded deps pendingId expiresAt s ∧ refusals h ≤ mfaMaxAttempts)
    effects_guess (fun _ _ _ hR hi => ⟨hi.1.step hR, hi.2⟩) ?_
    (fun _ _ _ _ ht hi => ⟨hi.1.change ht, hi.2⟩) ⟨hinit, Nat.zero_le _⟩ h
  · exact hinv.2
  -- A step lemma: a refusal is recorded by a record below the limit.
  · intro guess x s s' hist hguard hR hi
    refine ⟨hi.1.step hR, ?_⟩
    unfold refusals
    rw [List.countP_cons]
    by_cases hx : isRefusal x = true
    · -- The record counts all earlier refusals, and they are below the limit.
      have hlt := hi.1.attempts_lt (hguard hx)
      rw [if_pos hx]
      exact hlt
    · rw [if_neg hx]
      exact hi.2

/-- A record that is gone stays gone. -/
theorem not_stored_of_run (hnot : ¬ Stored deps p.store pendingId)
    (hp : Reachable (guessSystem deps pendingId) guard init p)
    (h : Relation.ReflTransGen (PoolStep (guessSystem deps pendingId) guard) p q) :
    ¬ Stored deps q.store pendingId := by
  have hsaves : ∀ {s e s'}, PendingStep deps False s e s' →
      ∀ id, e = some (.pendingSaved id) → deps.keyOf id ≠ deps.keyOf pendingId := by
    rintro s e s' hR id rfl
    exact absurd rfl (hR.not_saved id)
  exact run_effects (I := fun s _ => ¬ Stored deps s pendingId) effects_guess
    (fun _ _ _ hR hgone => hR.not_stored (hsaves hR) hgone)
    (fun _ _ _ _ _ _ hR hgone => hR.not_stored (hsaves hR) hgone)
    (fun _ _ _ _ ht hgone => not_stored_of_change ht hgone) hp hnot h

/-- A guess that begins when the record is gone never reaches the directory. -/
theorem not_asksDirectory {i : Nat} {t : Thread State Outside Event Guess fun _ => _}
    (hnot : ¬ Stored deps p.store pendingId)
    (hp : Reachable (guessSystem deps pendingId) guard init p)
    (h : Relation.ReflTransGen (PoolStep (guessSystem deps pendingId) guard) p q)
    (hi : NotBegun (guessSystem deps pendingId) p i) (ht : q.threads[i]? = some t) :
    ¬ AsksDirectory t.prog := by
  have hdismissed := dismissed_of_notBegun (Q := fun _ a => a = .error .expired)
    (K := fun _ => True) (G := fun s => ¬ Stored deps s pendingId)
    (fun r hpr => not_stored_of_run hnot hp hpr)
    (fun guess s e s' p' _ hgone hstep =>
      ⟨_, (@step_expired deps s s' e (.challenge pendingId guess.code guess.environment) p' hgone
        hstep).2, rfl⟩)
    hi h t ht trivial
  rintro ⟨s, reply, s', p', hstep⟩
  rcases hdismissed with hstart | ⟨a, hdone, _⟩
  · -- The first step only reads the record.
    rw [hstart] at hstep
    cases (step_read_bind hstep).1
  · rw [hdone] at hstep
    cases hstep

end Overlapping

section Alone

variable {deps : Deps} {pendingId code : String} {environment : RequestEnvironment}
  {s s' : State} {es : List Event} {α : Type} {a : α}

/-- What does not touch the records refuses no code. -/
theorem exec_aside {fs : List Field} {p : AuthProg α} (h : Exec s p es a s')
    (hp : Touches fs p) (hfs : .mfaPending ∉ fs) :
    s'.mfaPending = s.mfaPending ∧ s'.now = s.now ∧ es.countP isRefusal = 0 := by
  rcases exec_touches h hp with ⟨hch, hevents⟩
  refine ⟨hch.same .mfaPending hfs, hch.now, List.countP_eq_zero.mpr fun x hx hrefusal => hfs ?_⟩
  have hfield := hevents x hx
  cases x with
  | totpResponded reply => exact hfield
  | _ => cases hrefusal

theorem exec_deletePending {accepted : Bool} {a : Unit}
    (h : Exec s (deletePending deps pendingId accepted) es a s') :
    ¬ Stored deps s' pendingId ∧ es.countP isRefusal = 0 := by
  rcases exec_logged h with ⟨rfl, _, rfl⟩
  refine ⟨?_, rfl⟩
  unfold Stored
  dsimp only [mfaPending]
  rw [get_delete_self]
  exact nofun

/-- After a refusal the record counts one more, or is gone. -/
theorem exec_refuseTotpCode {username cognitoSession rid : String} {attempts : Nat}
    {a : MfaFlowError}
    (hget : Ttl.get s.mfaPending s.now (deps.keyOf pendingId) =
      some (.totpChallenge username cognitoSession rid attempts))
    (h : Exec s (refuseTotpCode deps pendingId username cognitoSession rid attempts environment)
      es a s') :
    (attemptsOf deps s' pendingId = some (attempts + 1) ∨ ¬ Stored deps s' pendingId) ∧
      es.countP isRefusal = 0 := by
  rcases exec_bind h with ⟨_, s₁, es₁, es₂, haudit, hrest, rfl⟩
  rcases exec_aside haudit touches_recordAudit (by decide) with ⟨hrecords, hnow, hnone⟩
  rw [List.countP_append, hnone]
  split at hrest
  -- The fifth failure removes the record.
  · rcases exec_bind hrest with ⟨_, s₂, es₃, es₄, hdelete, hdone, rfl⟩
    rcases exec_deletePending hdelete with ⟨hgone, hnone'⟩
    rcases exec_done hdone with ⟨rfl, _, rfl⟩
    exact ⟨.inr hgone, hnone'⟩
  -- Otherwise it is counted, in the record that was read.
  · rcases exec_bind hrest with ⟨_, s₂, es₃, es₄, hupdate, hdone, rfl⟩
    rcases exec_atomic hupdate with ⟨rfl, _, rfl⟩
    rcases exec_done hdone with ⟨rfl, _, rfl⟩
    refine ⟨.inl ?_, rfl⟩
    rcases get_eq_some.mp hget with ⟨e, he, hlt, _⟩
    have hlive : live s₁.mfaPending s₁.now (deps.keyOf pendingId) = some e := by
      rw [hrecords, hnow]
      exact live_eq_some.mpr ⟨he, hlt⟩
    unfold attemptsOf
    dsimp only [mfaPending, Ttl.update]
    rw [hlive]
    dsimp only
    rw [get_put, if_pos rfl, hnow, if_neg (Int.not_le.mpr hlt)]

theorem exec_respondToTotp {username cognitoSession : String}
    {reply : Except CognitoMfaError CognitoAuthenticated}
    (h : Exec s (respondToTotp username cognitoSession code) es reply s') :
    s' = s ∧ es = [.totpResponded reply] := by
  rcases exec_act h with ⟨i, b, s₁, es', hrun, hdone, rfl⟩
  rcases exec_done hdone with ⟨rfl, rfl, rfl⟩
  split at hrun
  · cases hrun
    exact ⟨rfl, rfl⟩
  · cases hrun

/-- A guess that runs alone refuses no code, or refuses one and counts it. -/
theorem exec_guess {a : Except MfaFlowError MfaCompleted}
    (h : Exec s (completeTotpChallenge deps pendingId code environment) es a s') :
    (es.countP isRefusal = 0 ∧
      (s'.mfaPending = s.mfaPending ∧ s'.now = s.now ∨ ¬ Stored deps s' pendingId)) ∨
    (es.countP isRefusal = 1 ∧ ∃ n, attemptsOf deps s pendingId = some n ∧
      (attemptsOf deps s' pendingId = some (n + 1) ∨ ¬ Stored deps s' pendingId)) := by
  rcases exec_bind h with ⟨pending, s₁, es₁, es₂, hload, hbody, rfl⟩
  rcases exec_read hload with ⟨rfl, hpending, rfl⟩
  rw [List.append_nil]
  split at hbody
  · next username cognitoSession rid attempts =>
      rcases exec_bind hbody with ⟨reply, s₂, es₃, es₄, hrespond, hrest, rfl⟩
      rcases exec_respondToTotp hrespond with ⟨rfl, rfl⟩
      rw [List.countP_append]
      split at hrest
      · -- The code was refused.
        rcases exec_bind hrest with ⟨_, s₃, es₅, es₆, hrefuse, hdone, rfl⟩
        rcases exec_done hdone with ⟨rfl, _, rfl⟩
        rcases exec_refuseTotpCode hpending.symm hrefuse with ⟨hafter, hnone⟩
        refine .inr ⟨?_, attempts, ?_, hafter⟩
        · rw [List.nil_append, hnone]
          rfl
        · unfold attemptsOf
          change some (.totpChallenge username cognitoSession rid attempts) =
            Ttl.get s₂.mfaPending s₂.now (deps.keyOf pendingId) at hpending
          rw [← hpending]
      -- Any other error ends the attempt.
      · next e hne =>
          rcases exec_bind hrest with ⟨_, s₃, es₅, es₆, hdelete, hdone, rfl⟩
          rcases exec_done hdone with ⟨rfl, _, rfl⟩
          rcases exec_deletePending hdelete with ⟨hgone, hnone⟩
          refine .inl ⟨?_, .inr hgone⟩
          rw [List.nil_append, hnone]
          cases e with
          | codeMismatch => exact absurd rfl hne
          | _ => rfl
      -- The code was right, and what follows leaves the records alone.
      · next authenticated =>
          rcases exec_bind hrest with ⟨_, s₃, es₅, es₆, hdelete, hlogin, rfl⟩
          rcases exec_deletePending hdelete with ⟨hgone, hnone⟩
          rcases exec_bind hlogin with ⟨success, s₄, es₇, es₈, hfinish, hend, rfl⟩
          rcases exec_aside hfinish touches_finishLogin (by decide) with ⟨hrecords, hnow, hnone'⟩
          have hdone : s' = s₄ ∧ es₈ = [] := by
            cases success with
            | none => exact ⟨(exec_done hend).2.2, (exec_done hend).1⟩
            | some success => exact ⟨(exec_done hend).2.2, (exec_done hend).1⟩
          rcases hdone with ⟨rfl, rfl⟩
          refine .inl ⟨?_, .inr ?_⟩
          · rw [List.nil_append, List.countP_append, hnone, hnone']
            rfl
          · unfold Stored at hgone ⊢
            rw [hrecords, hnow]
            exact hgone
  -- There was no challenge to answer.
  · rcases exec_done hbody with ⟨rfl, _, rfl⟩
    exact .inl ⟨rfl, .inl ⟨rfl, rfl⟩⟩

theorem stored_of_attemptsOf {n : Nat} (h : attemptsOf deps s pendingId = some n) :
    Stored deps s pendingId := by
  unfold attemptsOf at h
  unfold Stored
  split at h
  · next hget =>
      rw [hget]
      rfl
  · cases h

/-- What is done to the state from outside leaves the count as it is, or the
    record has ended. -/
theorem attemptsOf_change {t : Change} (h : t.apply s = some s') :
    attemptsOf deps s' pendingId = attemptsOf deps s pendingId ∨ ¬ Stored deps s' pendingId := by
  by_cases hstored : Stored deps s' pendingId
  · refine .inl ?_
    rcases Option.isSome_iff_exists.mp hstored with ⟨pending, hget⟩
    have hbefore : Ttl.get s.mfaPending s.now (deps.keyOf pendingId) = some pending := by
      rcases apply_cases h with ⟨seconds, rfl⟩ | ⟨db, _, _, rfl⟩
      · have hle : s.now ≤ s.now + seconds := by omega
        exact get_mono hle hget
      · exact hget
    unfold attemptsOf
    rw [hget, hbefore]
  · exact .inr hstored

end Alone

section Sequential

variable {deps : Deps} {pendingId : String} {expiresAt : Int} {init s : State}
  {ls : List (Happening Event Guess Change fun _ => Except MfaFlowError MfaCompleted)}

/-- The refusals of guesses that do not overlap. -/
def refusalsOf
    (ls : List (Happening Event Guess Change fun _ => Except MfaFlowError MfaCompleted)) :
    Nat :=
  (ls.flatMap Happening.events).countP isRefusal

/-- Guesses that do not overlap are counted while there is a record, and there
    are no more than the limit. -/
theorem counted_of_runs (hinit : Bounded deps pendingId expiresAt init)
    (hzero : attemptsOf deps init pendingId = some 0)
    (h : Runs (guessSystem deps pendingId) init ls s) :
    Bounded deps pendingId expiresAt s ∧
      (attemptsOf deps s pendingId = some (refusalsOf ls) ∨ ¬ Stored deps s pendingId) ∧
      refusalsOf ls ≤ mfaMaxAttempts := by
  induction h with
  | nil => exact ⟨hinit, .inl hzero, Nat.zero_le _⟩
  | @env s₁ s₂ ls t _ ht ih =>
      rcases ih with ⟨hbounded, hcount, hle⟩
      refine ⟨hbounded.change ht, ?_, hle⟩
      -- What happens in between can remove the record, but not reset it.
      rcases attemptsOf_change ht with hsame | hgone
      · rcases hcount with hcount | hgone
        · exact .inl (hsame.trans hcount)
        · exact .inr (not_stored_of_change ht hgone)
      · exact .inr hgone
  | @call s₁ s₂ ls guess a es _ hexec ih =>
      rcases ih with ⟨hbounded, hcount, hle⟩
      have hafter : Bounded deps pendingId expiresAt s₂ :=
        exec_effects (I := fun s _ => Bounded deps pendingId expiresAt s) hexec
          (fun _ _ _ _ hR hb => hb.step hR) [] (effects_guess guess) hbounded
      have hsum : refusalsOf (.call guess a es :: ls) = es.countP isRefusal + refusalsOf ls := by
        unfold refusalsOf
        rw [List.flatMap_cons, List.countP_append]
        rfl
      refine ⟨hafter, ?_⟩
      rw [hsum]
      rcases exec_guess hexec with ⟨hnone, hrest⟩ | ⟨hone, n, hn, hrest⟩
      · -- No code was refused.
        rw [hnone, Nat.zero_add]
        refine ⟨?_, hle⟩
        rcases hrest with ⟨hrecords, hnow⟩ | hgone
        · unfold attemptsOf Stored at hcount ⊢
          rw [hrecords, hnow]
          exact hcount
        · exact .inr hgone
      · -- One was, so there was a record, and it counted all before.
        have hlt := hbounded.attempts_lt hn
        have hn' : n = refusalsOf ls := by
          rcases hcount with hcount | hgone
          · exact Option.some.inj (hn.symm.trans hcount)
          · exact absurd (stored_of_attemptsOf hn) hgone
        subst hn'
        rw [hone]
        refine ⟨?_, by omega⟩
        rcases hrest with hcounted | hgone
        · rw [Nat.add_comm]
          exact .inl hcounted
        · exact .inr hgone

end Sequential

/-- Codes for one pending record that has counted none are refused no more
    often than the limit, in every run in which each refusal finds all earlier
    ones counted, and in every run in which the guesses do not overlap. In every
    run whatever the record ends when it would have ended, and once it is gone
    it stays gone and no guess that begins then reaches the directory. -/
theorem guesses_capped (deps : Deps) (pendingId : String) (init : State)
    (username cognitoSession rid : String) (expiresAt : Int)
    (h : live init.mfaPending init.now (deps.keyOf pendingId) =
      some ⟨.totpChallenge username cognitoSession rid 0, expiresAt⟩) :
    (∀ p, Reachable (guessSystem deps pendingId) (allCounted deps pendingId) init p →
      refusals p.trace ≤ mfaMaxAttempts) ∧
    (∀ ls s, Runs (guessSystem deps pendingId) init ls s → refusalsOf ls ≤ mfaMaxAttempts) ∧
    ∀ p, Reachable (guessSystem deps pendingId) anyStep init p →
      (∀ e, live p.store.mfaPending p.store.now (deps.keyOf pendingId) = some e →
        e.expiresAt = expiresAt) ∧
      (¬ Stored deps p.store pendingId → ∀ q,
        Relation.ReflTransGen (PoolStep (guessSystem deps pendingId) anyStep) p q →
          ¬ Stored deps q.store pendingId ∧
          ∀ i t, NotBegun (guessSystem deps pendingId) p i → q.threads[i]? = some t →
            ¬ AsksDirectory t.prog) := by
  rcases live_eq_some.mp h with ⟨hentry, hlt⟩
  -- The record starts with no attempt, and within its time.
  have hinit : Bounded deps pendingId expiresAt init := by
    intro e he
    rw [hentry] at he
    cases he
    exact ⟨rfl, username, cognitoSession, rid, 0, by decide, rfl⟩
  have hzero : attemptsOf deps init pendingId = some 0 := by
    unfold attemptsOf Ttl.get
    rw [h]
    rfl
  refine ⟨fun p hp => refusals_le hinit hp, fun ls s hruns => ?_, fun p hp => ⟨fun e he => ?_, ?_⟩⟩
  · exact (counted_of_runs hinit hzero hruns).2.2
  · exact (bounded_of_reachable hinit hp e (live_eq_some.mp he).1).1
  · intro hgone q hpq
    exact ⟨not_stored_of_run hgone hp hpq, fun i t hi ht => not_asksDirectory hgone hp hpq hi ht⟩

section Example

/-- A guess loads the record. -/
def loadMoves (index : Nat) : List (Move Outside Guess Change) :=
  [.spawn ⟨"000000", browser⟩, .run index (.audit "" false)]

/-- The directory refuses its code, and the refusal is counted. -/
def refuseMoves (index : Nat) : List (Move Outside Guess Change) :=
  .run index (.totp (.error .codeMismatch)) ::
    List.replicate 3 (.run index (.audit "event" true))

/-- Five guesses, one after the other. -/
def separateGuesses : List (Move Outside Guess Change) :=
  (List.range 5).flatMap fun index => loadMoves index ++ refuseMoves index

/-- Six guesses that load the record before any is refused. -/
def overlappingGuesses : List (Move Outside Guess Change) :=
  (List.range 6).flatMap loadMoves ++ (List.range 6).flatMap refuseMoves

/-- Five guesses, one after the other, are all that are refused. -/
theorem five_guesses_refused :
    ∃ p, Reachable (guessSystem smallDeps pendingId1) (allCounted smallDeps pendingId1) waiting p ∧
      refusals p.trace = 5 ∧ ¬ Stored smallDeps p.store pendingId1 := by
  rcases reachable_of_play_any (guessSystem smallDeps pendingId1)
    (allCounted smallDeps pendingId1) waiting separateGuesses
    (fun p => decide (5 ≤ refusals p.trace ∧ ¬ Stored smallDeps p.store pendingId1))
    (by decide +kernel) with ⟨p, hp, htest⟩
  rcases of_decide_eq_true htest with ⟨hge, hgone⟩
  have hle := (guesses_capped smallDeps pendingId1 waiting "alice" "session" "" 1300 rfl).1 p hp
  exact ⟨p, hp, Nat.le_antisymm hle hge, hgone⟩

/-- Six guesses that overlap are all refused, and the record counts one. -/
theorem six_guesses_refused :
    ∃ p, Reachable (guessSystem smallDeps pendingId1) anyStep waiting p ∧
      mfaMaxAttempts < refusals p.trace ∧ attemptsOf smallDeps p.store pendingId1 = some 1 := by
  rcases reachable_of_play_any (guessSystem smallDeps pendingId1) anyStep waiting
    overlappingGuesses
    (fun p => decide (mfaMaxAttempts < refusals p.trace ∧
      attemptsOf smallDeps p.store pendingId1 = some 1)) (by decide +kernel) with ⟨p, hp, htest⟩
  exact ⟨p, hp, of_decide_eq_true htest⟩

end Example

end Sandbox.Auth.Guesses
