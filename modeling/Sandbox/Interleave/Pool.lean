import Sandbox.Interleave.Program

/-!
# Pools of Calls

A system answers calls. Every call runs its own program on the one store, and
the programs of all calls that have arrived so far step in any order. A pool
is that situation: the store, the programs with the calls they answer, and
the history of events.

Finished programs stay in the pool. They hold the answer given to their call,
so a statement such as "at most one of these calls succeeds" is a statement
about the pool and needs no separate record of answers.

`guard` is a condition on the steps of a run, evaluated before the step: an
event may only be left when the store and the history before it allow so. The
unguarded runs are those of `fun _ _ _ => True`. A guard describes runs; it
is not something the programs check.

`Pool.play` runs a schedule, always taking the leftmost step of the chosen
program and checking the guard. It is how a concrete run is exhibited: the
schedule is evaluated and `reachable_of_play` turns it into a run.
`Prog.runLeft` does the same for one program that runs alone.

## Main definitions

* `System`: What a call runs, and what the surroundings may do to the store.
* `Thread`, `Pool`: A call being answered, and all of them on one store.
* `PoolStep`, `Reachable`: One step of a pool, and the runs.
* `Move`, `Pool.play`: Schedules and their evaluation.

## Theorems

* `step_of_stepLeft`: The leftmost step is a step.
* `reachable_mono`: Weaker conditions have more runs.
* `run_of_play`, `reachable_of_play`, `reachable_of_play_any`, `poolStep_of_play_any`: A
  schedule that can be played is a run.
* `exec_of_runLeft`: An evaluation is a run alone.
-/

namespace Interleave

/-- A system of calls: the program each call runs, and the changes to the
    store that come from outside the programs. -/
structure System (σ ω ε ρ τ : Type) (Ret : ρ → Type) where
  body : (c : ρ) → Prog σ ω ε (Ret c)
  env : τ → σ → Option σ

/-- A call and the rest of the program that answers it. -/
structure Thread (σ ω ε ρ : Type) (Ret : ρ → Type) where
  call : ρ
  prog : Prog σ ω ε (Ret call)

/-- A store, the events so far with the call that left them, the latest
    first, and the calls that have arrived, the earliest first. -/
structure Pool (σ ω ε ρ : Type) (Ret : ρ → Type) where
  store : σ
  trace : List (ρ × ε)
  threads : List (Thread σ ω ε ρ Ret)

variable {σ ω ε ρ τ : Type} {Ret : ρ → Type}

/-- A condition on the events of a run, given the store and the history
    before them. -/
abbrev Guard (σ ε ρ : Type) : Type := σ → List (ρ × ε) → ε → Prop

/-- The history after a call has left an event, or none. -/
def logEvent (c : ρ) (e : Option ε) (h : List (ρ × ε)) : List (ρ × ε) :=
  match e with
  | none => h
  | some x => (c, x) :: h

@[simp] theorem logEvent_none (c : ρ) (h : List (ρ × ε)) : logEvent c none h = h := rfl

@[simp] theorem logEvent_some (c : ρ) (x : ε) (h : List (ρ × ε)) :
    logEvent c (some x) h = (c, x) :: h := rfl

/-- One step of a pool: a call arrives, a call's program steps, or the store
    changes from outside. -/
inductive PoolStep (S : System σ ω ε ρ τ Ret) (guard : Guard σ ε ρ) :
    Pool σ ω ε ρ Ret → Pool σ ω ε ρ Ret → Prop
  | spawn {s : σ} {h : List (ρ × ε)} {ts : List (Thread σ ω ε ρ Ret)} (c : ρ) :
      PoolStep S guard ⟨s, h, ts⟩ ⟨s, h, ts ++ [⟨c, S.body c⟩]⟩
  | run {s s' : σ} {h : List (ρ × ε)} {ts₁ ts₂ : List (Thread σ ω ε ρ Ret)} {c : ρ}
      {p p' : Prog σ ω ε (Ret c)} {e : Option ε} (hstep : Step s p e s' p')
      (hguard : ∀ x, e = some x → guard s h x) :
      PoolStep S guard ⟨s, h, ts₁ ++ ⟨c, p⟩ :: ts₂⟩
        ⟨s', logEvent c e h, ts₁ ++ ⟨c, p'⟩ :: ts₂⟩
  | env {s s' : σ} {h : List (ρ × ε)} {ts : List (Thread σ ω ε ρ Ret)} (t : τ)
      (henv : S.env t s = some s') :
      PoolStep S guard ⟨s, h, ts⟩ ⟨s', h, ts⟩

/-- The pools that runs from a store reach. -/
def Reachable (S : System σ ω ε ρ τ Ret) (guard : Guard σ ε ρ) (init : σ)
    (p : Pool σ ω ε ρ Ret) : Prop :=
  Relation.ReflTransGen (PoolStep S guard) ⟨init, [], []⟩ p

/-- The guard that allows every step. -/
def anyStep : Guard σ ε ρ := fun _ _ _ => True

/-- A step leaves one event at most. -/
theorem trace_of_poolStep {S : System σ ω ε ρ τ Ret} {guard : Guard σ ε ρ}
    {p q : Pool σ ω ε ρ Ret} (h : PoolStep S guard p q) :
    q.trace = p.trace ∨ ∃ y, q.trace = y :: p.trace := by
  cases h with
  | spawn c => exact .inl rfl
  | env t _ => exact .inl rfl
  | @run s s' hist ts₁ ts₂ c p p' e _ _ =>
      cases e with
      | none => exact .inl rfl
      | some x => exact .inr ⟨(c, x), rfl⟩

/-- A run under one condition is a run under every weaker one. -/
theorem run_mono {S : System σ ω ε ρ τ Ret} {guard guard' : Guard σ ε ρ}
    {p q : Pool σ ω ε ρ Ret} (hle : ∀ s h e, guard s h e → guard' s h e)
    (hpq : Relation.ReflTransGen (PoolStep S guard) p q) :
    Relation.ReflTransGen (PoolStep S guard') p q := by
  refine Relation.ReflTransGen.mono ?_ _ _ hpq
  intro q q' hstep
  cases hstep with
  | spawn c => exact .spawn c
  | run hstep hguard => exact .run hstep fun x hx => hle _ _ _ (hguard x hx)
  | env t henv => exact .env t henv

theorem reachable_mono {S : System σ ω ε ρ τ Ret} {guard guard' : Guard σ ε ρ} {init : σ}
    {p : Pool σ ω ε ρ Ret} (hle : ∀ s h e, guard s h e → guard' s h e)
    (hp : Reachable S guard init p) : Reachable S guard' init p :=
  run_mono hle hp

/-- A program's answer, once it is finished. -/
def Prog.answer {α : Type} : Prog σ ω ε α → Option α
  | .done a => some a
  | _ => none

/-- The leftmost step of a program, with the answer it takes from outside. -/
def Prog.stepLeft (i : ω) (s : σ) :
    {α : Type} → Prog σ ω ε α → Option (Option ε × σ × Prog σ ω ε α)
  | _, .done _ => none
  | _, .act event run next => (run i s).map fun x => (event x.1, x.2, next x.1)
  | _, .par left right next =>
      match left.answer, right.answer with
      | some b, some c => some (none, s, next (b, c))
      | some _, none => (right.stepLeft i s).map fun x => (x.1, x.2.1, .par left x.2.2 next)
      | none, _ => (left.stepLeft i s).map fun x => (x.1, x.2.1, .par x.2.2 right next)

theorem eq_done_of_answer {α : Type} {p : Prog σ ω ε α} {a : α} (h : p.answer = some a) :
    p = .done a := by
  cases p with
  | done b => rw [show b = a from Option.some.inj h]
  | act event run next => cases h
  | par left right next => cases h

/-- The leftmost step is one of the steps a program can take. -/
theorem step_of_stepLeft {α : Type} (p : Prog σ ω ε α) :
    ∀ (i : ω) (s s' : σ) (e : Option ε) (p' : Prog σ ω ε α),
      p.stepLeft i s = some (e, s', p') → Step s p e s' p' := by
  induction p with
  | done a => intro i s s' e p' h; cases h
  | act event run next _ =>
      intro i s s' e p' h
      rcases Option.map_eq_some_iff.mp h with ⟨⟨b, s₁⟩, hrun, heq⟩
      cases heq
      exact .act hrun
  | par left right next ihl ihr _ =>
      intro i s s' e p' h
      -- The left side steps until it is done, and then the right one.
      rw [Prog.stepLeft] at h
      split at h
      · next b c hl hr =>
          cases h
          rw [eq_done_of_answer hl, eq_done_of_answer hr]
          exact .join
      · rcases Option.map_eq_some_iff.mp h with ⟨⟨e₁, s₁, q⟩, hq, heq⟩
        cases heq
        exact .right (ihr i s _ _ _ hq)
      · rcases Option.map_eq_some_iff.mp h with ⟨⟨e₁, s₁, q⟩, hq, heq⟩
        cases heq
        exact .left (ihl i s _ _ _ hq)

/-- A move of a schedule: a call arrives, the thread at an index takes its
    leftmost step with an answer from outside, or the surroundings act. -/
inductive Move (ω ρ τ : Type)
  | spawn (c : ρ)
  | run (index : Nat) (i : ω)
  | env (t : τ)

/-- An event, if there is one, is allowed. -/
def Guard.allows (guard : Guard σ ε ρ) (s : σ) (h : List (ρ × ε)) : Option ε → Prop
  | none => True
  | some e => guard s h e

instance (guard : Guard σ ε ρ) [∀ s h e, Decidable (guard s h e)] (s : σ) (h : List (ρ × ε)) :
    (e : Option ε) → Decidable (guard.allows s h e)
  | none => inferInstanceAs (Decidable True)
  | some e => inferInstanceAs (Decidable (guard s h e))

instance (s : σ) (h : List (ρ × ε)) (e : ε) : Decidable (anyStep s h e) :=
  inferInstanceAs (Decidable True)

section Play

variable (S : System σ ω ε ρ τ Ret) (guard : Guard σ ε ρ) [∀ s h e, Decidable (guard s h e)]

/-- Play one move. -/
def Pool.move (p : Pool σ ω ε ρ Ret) : Move ω ρ τ → Option (Pool σ ω ε ρ Ret)
  | .spawn c => some ⟨p.store, p.trace, p.threads ++ [⟨c, S.body c⟩]⟩
  | .run index i =>
      match p.threads[index]? with
      | none => none
      | some t => (t.prog.stepLeft i p.store).bind fun x =>
          -- A recorded step is made only where the guard allows its event.
          if guard.allows p.store p.trace x.1 then
            some ⟨x.2.1, logEvent t.call x.1 p.trace, p.threads.set index ⟨t.call, x.2.2⟩⟩
          else none
  | .env t => (S.env t p.store).map fun s => ⟨s, p.trace, p.threads⟩

/-- Play a schedule. -/
def Pool.play (p : Pool σ ω ε ρ Ret) : List (Move ω ρ τ) → Option (Pool σ ω ε ρ Ret)
  | [] => some p
  | m :: ms => (p.move S guard m).bind fun q => q.play ms

theorem poolStep_of_move (p q : Pool σ ω ε ρ Ret) (m : Move ω ρ τ)
    (h : p.move S guard m = some q) : PoolStep S guard p q := by
  cases m with
  | spawn c => cases h; exact .spawn c
  | run index i =>
      rw [Pool.move] at h
      split at h
      · cases h
      · next t ht =>
          rcases Option.bind_eq_some_iff.mp h with ⟨⟨e, s', p'⟩, hstep, hif⟩
          split at hif
          · next hallows =>
              cases hif
              rcases List.getElem?_eq_some_iff.mp ht with ⟨hlt, hget⟩
              -- The pool is split at the call that steps.
              have hold : p.threads
                  = p.threads.take index ++ t :: p.threads.drop (index + 1) := by
                rw [← hget, List.getElem_cons_drop, List.take_append_drop]
              have hnew : p.threads.set index ⟨t.call, p'⟩
                  = p.threads.take index ++ ⟨t.call, p'⟩ :: p.threads.drop (index + 1) :=
                List.set_eq_take_append_cons_drop.trans (if_pos hlt)
              have hguard : ∀ x, e = some x → guard p.store p.trace x := by
                rintro x rfl
                exact hallows
              have hrun : PoolStep S guard
                  ⟨p.store, p.trace,
                    p.threads.take index ++ ⟨t.call, t.prog⟩ :: p.threads.drop (index + 1)⟩
                  ⟨s', logEvent t.call e p.trace,
                    p.threads.take index ++ ⟨t.call, p'⟩ :: p.threads.drop (index + 1)⟩ :=
                .run (step_of_stepLeft t.prog i _ _ _ _ hstep) hguard
              rw [← hold, ← hnew] at hrun
              exact hrun
          · cases hif
  | env t =>
      rcases Option.map_eq_some_iff.mp h with ⟨s', hs, heq⟩
      cases heq
      exact .env t hs

/-- A schedule that can be played from a pool is a run from there. -/
theorem run_of_play (ms : List (Move ω ρ τ)) : ∀ p q : Pool σ ω ε ρ Ret,
    p.play S guard ms = some q → Relation.ReflTransGen (PoolStep S guard) p q := by
  induction ms with
  | nil =>
      intro p q hp
      cases hp
      exact .refl
  | cons m ms ih =>
      intro p q hp
      rcases Option.bind_eq_some_iff.mp hp with ⟨p₁, hm, hrest⟩
      exact .head (poolStep_of_move S guard p p₁ m hm) (ih p₁ q hrest)

/-- A schedule that can be played is a run. -/
theorem reachable_of_play (init : σ) (ms : List (Move ω ρ τ)) (q : Pool σ ω ε ρ Ret)
    (h : Pool.play S guard ⟨init, [], []⟩ ms = some q) : Reachable S guard init q :=
  run_of_play S guard ms _ q h

/-- A schedule whose end passes a test is a run to a pool that passes it. -/
theorem reachable_of_play_any (init : σ) (ms : List (Move ω ρ τ))
    (test : Pool σ ω ε ρ Ret → Bool)
    (h : (Pool.play S guard ⟨init, [], []⟩ ms).any test = true) :
    ∃ q, Reachable S guard init q ∧ test q = true := by
  rcases (Option.any_eq_true _ _).mp h with ⟨q, hq, htest⟩
  exact ⟨q, reachable_of_play S guard init ms q hq, htest⟩

/-- The same for the last step of a schedule. -/
theorem poolStep_of_play_any (init : σ) (ms : List (Move ω ρ τ)) (m : Move ω ρ τ)
    (test : Pool σ ω ε ρ Ret → Pool σ ω ε ρ Ret → Bool)
    (h : ((Pool.play S guard ⟨init, [], []⟩ ms).any fun p => (p.move S guard m).any (test p)) =
      true) :
    ∃ p q, Reachable S guard init p ∧ PoolStep S guard p q ∧ test p q = true := by
  rcases (Option.any_eq_true _ _).mp h with ⟨p, hp, hlast⟩
  rcases (Option.any_eq_true _ _).mp hlast with ⟨q, hq, htest⟩
  exact ⟨p, q, reachable_of_play S guard init ms p hp, poolStep_of_move S guard p q m hq, htest⟩

end Play

/-- Run a program alone, taking its leftmost step with one answer from
    outside after the other. -/
def Prog.runLeft {α : Type} : List ω → σ → Prog σ ω ε α → Option (List ε × α × σ)
  | [], s, p => p.answer.map fun a => ([], a, s)
  | i :: is, s, p =>
      match p.answer with
      | some a => some ([], a, s)
      | none => (p.stepLeft i s).bind fun x =>
          (Prog.runLeft is x.2.1 x.2.2).map fun r => (r.1 ++ x.1.toList, r.2)

/-- An evaluation is a run alone. -/
theorem exec_of_runLeft {α : Type} (is : List ω) :
    ∀ (s : σ) (p : Prog σ ω ε α) (es : List ε) (a : α) (s' : σ),
      p.runLeft is s = some (es, a, s') → Exec s p es a s' := by
  induction is with
  | nil =>
      intro s p es a s' h
      rcases Option.map_eq_some_iff.mp h with ⟨b, hb, heq⟩
      cases heq
      rw [eq_done_of_answer hb]
      exact .done
  | cons i is ih =>
      intro s p es a s' h
      rw [Prog.runLeft] at h
      split at h
      · next b hb =>
          cases h
          rw [eq_done_of_answer hb]
          exact .done
      -- A step is taken with the first answer, and the rest runs on the others.
      · rcases Option.bind_eq_some_iff.mp h with ⟨⟨e, s₁, p₁⟩, hstep, hrest⟩
        rcases Option.map_eq_some_iff.mp hrest with ⟨⟨es₁, a₁, s₂⟩, hrun, heq⟩
        cases heq
        exact .step (step_of_stepLeft p i _ _ _ _ hstep) (ih _ _ _ _ _ hrun)

end Interleave
