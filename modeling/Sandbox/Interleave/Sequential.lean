import Sandbox.Interleave.Resource

/-!
# Calls That Do Not Overlap

A run in which every call is answered before the next one starts, with changes
from outside in between. Such a run is a list of what happened: calls with
their answers and events, and changes.

An invariant of these runs may be broken in the middle of a call. What the
call still owes is a resource, so the rule for these runs is again about
`Safe` programs: each call starts with `r₀`, and what it ends with must be
enough to start the next one with an empty history.

## Main definitions

* `Happening`: An answered call, or a change from outside.
* `Runs`: The runs, latest happening first.
* `RunsWhile`: Those in which every happening meets a condition on the store.
* `Prog.runAlone`, `Turn`, `playTurns`: Evaluating runs.

## Theorems

* `Runs.induct`, `RunsWhile.induct`: What every happening preserves holds
  after every run.
* `RunsWhile.forall`: What every happening shows is true of all of a run.
* `runsWhile_of_runs`: A condition that is always met.
* `runs_inv`: The same for an invariant with resources.
* `exec_of_runAlone`, `exists_runs`: What can be evaluated is a run.
-/

namespace Interleave

variable {σ ω ε ρ τ : Type} {Ret : ρ → Type} {M : Type} [AddCommMonoid M]

/-- An answered call with the events it left, or a change from outside. -/
inductive Happening (ε ρ τ : Type) (Ret : ρ → Type)
  | call (c : ρ) (answer : Ret c) (events : List ε)
  | env (t : τ)

/-- The events of a happening. -/
def Happening.events : Happening ε ρ τ Ret → List ε
  | .call _ _ es => es
  | .env _ => []

/-- One call after the other leads from a store to a store. The latest
    happening is the first of the list. -/
inductive Runs (S : System σ ω ε ρ τ Ret) : σ → List (Happening ε ρ τ Ret) → σ → Prop
  | nil {s : σ} : Runs S s [] s
  | call {s s₁ s₂ : σ} {ls : List (Happening ε ρ τ Ret)} {c : ρ} {a : Ret c} {es : List ε}
      (before : Runs S s ls s₁) (h : Exec s₁ (S.body c) es a s₂) :
      Runs S s (.call c a es :: ls) s₂
  | env {s s₁ s₂ : σ} {ls : List (Happening ε ρ τ Ret)} {t : τ}
      (before : Runs S s ls s₁) (h : S.env t s₁ = some s₂) : Runs S s (.env t :: ls) s₂

variable {S : System σ ω ε ρ τ Ret} {ls ls' : List (Happening ε ρ τ Ret)} {s s' s'' : σ}

/-- What every happening of a kind preserves holds after every run of such. -/
theorem Runs.induct {ok : Happening ε ρ τ Ret → Prop} {I : σ → Prop}
    (hcall : ∀ c a es s s', ok (.call c a es) → I s → Exec s (S.body c) es a s' → I s')
    (henv : ∀ t s s', ok (.env t) → I s → S.env t s = some s' → I s')
    (h : Runs S s ls s') (hok : ∀ l ∈ ls, ok l) (hI : I s) : I s' := by
  induction h with
  | nil => exact hI
  | call _ hexec ih =>
      exact hcall _ _ _ _ _ (hok _ List.mem_cons_self)
        (ih fun l hl => hok l (List.mem_cons_of_mem _ hl)) hexec
  | env _ ht ih =>
      exact henv _ _ _ (hok _ List.mem_cons_self)
        (ih fun l hl => hok l (List.mem_cons_of_mem _ hl)) ht

/-- A run in which every happening meets a condition on the store before it. -/
inductive RunsWhile (S : System σ ω ε ρ τ Ret) (ok : σ → Happening ε ρ τ Ret → Prop) :
    σ → List (Happening ε ρ τ Ret) → σ → Prop
  | nil {s : σ} : RunsWhile S ok s [] s
  | call {s s₁ s₂ : σ} {ls : List (Happening ε ρ τ Ret)} {c : ρ} {a : Ret c} {es : List ε}
      (before : RunsWhile S ok s ls s₁) (h : Exec s₁ (S.body c) es a s₂)
      (hok : ok s₁ (.call c a es)) : RunsWhile S ok s (.call c a es :: ls) s₂
  | env {s s₁ s₂ : σ} {ls : List (Happening ε ρ τ Ret)} {t : τ}
      (before : RunsWhile S ok s ls s₁) (h : S.env t s₁ = some s₂) (hok : ok s₁ (.env t)) :
      RunsWhile S ok s (.env t :: ls) s₂

/-- What every happening that meets the condition preserves holds after the
    run. -/
theorem RunsWhile.induct {ok : σ → Happening ε ρ τ Ret → Prop} {I : σ → Prop}
    (hcall : ∀ c a es s s', ok s (.call c a es) → I s → Exec s (S.body c) es a s' → I s')
    (henv : ∀ t s s', ok s (.env t) → I s → S.env t s = some s' → I s')
    (h : RunsWhile S ok s ls s') (hI : I s) : I s' := by
  induction h with
  | nil => exact hI
  | call _ hexec hok ih => exact hcall _ _ _ _ _ hok ih hexec
  | env _ ht hok ih => exact henv _ _ _ hok ih ht

/-- What every happening shows, as long as what all of them preserve holds, is
    true of all that happened in the run. -/
theorem RunsWhile.forall {ok : σ → Happening ε ρ τ Ret → Prop} {I : σ → Prop}
    {good : Happening ε ρ τ Ret → Prop}
    (hcall : ∀ c a es s s', ok s (.call c a es) → I s → Exec s (S.body c) es a s' →
      I s' ∧ good (.call c a es))
    (henv : ∀ t s s', ok s (.env t) → I s → S.env t s = some s' → I s' ∧ good (.env t))
    (h : RunsWhile S ok s ls s') (hI : I s) : I s' ∧ ∀ l ∈ ls, good l := by
  induction h with
  | nil => exact ⟨hI, fun _ hl => absurd hl List.not_mem_nil⟩
  -- The invariant before the call is what makes it a good one.
  | call _ hexec hok ih =>
      have hlast := hcall _ _ _ _ _ hok ih.1 hexec
      exact ⟨hlast.1, List.forall_mem_cons.mpr ⟨hlast.2, ih.2⟩⟩
  | env _ ht hok ih =>
      have hlast := henv _ _ _ hok ih.1 ht
      exact ⟨hlast.1, List.forall_mem_cons.mpr ⟨hlast.2, ih.2⟩⟩

/-- A run of happenings that always meet the condition meets it. -/
theorem runsWhile_of_runs {ok : σ → Happening ε ρ τ Ret → Prop} (h : Runs S s ls s')
    (hok : ∀ l ∈ ls, ∀ s, ok s l) : RunsWhile S ok s ls s' := by
  induction h with
  | nil => exact .nil
  | call _ hexec ih =>
      exact .call (ih fun l hl => hok l (List.mem_cons_of_mem _ hl)) hexec
        (hok _ List.mem_cons_self _)
  | env _ henv ih =>
      exact .env (ih fun l hl => hok l (List.mem_cons_of_mem _ hl)) henv
        (hok _ List.mem_cons_self _)

/-- If every call is safe from `r₀` and what it ends with suffices to start the
    next one, the invariant holds between the calls. -/
theorem runs_inv {P : Protocol M σ ε ρ} {r₀ : M} (ok : Happening ε ρ τ Ret → Prop)
    (Post : (c : ρ) → Ret c → M → Prop) (hguard : ∀ s h x, P.guard s h x)
    (hbody : ∀ c, Safe P c (S.body c) r₀ (Post c))
    (hrestart : ∀ c a es r s, ok (.call c a es) → Post c a r → P.Inv r s (es.map (c, ·)) →
      P.Inv r₀ s [])
    (henv : ∀ t s s', ok (.env t) → S.env t s = some s' → P.Inv r₀ s [] → P.Inv r₀ s' [])
    (h : Runs S s ls s') (hok : ∀ l ∈ ls, ok l) (hinv : P.Inv r₀ s []) : P.Inv r₀ s' [] := by
  refine h.induct (I := fun s => P.Inv r₀ s []) ?_ (fun t s s' ht hinv henv' =>
    henv t s s' ht henv' hinv) hok hinv
  intro c a es s s' hc hinv hexec
  have hstart : P.Inv (r₀ + 0) s [] := by rwa [add_zero]
  rcases safe_exec hexec hguard r₀ 0 [] (Post c) (hbody c) hstart with ⟨r, hinv', hpost⟩
  rw [add_zero, List.append_nil] at hinv'
  exact hrestart c a es r s' hc hpost hinv'

section Evaluation

/-- The leftmost step of a program. It is tried with the blank answer first
    and takes one from the list if it needs another. -/
def Prog.stepWith {α : Type} (blank : ω) (is : List ω) (s : σ) (p : Prog σ ω ε α) :
    Option ((Option ε × σ × Prog σ ω ε α) × List ω) :=
  match p.stepLeft blank s with
  | some x => some (x, is)
  | none =>
      match is with
      | [] => none
      | i :: is => (p.stepLeft i s).map fun x => (x, is)

theorem step_of_stepWith {α : Type} {blank : ω} {is is' : List ω} {s s' : σ}
    {p p' : Prog σ ω ε α} {e : Option ε}
    (h : p.stepWith blank is s = some ((e, s', p'), is')) : Step s p e s' p' := by
  unfold Prog.stepWith at h
  split at h
  · next x hx =>
      cases h
      exact step_of_stepLeft p blank _ _ _ _ hx
  · split at h
    · cases h
    · next _ i is =>
        rcases Option.map_eq_some_iff.mp h with ⟨x, hx, heq⟩
        cases heq
        exact step_of_stepLeft p i _ _ _ _ hx

/-- Run a program alone for a number of steps at most. -/
def Prog.runAlone {α : Type} (blank : ω) :
    Nat → List ω → σ → Prog σ ω ε α → Option (List ε × α × σ)
  | 0, _, s, p => p.answer.map fun a => ([], a, s)
  | n + 1, is, s, p =>
      match p.answer with
      | some a => some ([], a, s)
      | none => (p.stepWith blank is s).bind fun y =>
          (runAlone blank n y.2 y.1.2.1 y.1.2.2).map fun r => (r.1 ++ y.1.1.toList, r.2)

/-- An evaluation is a run alone. -/
theorem exec_of_runAlone {α : Type} (blank : ω) (n : Nat) :
    ∀ (is : List ω) (s : σ) (p : Prog σ ω ε α) (es : List ε) (a : α) (s' : σ),
      p.runAlone blank n is s = some (es, a, s') → Exec s p es a s' := by
  induction n with
  | zero =>
      intro is s p es a s' h
      rcases Option.map_eq_some_iff.mp h with ⟨b, hb, heq⟩
      cases heq
      rw [eq_done_of_answer hb]
      exact .done
  | succ n ih =>
      intro is s p es a s' h
      rw [Prog.runAlone] at h
      split at h
      · next b hb =>
          cases h
          rw [eq_done_of_answer hb]
          exact .done
      -- One unit of fuel pays for one step.
      · rcases Option.bind_eq_some_iff.mp h with ⟨⟨⟨e, s₁, p₁⟩, is₁⟩, hstep, hrest⟩
        rcases Option.map_eq_some_iff.mp hrest with ⟨⟨es₁, a₁, s₂⟩, hrun, heq⟩
        cases heq
        exact .step (step_of_stepWith hstep) (ih _ _ _ _ _ _ hrun)

/-- A call with the answers it takes from outside, or a change. -/
inductive Turn (ω ρ τ : Type)
  | call (c : ρ) (answers : List ω)
  | env (t : τ)

/-- Play one turn after the other, each call with a number of steps at most. -/
def playTurns (S : System σ ω ε ρ τ Ret) (blank : ω) (fuel : Nat) :
    List (Turn ω ρ τ) → List (Happening ε ρ τ Ret) → σ → Option (List (Happening ε ρ τ Ret) × σ)
  | [], ls, s => some (ls, s)
  | .call c answers :: ts, ls, s =>
      match (S.body c).runAlone blank fuel answers s with
      | none => none
      | some (es, a, s') => playTurns S blank fuel ts (.call c a es :: ls) s'
  | .env t :: ts, ls, s =>
      match S.env t s with
      | none => none
      | some s' => playTurns S blank fuel ts (.env t :: ls) s'

/-- What can be played is a run. -/
theorem runs_of_playTurns (S : System σ ω ε ρ τ Ret) (blank : ω) (fuel : Nat)
    (ts : List (Turn ω ρ τ)) : ∀ (init s : σ) (ls : List (Happening ε ρ τ Ret))
      (r : List (Happening ε ρ τ Ret) × σ), Runs S init ls s →
      playTurns S blank fuel ts ls s = some r → Runs S init r.1 r.2 := by
  induction ts with
  | nil =>
      intro init s ls r hruns h
      cases h
      exact hruns
  | cons t ts ih =>
      intro init s ls r hruns h
      -- A turn is a whole call or one change of the surroundings.
      cases t with
      | call c answers =>
          rw [playTurns] at h
          split at h
          · cases h
          · next es a s' hrun =>
              exact ih init s' _ r (.call hruns (exec_of_runAlone _ _ _ _ _ _ _ _ hrun)) h
      | env t =>
          rw [playTurns] at h
          split at h
          · cases h
          · next s' henv => exact ih init s' _ r (.env hruns henv) h

/-- A list of turns whose end passes a test is a run that passes it. -/
theorem exists_runs (S : System σ ω ε ρ τ Ret) (blank : ω) (fuel : Nat) (init : σ)
    (ts : List (Turn ω ρ τ)) (test : List (Happening ε ρ τ Ret) × σ → Bool)
    (h : (playTurns S blank fuel ts [] init).any test = true) :
    ∃ ls s, Runs S init ls s ∧ test (ls, s) = true := by
  rcases (Option.any_eq_true _ _).mp h with ⟨r, hr, htest⟩
  exact ⟨r.1, r.2, runs_of_playTurns S blank fuel ts init init [] r .nil hr, htest⟩

end Evaluation

end Interleave
