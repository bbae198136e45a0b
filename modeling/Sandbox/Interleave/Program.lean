import Mathlib.Logic.Relation

/-!
# Programs over a Shared Store

A program is a tree of atomic actions on a store that other programs share.
Between two of its actions anything may happen to the store, so a program is
not a function on stores: it is the list of what it does next, given the
answer to what it did last.

`par` is the join of two branches that run in any interleaving and hand both
answers on. It is what awaiting several calls at once means, and it nests, so
a branch may itself be a program of many actions.

An action may need an answer from outside the store, such as a random value
or the reply of another server. That answer is the argument of type `ω`, and
`none` says that this answer cannot occur. An action may also be logged: it
then leaves an event, computed from its answer, in the history of the run.
Conditions on a run and the statements about it speak of these events.

## Main definitions

* `Prog`: Programs over a store.
* `Prog.bind`: Running one program after another.
* `Prog.atomic`, `Prog.read`, `Prog.write`: The actions without outside input.
* `Prog.logged`, `Prog.emit`: Actions that leave an event.
* `Prog.ask`: An action that takes an answer from outside.
* `Prog.both`, `Prog.all`: Awaiting two programs, or a list of them.
* `Step`: One atomic step of a program.
* `Exec`: A program running to its end with nothing else running.

## Theorems

* `Prog.bind_done`, `Prog.bind_assoc`: The laws of sequences.
* `exec_bind`, `exec_seq`: A run of a sequence splits at the middle.
* `exec_left`, `exec_right`: A branch may run first.
* `exec_act`: A run of an action is that action and a run of the rest.
* `exec_done`, `exec_done_iff`: A finished program runs to its own answer.
* `exec_act_bind`: A run of a sequence that starts with an action.
* `exec_read`, `exec_write`, `exec_logged`: What the actions do.
* `exec_of_read`: A run that starts with a look at the store.
-/

namespace Interleave

/-- Programs with atomic actions on a store of type `σ`, answers from outside
    of type `ω` and events of type `ε`. -/
inductive Prog (σ ω ε : Type) : Type → Type 1
  | done {α : Type} (a : α) : Prog σ ω ε α
  | act {α β : Type} (event : β → Option ε) (run : ω → σ → Option (β × σ))
      (next : β → Prog σ ω ε α) : Prog σ ω ε α
  | par {α β γ : Type} (left : Prog σ ω ε β) (right : Prog σ ω ε γ)
      (next : β × γ → Prog σ ω ε α) : Prog σ ω ε α

namespace Prog

variable {σ ω ε : Type}

/-- Run a program, then the one its answer selects. -/
def bind {α β : Type} : Prog σ ω ε α → (α → Prog σ ω ε β) → Prog σ ω ε β
  | .done a, f => f a
  | .act event run next, f => .act event run fun b => (next b).bind f
  | .par left right next, f => .par left right fun b => (next b).bind f

instance : Monad (Prog σ ω ε) where
  pure := .done
  bind := bind

@[simp] theorem pure_eq {α : Type} (a : α) : (pure a : Prog σ ω ε α) = .done a := rfl

@[simp] theorem done_bind {α β : Type} (a : α) (f : α → Prog σ ω ε β) :
    (Prog.done a >>= f) = f a := rfl

@[simp] theorem act_bind {α β γ : Type} (event : γ → Option ε)
    (run : ω → σ → Option (γ × σ)) (next : γ → Prog σ ω ε α) (f : α → Prog σ ω ε β) :
    (Prog.act event run next >>= f) = .act event run fun b => next b >>= f := rfl

@[simp] theorem par_bind {α β γ δ : Type} (left : Prog σ ω ε γ) (right : Prog σ ω ε δ)
    (next : γ × δ → Prog σ ω ε α) (f : α → Prog σ ω ε β) :
    (Prog.par left right next >>= f) = .par left right fun b => next b >>= f := rfl

/-- Handing on the answer does nothing. -/
theorem bind_done {α : Type} (p : Prog σ ω ε α) : (p >>= .done) = p := by
  induction p with
  | done a => rfl
  | act event run next ih => exact congrArg (Prog.act event run) (funext ih)
  | par left right next _ _ ih => exact congrArg (Prog.par left right) (funext ih)

/-- Sequences of programs associate, by induction on the first. -/
theorem bind_assoc {α β γ : Type} (p : Prog σ ω ε α) (f : α → Prog σ ω ε β)
    (g : β → Prog σ ω ε γ) : (p >>= f >>= g) = (p >>= fun a => f a >>= g) := by
  induction p with
  | done a => rfl
  | act event run next ih => exact congrArg (Prog.act event run) (funext fun b => ih b f)
  | par left right next _ _ ih => exact congrArg (Prog.par left right) (funext fun b => ih b f)

/-- An action that needs nothing from outside and leaves no event. -/
def atomic {β : Type} (f : σ → β × σ) : Prog σ ω ε β :=
  .act (fun _ => none) (fun _ s => some (f s)) .done

/-- An action that only looks at the store. -/
def read {β : Type} (f : σ → β) : Prog σ ω ε β :=
  atomic fun s => (f s, s)

/-- An action that only changes the store. -/
def write (f : σ → σ) : Prog σ ω ε Unit :=
  atomic fun s => ((), f s)

/-- An action that leaves an event computed from its answer. -/
def logged {β : Type} (event : β → ε) (f : σ → β × σ) : Prog σ ω ε β :=
  .act (fun b => some (event b)) (fun _ s => some (f s)) .done

/-- Leave an event and do nothing else. -/
def emit (e : ε) : Prog σ ω ε Unit :=
  logged (fun _ => e) fun s => ((), s)

/-- An action that takes an answer from outside. -/
def ask {β : Type} (f : ω → σ → Option (β × σ)) : Prog σ ω ε β :=
  .act (fun _ => none) f .done

/-- Await two programs at once. -/
def both {β γ : Type} (left : Prog σ ω ε β) (right : Prog σ ω ε γ) : Prog σ ω ε (β × γ) :=
  .par left right .done

/-- Await a list of programs at once, keeping the order of their answers. -/
def all {β : Type} : List (Prog σ ω ε β) → Prog σ ω ε (List β)
  | [] => .done []
  | p :: ps => .par p (all ps) fun b => .done (b.1 :: b.2)

end Prog

variable {σ ω ε : Type}

/-- One atomic step of a program on a store, with the event it leaves. -/
inductive Step : {α : Type} → σ → Prog σ ω ε α → Option ε → σ → Prog σ ω ε α → Prop
  | act {α β : Type} {event : β → Option ε} {run : ω → σ → Option (β × σ)}
      {next : β → Prog σ ω ε α} {i : ω} {s s' : σ} {b : β} (h : run i s = some (b, s')) :
      Step s (.act event run next) (event b) s' (next b)
  | left {α β γ : Type} {s s' : σ} {e : Option ε} {p p' : Prog σ ω ε β} {q : Prog σ ω ε γ}
      {next : β × γ → Prog σ ω ε α} (h : Step s p e s' p') :
      Step s (.par p q next) e s' (.par p' q next)
  | right {α β γ : Type} {s s' : σ} {e : Option ε} {p : Prog σ ω ε β} {q q' : Prog σ ω ε γ}
      {next : β × γ → Prog σ ω ε α} (h : Step s q e s' q') :
      Step s (.par p q next) e s' (.par p q' next)
  | join {α β γ : Type} {s : σ} {b : β} {c : γ} {next : β × γ → Prog σ ω ε α} :
      Step s (.par (.done b) (.done c) next) none s (next (b, c))

/-- A program runs from one store to another with nothing else running, gives
    an answer and leaves events, the latest first. -/
inductive Exec : {α : Type} → σ → Prog σ ω ε α → List ε → α → σ → Prop
  | done {α : Type} {s : σ} {a : α} : Exec s (.done a) [] a s
  | step {α : Type} {s s₁ s' : σ} {p p₁ : Prog σ ω ε α} {e : Option ε} {es : List ε} {a : α}
      (h : Step s p e s₁ p₁) (rest : Exec s₁ p₁ es a s') :
      Exec s p (es ++ e.toList) a s'

theorem exec_done {α : Type} {s s' : σ} {a b : α} {es : List ε}
    (h : Exec (ω := ω) s (.done a) es b s') : es = [] ∧ b = a ∧ s' = s := by
  cases h with
  | done => exact ⟨rfl, rfl, rfl⟩
  | step h _ => cases h

/-- A run of an action is its step and a run of what follows. -/
theorem exec_act {α β : Type} {event : β → Option ε} {run : ω → σ → Option (β × σ)}
    {next : β → Prog σ ω ε α} {s s' : σ} {es : List ε} {a : α}
    (h : Exec s (.act event run next) es a s') :
    ∃ i b s₁ es', run i s = some (b, s₁) ∧ Exec s₁ (next b) es' a s' ∧
      es = es' ++ (event b).toList := by
  cases h with
  | step h rest =>
      cases h with
      | act hrun => exact ⟨_, _, _, _, hrun, rest, rfl⟩

theorem exec_done_iff {α : Type} {s s' : σ} {a b : α} {es : List ε} :
    Exec (ω := ω) s (.done a) es b s' ↔ es = [] ∧ b = a ∧ s' = s := by
  constructor
  · exact exec_done
  · rintro ⟨rfl, rfl, rfl⟩
    exact .done

/-- A run that starts with an action which takes nothing from outside. -/
theorem exec_act_bind {α β : Type} {event : β → Option ε} {f : σ → β × σ} {g : β → Prog σ ω ε α}
    {s s' : σ} {es : List ε} {a : α} (i : ω) (hevent : event (f s).1 = none) :
    Exec s (Prog.act event (fun _ s => some (f s)) .done >>= g) es a s' ↔
      Exec (f s).2 (g (f s).1) es a s' := by
  constructor
  · intro h
    rcases exec_act h with ⟨_, b, s₁, es', hrun, hrest, rfl⟩
    have heq : f s = (b, s₁) := Option.some.inj hrun
    rw [heq] at hevent ⊢
    rw [hevent, Option.toList_none, List.append_nil]
    exact hrest
  · intro h
    have hes : es = es ++ (event (f s).1).toList := by
      rw [hevent, Option.toList_none, List.append_nil]
    rw [hes]
    exact .step (.act (i := i) rfl) h

/-- A branch may run to its end before the other one begins. -/
theorem exec_left {α β γ : Type} {p : Prog σ ω ε β} {q : Prog σ ω ε γ}
    {next : β × γ → Prog σ ω ε α} {s s₁ s' : σ} {es es' : List ε} {b : β} {a : α}
    (hp : Exec s p es b s₁) (hrest : Exec s₁ (.par (.done b) q next) es' a s') :
    Exec s (.par p q next) (es' ++ es) a s' := by
  induction hp with
  | done =>
      rw [List.append_nil]
      exact hrest
  | step h _ ih =>
      rw [← List.append_assoc]
      exact .step (.left h) (ih hrest)

/-- Of two programs side by side, the right one may run first. -/
theorem exec_right {α β γ : Type} {p : Prog σ ω ε β} {q : Prog σ ω ε γ}
    {next : β × γ → Prog σ ω ε α} {s s₁ s' : σ} {es es' : List ε} {c : γ} {a : α}
    (hq : Exec s q es c s₁) (hrest : Exec s₁ (.par p (.done c) next) es' a s') :
    Exec s (.par p q next) (es' ++ es) a s' := by
  induction hq with
  | done =>
      rw [List.append_nil]
      exact hrest
  | step h _ ih =>
      rw [← List.append_assoc]
      exact .step (.right h) (ih hrest)

theorem exec_atomic {β : Type} {f : σ → β × σ} {s s' : σ} {es : List ε} {b : β}
    (h : Exec (ω := ω) s (Prog.atomic f) es b s') :
    es = [] ∧ b = (f s).1 ∧ s' = (f s).2 := by
  rcases exec_act h with ⟨_, b', s₁, es', hrun, hdone, rfl⟩
  rcases exec_done hdone with ⟨rfl, rfl, rfl⟩
  have hb : f s = (b, s') := Option.some.inj hrun
  exact ⟨rfl, by rw [hb], by rw [hb]⟩

/-- A run of a read answers what it reads and changes nothing. -/
theorem exec_read {β : Type} {f : σ → β} {s s' : σ} {es : List ε} {b : β}
    (h : Exec (ω := ω) s (Prog.read f) es b s') : es = [] ∧ b = f s ∧ s' = s :=
  exec_atomic h

/-- A program that looks at the store first runs as what it goes on with. -/
theorem exec_of_read {α β : Type} {f : σ → β} {g : β → Prog σ ω ε α} {s s' : σ} {es : List ε}
    {a : α} (i : ω) (h : Exec s (g (f s)) es a s') : Exec s (Prog.read f >>= g) es a s' := by
  have hstep : Step s (Prog.read f >>= g) none s (g (f s)) :=
    @Step.act _ _ _ α β (fun _ => none) (fun _ s => some (f s, s)) g i s s (f s) rfl
  have hexec := Exec.step hstep h
  rwa [Option.toList_none, List.append_nil] at hexec

theorem exec_write {f : σ → σ} {s s' : σ} {es : List ε} {b : Unit}
    (h : Exec (ω := ω) s (Prog.write f) es b s') : es = [] ∧ s' = f s :=
  ⟨(exec_atomic h).1, (exec_atomic h).2.2⟩

/-- A run of a recorded step makes its change and records it. -/
theorem exec_logged {β : Type} {event : β → ε} {f : σ → β × σ} {s s' : σ} {es : List ε} {b : β}
    (h : Exec (ω := ω) s (Prog.logged event f) es b s') :
    es = [event b] ∧ b = (f s).1 ∧ s' = (f s).2 := by
  rcases exec_act h with ⟨_, b', s₁, es', hrun, hdone, rfl⟩
  rcases exec_done hdone with ⟨rfl, rfl, rfl⟩
  have hb : f s = (b, s') := Option.some.inj hrun
  exact ⟨rfl, by rw [hb], by rw [hb]⟩

/-- A sequence steps as its head does. -/
theorem step_bind {α β : Type} {p p₁ : Prog σ ω ε α} {f : α → Prog σ ω ε β} {s s₁ : σ}
    {e : Option ε} (h : Step s p e s₁ p₁) : Step s (p >>= f) e s₁ (p₁ >>= f) := by
  cases h with
  | act hrun => exact .act hrun
  | left hl => exact .left hl
  | right hr => exact .right hr
  | join => exact .join

/-- A run of the head and one of the tail are a run of the sequence. -/
theorem exec_seq {α β : Type} {p : Prog σ ω ε α} {f : α → Prog σ ω ε β} {s s₁ s' : σ}
    {es es' : List ε} {a : α} {b : β} (hp : Exec s p es a s₁) (hf : Exec s₁ (f a) es' b s') :
    Exec s (p >>= f) (es' ++ es) b s' := by
  induction hp with
  | done =>
      rw [List.append_nil]
      exact hf
  | step h _ ih =>
      rw [← List.append_assoc]
      exact .step (step_bind h) (ih hf)

/-- A run of a sequence is a run of its head followed by a run of its tail. -/
theorem exec_bind {α β : Type} {p : Prog σ ω ε α} {f : α → Prog σ ω ε β} {s s' : σ}
    {es : List ε} {b : β} (h : Exec s (p >>= f) es b s') :
    ∃ a s₁ es₁ es₂, Exec s p es₁ a s₁ ∧ Exec s₁ (f a) es₂ b s' ∧ es = es₂ ++ es₁ := by
  -- The run belongs to the first program until that is done, by induction on it.
  generalize hq : (p >>= f) = q at h
  induction h generalizing p with
  | done =>
      cases p with
      | done a =>
          have hf : f a = _ := hq
          exact ⟨a, _, [], _, Exec.done, by rw [hf]; exact Exec.done, rfl⟩
      | act event run next => cases hq
      | par left right next => cases hq
  | step hstep hrest ih =>
      cases p with
      | done a =>
          have hf : f a = _ := hq
          exact ⟨a, _, [], _, Exec.done, by rw [hf]; exact Exec.step hstep hrest,
            (List.append_nil _).symm⟩
      | act event run next =>
          cases hq
          cases hstep with
          | act hrun =>
              rcases ih rfl with ⟨a, s₁, es₁, es₂, h₁, h₂, rfl⟩
              exact ⟨a, s₁, _, es₂, .step (.act hrun) h₁, h₂, List.append_assoc _ _ _⟩
      | par left right next =>
          cases hq
          cases hstep with
          | left hl =>
              rcases ih (Prog.par_bind _ right next f) with ⟨a, s₁, es₁, es₂, h₁, h₂, rfl⟩
              exact ⟨a, s₁, _, es₂, .step (.left hl) h₁, h₂, List.append_assoc _ _ _⟩
          | right hr =>
              rcases ih (Prog.par_bind left _ next f) with ⟨a, s₁, es₁, es₂, h₁, h₂, rfl⟩
              exact ⟨a, s₁, _, es₂, .step (.right hr) h₁, h₂, List.append_assoc _ _ _⟩
          | join =>
              rcases ih rfl with ⟨a, s₁, es₁, es₂, h₁, h₂, rfl⟩
              exact ⟨a, s₁, _, es₂, .step .join h₁, h₂, List.append_assoc _ _ _⟩

end Interleave
