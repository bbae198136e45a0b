import Sandbox.Interleave.Resource

/-!
# Clients of Another System

A program that asks another system and goes on with its answer takes that
answer from outside, where anything may come from. Here the answer has to fit
what the call has asked. A call keeps a note of its own events, such as the
request it has sent last, and each of its steps takes only answers that are
right for the note.

`Tells` says of a program that, as long as all answers are right, its events
are justified by the note at that moment. It is a statement about the text of
the program, and `told_of_run` makes it one about every run: who left an event
had a note that justifies it, and what is on a note happened.

Two systems run side by side in a `JointStep`, and the pool of the one decides
which answers are right for the calls of the other. If answers that were right
remain so, the two can be taken apart (`split_of_joint`).

## Main definitions

* `StepOn`: A step that takes a right answer from outside.
* `Notes`, `Asking`, `Asked`: What calls keep a note of, a call with its note,
  and a pool of them.
* `AskedStep`: One step of such a pool.
* `Tells`: A program whose events are justified.
* `AskedMove`, `Asked.play`: Schedules and their evaluation.
* `ExecOn`, `Prog.runOn`: A call that runs alone on right answers, and its evaluation.
* `JointStep`: A step of one of two systems.

## Theorems

* `poolStep_of_asked`: Such a pool is a pool.
* `tells_bind`, `tells_act`, `tells_within`: The rules.
* `told_of_run`: Every event of a run was justified.
* `good_of_execOn`: Every event of a call that runs alone was justified.
* `asked_of_play_any`: A schedule of right moves that can be played is a run.
* `split_of_joint`, `joint_of_runs`: A run of both systems is a run of each.
-/

namespace Interleave

variable {σ ω ε ρ τ κ : Type} {Ret : ρ → Type}

/-- One atomic step of a program that takes from outside only an answer that
    is right. -/
inductive StepOn (right : ω → Prop) :
    {α : Type} → σ → Prog σ ω ε α → Option ε → σ → Prog σ ω ε α → Prop
  | act {α β : Type} {event : β → Option ε} {run : ω → σ → Option (β × σ)}
      {next : β → Prog σ ω ε α} {i : ω} {s s' : σ} {b : β} (hi : right i)
      (h : run i s = some (b, s')) :
      StepOn right s (.act event run next) (event b) s' (next b)
  | left {α β γ : Type} {s s' : σ} {e : Option ε} {p p' : Prog σ ω ε β} {q : Prog σ ω ε γ}
      {next : β × γ → Prog σ ω ε α} (h : StepOn right s p e s' p') :
      StepOn right s (.par p q next) e s' (.par p' q next)
  | right {α β γ : Type} {s s' : σ} {e : Option ε} {p : Prog σ ω ε β} {q q' : Prog σ ω ε γ}
      {next : β × γ → Prog σ ω ε α} (h : StepOn right s q e s' q') :
      StepOn right s (.par p q next) e s' (.par p q' next)
  | join {α β γ : Type} {s : σ} {b : β} {c : γ} {next : β × γ → Prog σ ω ε α} :
      StepOn right s (.par (.done b) (.done c) next) none s (next (b, c))

theorem StepOn.step {right : ω → Prop} {α : Type} {s s' : σ} {p p' : Prog σ ω ε α}
    {e : Option ε} (h : StepOn right s p e s' p') : Step s p e s' p' := by
  induction h with
  | act _ hrun => exact .act hrun
  | left _ ih => exact .left ih
  | right _ ih => exact .right ih
  | join => exact .join

/-- A step on a right answer is one where more is right. -/
theorem StepOn.mono {right right' : ω → Prop} {α : Type} {s s' : σ} {p p' : Prog σ ω ε α}
    {e : Option ε} (h : StepOn right s p e s' p') (hle : ∀ i, right i → right' i) :
    StepOn right' s p e s' p' := by
  induction h with
  | act hi hrun => exact .act (hle _ hi) hrun
  | left _ ih => exact .left ih
  | right _ ih => exact .right ih
  | join => exact .join

/-- What a call keeps a note of: its events change the note it begins with. -/
structure Notes (ε κ : Type) where
  start : κ
  add : κ → ε → κ

/-- The note after a step. -/
def Notes.after (N : Notes ε κ) (k : κ) : Option ε → κ
  | none => k
  | some x => N.add k x

/-- A call, its note and the rest of the program that answers it. -/
structure Asking (σ ω ε ρ κ : Type) (Ret : ρ → Type) where
  call : ρ
  note : κ
  prog : Prog σ ω ε (Ret call)

/-- A pool of calls with their notes. -/
structure Asked (σ ω ε ρ κ : Type) (Ret : ρ → Type) where
  store : σ
  trace : List (ρ × ε)
  threads : List (Asking σ ω ε ρ κ Ret)

/-- The pool without the notes. -/
def Asked.pool (p : Asked σ ω ε ρ κ Ret) : Pool σ ω ε ρ Ret :=
  ⟨p.store, p.trace, p.threads.map fun t => ⟨t.call, t.prog⟩⟩

/-- One step of such a pool, where `right` says which answers fit a note. -/
inductive AskedStep (S : System σ ω ε ρ τ Ret) (N : Notes ε κ) (right : κ → ω → Prop) :
    Asked σ ω ε ρ κ Ret → Asked σ ω ε ρ κ Ret → Prop
  | spawn {s : σ} {h : List (ρ × ε)} {ts : List (Asking σ ω ε ρ κ Ret)} (c : ρ) :
      AskedStep S N right ⟨s, h, ts⟩ ⟨s, h, ts ++ [⟨c, N.start, S.body c⟩]⟩
  | run {s s' : σ} {h : List (ρ × ε)} {ts₁ ts₂ : List (Asking σ ω ε ρ κ Ret)} {c : ρ} {k : κ}
      {p p' : Prog σ ω ε (Ret c)} {e : Option ε} (hstep : StepOn (right k) s p e s' p') :
      AskedStep S N right ⟨s, h, ts₁ ++ ⟨c, k, p⟩ :: ts₂⟩
        ⟨s', logEvent c e h, ts₁ ++ ⟨c, N.after k e, p'⟩ :: ts₂⟩
  | env {s s' : σ} {h : List (ρ × ε)} {ts : List (Asking σ ω ε ρ κ Ret)} (t : τ)
      (henv : S.env t s = some s') :
      AskedStep S N right ⟨s, h, ts⟩ ⟨s', h, ts⟩

/-- The pools that runs from a store reach. -/
def AskedReachable (S : System σ ω ε ρ τ Ret) (N : Notes ε κ) (right : κ → ω → Prop) (init : σ)
    (p : Asked σ ω ε ρ κ Ret) : Prop :=
  Relation.ReflTransGen (AskedStep S N right) ⟨init, [], []⟩ p

section Pools

variable {S : System σ ω ε ρ τ Ret} {N : Notes ε κ} {right right' : κ → ω → Prop}
  {p q : Asked σ ω ε ρ κ Ret} {init : σ}

/-- Forgetting the questions, a step of the pool is one. -/
theorem poolStep_of_asked (h : AskedStep S N right p q) : PoolStep S anyStep p.pool q.pool := by
  cases h with
  | spawn c =>
      unfold Asked.pool
      rw [List.map_append]
      exact .spawn c
  | run hstep =>
      unfold Asked.pool
      rw [List.map_append, List.map_append, List.map_cons, List.map_cons]
      exact .run hstep.step fun _ _ => trivial
  | env t henv => exact .env t henv

/-- A pool with notes is reached as a pool. -/
theorem reachable_of_asked (h : AskedReachable S N right init p) :
    Reachable S anyStep init p.pool := by
  induction h with
  | refl => exact .refl
  | tail _ hstep ih => exact ih.tail (poolStep_of_asked hstep)

/-- A step of the pool is one where more answers are right. -/
theorem askedStep_mono (hle : ∀ k i, right k i → right' k i) (h : AskedStep S N right p q) :
    AskedStep S N right' p q := by
  cases h with
  | spawn c => exact .spawn c
  | run hstep => exact .run (hstep.mono fun i => hle _ i)
  | env t henv => exact .env t henv

end Pools

/-- With the note `k` at its start and right answers, a program leaves only
    events that are `good` for the note of the moment, and ends as `Q` says.
    The notes of a program with branches stay within `K`, and all its events
    are good for all notes there. -/
def Tells (N : Notes ε κ) (right : κ → ω → Prop) (good : κ → ε → Prop) :
    {α : Type} → κ → Prog σ ω ε α → (α → κ → Prop) → Prop
  | _, k, .done a, Q => Q a k
  | _, k, .act event run next, Q => ∀ i s b s', right k i → run i s = some (b, s') →
      (∀ x, event b = some x → good k x) ∧ Tells N right good (N.after k (event b)) (next b) Q
  | _, k, .par left rgt next, Q => ∃ K : κ → Prop, K k ∧
      Within (fun _ _ => True) (fun x => ∀ k, K k → good k x ∧ K (N.add k x)) left ∧
      Within (fun _ _ => True) (fun x => ∀ k, K k → good k x ∧ K (N.add k x)) rgt ∧
      ∀ x k', K k' → Tells N right good k' (next x) Q

section Rules

variable {N : Notes ε κ} {right : κ → ω → Prop} {good : κ → ε → Prop} {α β : Type} {k : κ}

theorem tells_pure {a : α} {Q : α → κ → Prop} (h : Q a k) :
    Tells (σ := σ) N right good k (pure a) Q := h

theorem tells_bind {p : Prog σ ω ε α} {f : α → Prog σ ω ε β} {Q : α → κ → Prop}
    {R : β → κ → Prop} (hp : Tells N right good k p Q)
    (hf : ∀ a k', Q a k' → Tells N right good k' (f a) R) :
    Tells N right good k (p >>= f) R := by
  induction p generalizing k with
  | done a => exact hf a k hp
  | act event run next ih =>
      intro i s b s' hi hrun
      rcases hp i s b s' hi hrun with ⟨hgood, hnext⟩
      exact ⟨hgood, ih b hnext hf⟩
  | par left rgt next _ _ ih =>
      rcases hp with ⟨K, hk, hl, hr, hnext⟩
      exact ⟨K, hk, hl, hr, fun x k' hk' => ih x (hnext x k' hk') hf⟩

/-- One action: its event has to be good, and what follows is known of the
    answer and of the new note. -/
theorem tells_act {event : β → Option ε} {run : ω → σ → Option (β × σ)} {Q : β → κ → Prop}
    (h : ∀ i s b s', right k i → run i s = some (b, s') →
      (∀ x, event b = some x → good k x) ∧ Q b (N.after k (event b))) :
    Tells N right good k (.act event run .done) Q := h

/-- A program whose events are good for all notes in `K` and lead nowhere
    else. -/
theorem tells_within {K : κ → Prop} {p : Prog σ ω ε α}
    (h : Within (fun _ _ => True) (fun x => ∀ k, K k → good k x ∧ K (N.add k x)) p) (hk : K k) :
    Tells N right good k p fun _ k' => K k' := by
  induction p generalizing k with
  | done a => exact hk
  | act event run next ih =>
      intro i s b s' _ hrun
      rcases h i s b s' hrun with ⟨_, hevent, hnext⟩
      refine ⟨fun x hx => (hevent x hx k hk).1, ih b hnext ?_⟩
      -- A step without an event leaves the notes alone.
      cases hb : event b with
      | none => exact hk
      | some x => exact (hevent x hb k hk).2
  | par left rgt next _ _ ih =>
      exact ⟨K, hk, h.1, h.2.1, fun x k' hk' => ih x (h.2.2 x) hk'⟩

/-- A step keeps its promise. -/
theorem tells_step {p p' : Prog σ ω ε α} {s s' : σ} {e : Option ε} {Q : α → κ → Prop}
    (hstep : StepOn (right k) s p e s' p') (h : Tells N right good k p Q) :
    (∀ x, e = some x → good k x) ∧ Tells N right good (N.after k e) p' Q := by
  cases hstep with
  | act hi hrun => exact h _ _ _ _ hi hrun
  -- A branch keeps the class of notes that both branches are for.
  | left hl =>
      rcases h with ⟨K, hk, hleft, hright, hnext⟩
      rcases within_step hl.step hleft with ⟨_, hevent, hleft'⟩
      refine ⟨fun x hx => (hevent x hx k hk).1, K, ?_, hleft', hright, hnext⟩
      cases e with
      | none => exact hk
      | some x => exact (hevent x rfl k hk).2
  | right hr =>
      rcases h with ⟨K, hk, hleft, hright, hnext⟩
      rcases within_step hr.step hright with ⟨_, hevent, hright'⟩
      refine ⟨fun x hx => (hevent x hx k hk).1, K, ?_, hleft, hright', hnext⟩
      cases e with
      | none => exact hk
      | some x => exact (hevent x rfl k hk).2
  | join =>
      rcases h with ⟨K, hk, _, _, hnext⟩
      exact ⟨fun _ hx => (nomatch hx), hnext _ k hk⟩

end Rules

section Runs

variable {S : System σ ω ε ρ τ Ret} {N : Notes ε κ} {right : κ → ω → Prop}

/-- What has happened is on the notes: of a note and the call that keeps it. -/
structure Kept (N : Notes ε κ) (kept : ρ → κ → List (ρ × ε) → Prop) : Prop where
  start : ∀ c h, kept c N.start h
  add : ∀ c k x h, kept c k h → kept c (N.add k x) ((c, x) :: h)
  later : ∀ c k y h, kept c k h → kept c k (y :: h)

/-- A call with its note is on its way. -/
def OnItsWay (N : Notes ε κ) (right : κ → ω → Prop) (good : ρ → κ → ε → Prop)
    (kept : ρ → κ → List (ρ × ε) → Prop) (h : List (ρ × ε)) (t : Asking σ ω ε ρ κ Ret) : Prop :=
  kept t.call t.note h ∧ Tells N right (good t.call) t.note t.prog fun _ _ => True

/-- Every event was good for the note of the call that left it, and what is on
    that note has happened. -/
def Told (good : ρ → κ → ε → Prop) (kept : ρ → κ → List (ρ × ε) → Prop)
    (h : List (ρ × ε)) : Prop :=
  ∀ c x, (c, x) ∈ h → ∃ k, kept c k h ∧ good c k x

variable {good : ρ → κ → ε → Prop} {kept : ρ → κ → List (ρ × ε) → Prop}

theorem kept_log (hkept : Kept N kept) {c c' : ρ} {k : κ} {e : Option ε} {h : List (ρ × ε)}
    (hk : kept c k h) : kept c k (logEvent c' e h) := by
  cases e with
  | none => exact hk
  | some x => exact hkept.later c k _ h hk

/-- One step of the pool keeps every call on its way and every event told. -/
theorem told_step (hkept : Kept N kept)
    (hbody : ∀ c, Tells N right (good c) N.start (S.body c) fun _ _ => True)
    {p q : Asked σ ω ε ρ κ Ret} (h : AskedStep S N right p q)
    (hp : (∀ t ∈ p.threads, OnItsWay N right good kept p.trace t) ∧ Told good kept p.trace) :
    (∀ t ∈ q.threads, OnItsWay N right good kept q.trace t) ∧ Told good kept q.trace := by
  rcases hp with ⟨hway, htold⟩
  cases h with
  | spawn c =>
      refine ⟨fun t ht => ?_, htold⟩
      rcases List.mem_append.mp ht with ht | ht
      · exact hway t ht
      · rw [List.mem_singleton] at ht
        subst ht
        exact ⟨hkept.start c _, hbody c⟩
  | @run s s' h ts₁ ts₂ c k p p' e hstep =>
      have hthread : OnItsWay N right good kept h ⟨c, k, p⟩ :=
        hway _ (List.mem_append_right ts₁ List.mem_cons_self)
      -- The step was told by what its call had been given.
      rcases tells_step hstep hthread.2 with ⟨hgood, hnext⟩
      refine ⟨fun t ht => ?_, ?_⟩
      · -- The others keep their notes, and this one adds its event.
        have hold : ∀ t ∈ ts₁ ++ ⟨c, k, p⟩ :: ts₂, OnItsWay N right good kept (logEvent c e h) t :=
          fun t ht => ⟨kept_log hkept (hway t ht).1, (hway t ht).2⟩
        rcases List.mem_append.mp ht with ht | ht
        · exact hold t (List.mem_append_left _ ht)
        · rcases List.mem_cons.mp ht with rfl | ht
          · refine ⟨?_, hnext⟩
            cases e with
            | none => exact hthread.1
            | some x => exact hkept.add c k x h hthread.1
          · exact hold t (List.mem_append_right _ (List.mem_cons_of_mem _ ht))
      · intro c' x hx
        cases e with
        | none => exact htold c' x hx
        | some y =>
            rcases List.mem_cons.mp hx with heq | hx
            · cases heq
              exact ⟨k, hkept.later _ _ _ _ hthread.1, hgood x rfl⟩
            · rcases htold c' x hx with ⟨k', hk', hx'⟩
              exact ⟨k', hkept.later _ _ _ _ hk', hx'⟩
  | env t henv => exact ⟨hway, htold⟩

/-- Every event of a run was justified by what its call had done before. -/
theorem told_of_run (hkept : Kept N kept)
    (hbody : ∀ c, Tells N right (good c) N.start (S.body c) fun _ _ => True) {init : σ}
    {p : Asked σ ω ε ρ κ Ret} (h : AskedReachable S N right init p) : Told good kept p.trace := by
  -- What the threads have yet to do and what they did, kept together.
  have hboth : (∀ t ∈ p.threads, OnItsWay N right good kept p.trace t) ∧
      Told good kept p.trace := by
    induction h with
    | refl =>
        exact ⟨fun _ ht => absurd ht List.not_mem_nil, fun _ _ hx => absurd hx List.not_mem_nil⟩
    | tail _ hstep ih => exact told_step hkept hbody hstep ih
  exact hboth.2

end Runs

section Play

/-- A move of a schedule: a call arrives, or the thread at an index takes its
    leftmost step with an answer that is right for the notes passing a test. -/
inductive AskedMove (ω ρ κ : Type)
  | spawn (c : ρ)
  | run (index : Nat) (test : κ → Bool) (i : ω)

/-- The answer of a move is right for the notes that pass its test. -/
def AskedMove.Right (right : κ → ω → Prop) : AskedMove ω ρ κ → Prop
  | .spawn _ => True
  | .run _ test i => ∀ k, test k = true → right k i

/-- Play one move. -/
def Asked.move (S : System σ ω ε ρ τ Ret) (N : Notes ε κ) (p : Asked σ ω ε ρ κ Ret) :
    AskedMove ω ρ κ → Option (Asked σ ω ε ρ κ Ret)
  | .spawn c => some ⟨p.store, p.trace, p.threads ++ [⟨c, N.start, S.body c⟩]⟩
  | .run index test i =>
      match p.threads[index]? with
      | none => none
      | some t =>
          -- The answer is given to calls whose note passes the test.
          if test t.note then
            (t.prog.stepLeft i p.store).map fun x =>
              ⟨x.2.1, logEvent t.call x.1 p.trace,
                p.threads.set index ⟨t.call, N.after t.note x.1, x.2.2⟩⟩
          else none

/-- Play a schedule. -/
def Asked.play (S : System σ ω ε ρ τ Ret) (N : Notes ε κ) (p : Asked σ ω ε ρ κ Ret) :
    List (AskedMove ω ρ κ) → Option (Asked σ ω ε ρ κ Ret)
  | [] => some p
  | m :: ms => (p.move S N m).bind fun q => q.play S N ms

/-- The leftmost step with a right answer is one of the steps. -/
theorem stepOn_of_stepLeft {right : ω → Prop} {i : ω} (hi : right i) {α : Type}
    (p : Prog σ ω ε α) : ∀ (s s' : σ) (e : Option ε) (p' : Prog σ ω ε α),
      p.stepLeft i s = some (e, s', p') → StepOn right s p e s' p' := by
  induction p with
  | done a => intro s s' e p' h; cases h
  | act event run next _ =>
      intro s s' e p' h
      rcases Option.map_eq_some_iff.mp h with ⟨⟨b, s₁⟩, hrun, heq⟩
      cases heq
      exact .act hi hrun
  | par left rgt next ihl ihr _ =>
      intro s s' e p' h
      -- The left side steps until it is done, and then the right one.
      rw [Prog.stepLeft] at h
      split at h
      · next b c hl hr =>
          cases h
          rw [eq_done_of_answer hl, eq_done_of_answer hr]
          exact .join
      · rcases Option.map_eq_some_iff.mp h with ⟨⟨e₁, s₁, q⟩, hq, heq⟩
        cases heq
        exact .right (ihr s _ _ _ hq)
      · rcases Option.map_eq_some_iff.mp h with ⟨⟨e₁, s₁, q⟩, hq, heq⟩
        cases heq
        exact .left (ihl s _ _ _ hq)

variable {S : System σ ω ε ρ τ Ret} {N : Notes ε κ} {right : κ → ω → Prop}

theorem askedStep_of_move {p q : Asked σ ω ε ρ κ Ret} {m : AskedMove ω ρ κ} (hm : m.Right right)
    (h : p.move S N m = some q) : AskedStep S N right p q := by
  cases m with
  | spawn c =>
      cases h
      exact .spawn c
  | run index test i =>
      rw [Asked.move] at h
      split at h
      · cases h
      · next t ht =>
          split at h
          · next htest =>
              rcases Option.map_eq_some_iff.mp h with ⟨⟨e, s', p'⟩, hstep, heq⟩
              cases heq
              rcases List.getElem?_eq_some_iff.mp ht with ⟨hlt, hget⟩
              -- The pool is split at the call that steps.
              have hold : p.threads
                  = p.threads.take index ++ t :: p.threads.drop (index + 1) := by
                rw [← hget, List.getElem_cons_drop, List.take_append_drop]
              have hnew : p.threads.set index ⟨t.call, N.after t.note e, p'⟩ = p.threads.take index
                  ++ ⟨t.call, N.after t.note e, p'⟩ :: p.threads.drop (index + 1) :=
                List.set_eq_take_append_cons_drop.trans (if_pos hlt)
              have hrun : AskedStep S N right
                  ⟨p.store, p.trace,
                    p.threads.take index ++ ⟨t.call, t.note, t.prog⟩ :: p.threads.drop (index + 1)⟩
                  ⟨s', logEvent t.call e p.trace, p.threads.take index ++
                    ⟨t.call, N.after t.note e, p'⟩ :: p.threads.drop (index + 1)⟩ :=
                .run (stepOn_of_stepLeft (hm _ htest) t.prog _ _ _ _ hstep)
              rw [← hold, ← hnew] at hrun
              exact hrun
          · cases h

/-- A schedule of right moves that can be played is a run. -/
theorem askedRun_of_play (ms : List (AskedMove ω ρ κ)) (hms : ∀ m ∈ ms, m.Right right) :
    ∀ p q : Asked σ ω ε ρ κ Ret, p.play S N ms = some q →
      Relation.ReflTransGen (AskedStep S N right) p q := by
  induction ms with
  | nil =>
      intro p q hp
      cases hp
      exact .refl
  | cons m ms ih =>
      intro p q hp
      rcases Option.bind_eq_some_iff.mp hp with ⟨p₁, hm, hrest⟩
      exact .head (askedStep_of_move (hms m List.mem_cons_self) hm)
        (ih (fun m' hm' => hms m' (List.mem_cons_of_mem m hm')) p₁ q hrest)

/-- A schedule of right moves whose end passes a test is a run to a pool that
    passes it. -/
theorem asked_of_play_any {init : σ} (ms : List (AskedMove ω ρ κ))
    (hms : ∀ m ∈ ms, m.Right right) (test : Asked σ ω ε ρ κ Ret → Bool)
    (h : (Asked.play S N ⟨init, [], []⟩ ms).any test = true) :
    ∃ q, AskedReachable S N right init q ∧ test q = true := by
  rcases (Option.any_eq_true _ _).mp h with ⟨q, hq, htest⟩
  exact ⟨q, askedRun_of_play ms hms _ q hq, htest⟩

end Play

section Alone

variable {N : Notes ε κ} {right : κ → ω → Prop} {good : κ → ε → Prop}

/-- A call runs alone from a note on, and takes right answers only. -/
inductive ExecOn (N : Notes ε κ) (right : κ → ω → Prop) :
    {α : Type} → κ → σ → Prog σ ω ε α → List ε → α → σ → Prop
  | done {α : Type} {k : κ} {s : σ} {a : α} : ExecOn N right k s (.done a) [] a s
  | step {α : Type} {k : κ} {s s₁ s' : σ} {p p₁ : Prog σ ω ε α} {e : Option ε} {es : List ε} {a : α}
      (h : StepOn (right k) s p e s₁ p₁) (rest : ExecOn N right (N.after k e) s₁ p₁ es a s') :
      ExecOn N right k s p (es ++ e.toList) a s'

variable {α : Type} {k : κ} {s s' : σ} {p : Prog σ ω ε α} {es : List ε} {a : α}

theorem ExecOn.exec (h : ExecOn N right k s p es a s') : Exec s p es a s' := by
  induction h with
  | done => exact .done
  | step hstep _ ih => exact .step hstep.step ih

end Alone

section Joint

variable {σ₁ ω₁ ε₁ ρ₁ τ₁ : Type} {Ret₁ : ρ₁ → Type}

/-- A step of one of two systems. The pool of the first one says which answers
    are right for a call of the second one. -/
inductive JointStep (S₁ : System σ₁ ω₁ ε₁ ρ₁ τ₁ Ret₁) (S : System σ ω ε ρ τ Ret) (N : Notes ε κ)
    (right : Pool σ₁ ω₁ ε₁ ρ₁ Ret₁ → κ → ω → Prop) :
    Pool σ₁ ω₁ ε₁ ρ₁ Ret₁ × Asked σ ω ε ρ κ Ret →
      Pool σ₁ ω₁ ε₁ ρ₁ Ret₁ × Asked σ ω ε ρ κ Ret → Prop
  | server {p p' : Pool σ₁ ω₁ ε₁ ρ₁ Ret₁} {q : Asked σ ω ε ρ κ Ret}
      (h : PoolStep S₁ anyStep p p') : JointStep S₁ S N right (p, q) (p', q)
  | client {p : Pool σ₁ ω₁ ε₁ ρ₁ Ret₁} {q q' : Asked σ ω ε ρ κ Ret}
      (h : AskedStep S N (right p) q q') : JointStep S₁ S N right (p, q) (p, q')

/-- If answers that were right remain so, then a run of both systems is a run
    of the first one and, with the answers that are right in the end, a run of
    the second one. -/
theorem split_of_joint {S₁ : System σ₁ ω₁ ε₁ ρ₁ τ₁ Ret₁} {S : System σ ω ε ρ τ Ret}
    {N : Notes ε κ} {right : Pool σ₁ ω₁ ε₁ ρ₁ Ret₁ → κ → ω → Prop}
    (hmono : ∀ p p', PoolStep S₁ anyStep p p' → ∀ k i, right p k i → right p' k i)
    {x y : Pool σ₁ ω₁ ε₁ ρ₁ Ret₁ × Asked σ ω ε ρ κ Ret}
    (h : Relation.ReflTransGen (JointStep S₁ S N right) x y) :
    Relation.ReflTransGen (PoolStep S₁ anyStep) x.1 y.1 ∧
      Relation.ReflTransGen (AskedStep S N (right y.1)) x.2 y.2 := by
  induction h with
  | refl => exact ⟨.refl, .refl⟩
  | tail _ hstep ih =>
      cases hstep with
      -- What was a right answer before the server's step is one after it.
      | server h =>
          exact ⟨ih.1.tail h,
            Relation.ReflTransGen.mono (fun _ _ => askedStep_mono (hmono _ _ h)) _ _ ih.2⟩
      | client h => exact ⟨ih.1, ih.2.tail h⟩

/-- A run of the first system and then one of the second are a run of both. -/
theorem joint_of_runs {S₁ : System σ₁ ω₁ ε₁ ρ₁ τ₁ Ret₁} {S : System σ ω ε ρ τ Ret}
    {N : Notes ε κ} {right : Pool σ₁ ω₁ ε₁ ρ₁ Ret₁ → κ → ω → Prop}
    {p p' : Pool σ₁ ω₁ ε₁ ρ₁ Ret₁} {q q' : Asked σ ω ε ρ κ Ret}
    (hp : Relation.ReflTransGen (PoolStep S₁ anyStep) p p')
    (hq : Relation.ReflTransGen (AskedStep S N (right p')) q q') :
    Relation.ReflTransGen (JointStep S₁ S N right) (p, q) (p', q') := by
  -- The server runs first, then the client with all that the server has answered.
  have hserver : Relation.ReflTransGen (JointStep S₁ S N right) (p, q) (p', q) := by
    clear hq
    induction hp with
    | refl => exact .refl
    | tail _ hstep ih => exact ih.tail (.server hstep)
  refine hserver.trans ?_
  induction hq with
  | refl => exact .refl
  | tail _ hstep ih => exact ih.tail (.client hstep)

/-- A finished call stays in its pool. -/
theorem finished_stays {S₁ : System σ₁ ω₁ ε₁ ρ₁ τ₁ Ret₁} {guard : Guard σ₁ ε₁ ρ₁}
    {p p' : Pool σ₁ ω₁ ε₁ ρ₁ Ret₁} (h : PoolStep S₁ guard p p') {c : ρ₁} {a : Ret₁ c}
    (hmem : ⟨c, .done a⟩ ∈ p.threads) : ⟨c, .done a⟩ ∈ p'.threads := by
  cases h with
  | spawn c' => exact List.mem_append_left _ hmem
  | run hstep _ =>
      rcases List.mem_append.mp hmem with hmem | hmem
      · exact List.mem_append_left _ hmem
      · rcases List.mem_cons.mp hmem with heq | hmem
        · -- It is not the call that steps.
          cases heq
          cases hstep
        · exact List.mem_append_right _ (List.mem_cons_of_mem _ hmem)
  | env t _ => exact hmem

end Joint

end Interleave
