import Sandbox.Interleave.Resource

/-!
# A Program Alone in a Drifting Store

A program may be the only one that runs and still find the store changed
between its actions, because time passes. `Alone` is the run of a program
with such changes anywhere: before its first action, between any two, and
after the last.

## Main definitions

* `Alone`: A program running alone while the store drifts.
* `Drifts`: Any number of changes.

## Theorems

* `alone_done`, `alone_act`, `alone_bind`: What a run consists of.
* `alone_atomic`, `alone_read`, `alone_write`, `alone_logged`: What the
  actions do.
* `alone_bind_intro`, `alone_silent_intro`, `alone_act_intro`: Building runs.
* `alone_within`: A run stays within what its actions and the drift stay
  within.
-/

namespace Interleave

variable {σ ω ε : Type} {G : σ → σ → Prop}

/-- Any number of changes of the store. -/
abbrev Drifts (G : σ → σ → Prop) : σ → σ → Prop := Relation.ReflTransGen G

/-- A program runs from one store to another, with changes from outside at
    any time but no other program. -/
inductive Alone (G : σ → σ → Prop) :
    {α : Type} → σ → Prog σ ω ε α → List ε → α → σ → Prop
  | done {α : Type} {s : σ} {a : α} : Alone G s (.done a) [] a s
  | drift {α : Type} {s s₁ s' : σ} {p : Prog σ ω ε α} {es : List ε} {a : α} (h : G s s₁)
      (rest : Alone G s₁ p es a s') : Alone G s p es a s'
  | step {α : Type} {s s₁ s' : σ} {p p₁ : Prog σ ω ε α} {e : Option ε} {es : List ε} {a : α}
      (h : Step s p e s₁ p₁) (rest : Alone G s₁ p₁ es a s') :
      Alone G s p (es ++ e.toList) a s'

/-- Nothing has to change. -/
theorem alone_of_exec {α : Type} {s s' : σ} {p : Prog σ ω ε α} {es : List ε} {a : α}
    (h : Exec s p es a s') : Alone G s p es a s' := by
  induction h with
  | done => exact .done
  | step hstep _ ih => exact .step hstep ih

theorem alone_done {α : Type} {s s' : σ} {a b : α} {es : List ε}
    (h : Alone (ω := ω) G s (.done a) es b s') : es = [] ∧ b = a ∧ Drifts G s s' := by
  generalize hp : (Prog.done a : Prog σ ω ε α) = p at h
  induction h with
  | done =>
      cases hp
      exact ⟨rfl, rfl, .refl⟩
  | drift hG _ ih =>
      rcases ih hp with ⟨hes, hb, hdrift⟩
      exact ⟨hes, hb, .head hG hdrift⟩
  | step hstep _ _ =>
      subst hp
      cases hstep

/-- A run of an action is a drift, the action and a run of the rest. -/
theorem alone_act {α β : Type} {event : β → Option ε} {run : ω → σ → Option (β × σ)}
    {next : β → Prog σ ω ε α} {s s' : σ} {es : List ε} {a : α}
    (h : Alone G s (.act event run next) es a s') :
    ∃ i s₀ b s₁ es', Drifts G s s₀ ∧ run i s₀ = some (b, s₁) ∧ Alone G s₁ (next b) es' a s' ∧
      es = es' ++ (event b).toList := by
  generalize hp : Prog.act event run next = p at h
  induction h with
  | done => cases hp
  -- What drifts before the step is collected.
  | drift hG _ ih =>
      rcases ih hp with ⟨i, s₀, b, s₁, es', hdrift, hrest⟩
      exact ⟨i, s₀, b, s₁, es', .head hG hdrift, hrest⟩
  | step hstep hrest _ =>
      subst hp
      cases hstep with
      | act hrun => exact ⟨_, _, _, _, _, .refl, hrun, hrest, rfl⟩

theorem alone_atomic {β : Type} {f : σ → β × σ} {s s' : σ} {es : List ε} {b : β}
    (h : Alone (ω := ω) G s (Prog.atomic f) es b s') :
    es = [] ∧ ∃ s₀, Drifts G s s₀ ∧ b = (f s₀).1 ∧ Drifts G (f s₀).2 s' := by
  rcases alone_act h with ⟨_, s₀, b', s₁, es', hdrift, hrun, hdone, rfl⟩
  rcases alone_done hdone with ⟨rfl, rfl, hdrift'⟩
  have hb : f s₀ = (b, s₁) := Option.some.inj hrun
  exact ⟨rfl, s₀, hdrift, by rw [hb], by rw [hb]; exact hdrift'⟩

theorem alone_read {β : Type} {f : σ → β} {s s' : σ} {es : List ε} {b : β}
    (h : Alone (ω := ω) G s (Prog.read f) es b s') :
    es = [] ∧ ∃ s₀, Drifts G s s₀ ∧ b = f s₀ ∧ Drifts G s₀ s' :=
  alone_atomic h

theorem alone_write {f : σ → σ} {s s' : σ} {es : List ε} {b : Unit}
    (h : Alone (ω := ω) G s (Prog.write f) es b s') :
    es = [] ∧ ∃ s₀, Drifts G s s₀ ∧ Drifts G (f s₀) s' := by
  rcases alone_atomic h with ⟨hes, s₀, hdrift, _, hdrift'⟩
  exact ⟨hes, s₀, hdrift, hdrift'⟩

theorem alone_logged {β : Type} {event : β → ε} {f : σ → β × σ} {s s' : σ} {es : List ε} {b : β}
    (h : Alone (ω := ω) G s (Prog.logged event f) es b s') :
    es = [event b] ∧ ∃ s₀, Drifts G s s₀ ∧ b = (f s₀).1 ∧ Drifts G (f s₀).2 s' := by
  rcases alone_act h with ⟨_, s₀, b', s₁, es', hdrift, hrun, hdone, rfl⟩
  rcases alone_done hdone with ⟨rfl, rfl, hdrift'⟩
  have hb : f s₀ = (b, s₁) := Option.some.inj hrun
  exact ⟨rfl, s₀, hdrift, by rw [hb], by rw [hb]; exact hdrift'⟩

/-- A run of a sequence is a run of its head followed by a run of its tail. -/
theorem alone_bind {α β : Type} {p : Prog σ ω ε α} {f : α → Prog σ ω ε β} {s s' : σ}
    {es : List ε} {b : β} (h : Alone G s (p >>= f) es b s') :
    ∃ a s₁ es₁ es₂, Alone G s p es₁ a s₁ ∧ Alone G s₁ (f a) es₂ b s' ∧ es = es₂ ++ es₁ := by
  -- The run belongs to the first program until that is done, by induction on it.
  generalize hq : (p >>= f) = q at h
  induction h generalizing p with
  | done =>
      cases p with
      | done a =>
          have hf : f a = _ := hq
          exact ⟨a, _, [], _, .done, by rw [hf]; exact .done, rfl⟩
      | act event run next => cases hq
      | par left right next => cases hq
  | drift hG _ ih =>
      rcases ih hq with ⟨a, s₁, es₁, es₂, h₁, h₂, hes⟩
      exact ⟨a, s₁, es₁, es₂, .drift hG h₁, h₂, hes⟩
  | step hstep hrest ih =>
      cases p with
      | done a =>
          have hf : f a = _ := hq
          exact ⟨a, _, [], _, .done, by rw [hf]; exact .step hstep hrest,
            (List.append_nil _).symm⟩
      | act event run next =>
          cases hq
          cases hstep with
          | act hrun =>
              rcases ih rfl with ⟨a, s₁, es₁, es₂, h₁, h₂, rfl⟩
              exact ⟨a, s₁, _, es₂, .step (.act hrun) h₁, h₂, List.append_assoc _ _ _⟩
      | par left right next =>
          cases hq
          cases hstep with
          | left hl =>
              rcases ih (Prog.par_bind _ right next f) with ⟨a, s₁, es₁, es₂, h₁, h₂, rfl⟩
              exact ⟨a, s₁, _, es₂, .step (.left hl) h₁, h₂, List.append_assoc _ _ _⟩
          | right hr =>
              rcases ih (Prog.par_bind left _ next f) with ⟨a, s₁, es₁, es₂, h₁, h₂, rfl⟩
              exact ⟨a, s₁, _, es₂, .step (.right hr) h₁, h₂, List.append_assoc _ _ _⟩
          | join =>
              rcases ih rfl with ⟨a, s₁, es₁, es₂, h₁, h₂, rfl⟩
              exact ⟨a, s₁, _, es₂, .step .join h₁, h₂, List.append_assoc _ _ _⟩

section Building

theorem alone_bind_intro {α β : Type} {p : Prog σ ω ε α} {f : α → Prog σ ω ε β}
    {s s₁ s' : σ} {es₁ es₂ : List ε} {a : α} {b : β} (hp : Alone G s p es₁ a s₁)
    (hf : Alone G s₁ (f a) es₂ b s') : Alone G s (p >>= f) (es₂ ++ es₁) b s' := by
  induction hp with
  | done => rwa [List.append_nil]
  | drift hG _ ih => exact .drift hG (ih hf)
  | step hstep _ ih =>
      rw [← List.append_assoc]
      exact .step (step_bind hstep) (ih hf)

/-- A head without events. -/
theorem alone_silent_intro {α β : Type} {p : Prog σ ω ε α} {f : α → Prog σ ω ε β}
    {s s₁ s' : σ} {es : List ε} {a : α} {b : β} (hp : Alone G s p [] a s₁)
    (hf : Alone G s₁ (f a) es b s') : Alone G s (p >>= f) es b s' := by
  rw [← List.append_nil es]
  exact alone_bind_intro hp hf

/-- A sequence that only goes on to answer. -/
theorem alone_answer_intro {α β : Type} {p : Prog σ ω ε α} {f : α → Prog σ ω ε β} {s s' : σ}
    {es : List ε} {a : α} (hp : Alone G s p es a s') (hf : ∃ b, f a = .done b) :
    ∃ b, Alone G s (p >>= f) es b s' := by
  rcases hf with ⟨b, hb⟩
  have hdone : Alone G s' (f a) [] b s' := by
    rw [hb]
    exact .done
  exact ⟨b, alone_bind_intro hp hdone⟩

theorem alone_act_intro {β : Type} {event : β → Option ε} {run : ω → σ → Option (β × σ)}
    {i : ω} {s s' : σ} {b : β} (h : run i s = some (b, s')) :
    Alone G s (.act event run .done) (event b).toList b s' :=
  .step (.act h) .done

theorem alone_atomic_intro {β : Type} (i : ω) (f : σ → β × σ) (s : σ) :
    Alone (ε := ε) G s (Prog.atomic f : Prog σ ω ε β) [] (f s).1 (f s).2 :=
  alone_act_intro (i := i) rfl

end Building

/-- A run stays within a relation that its actions and the drift stay within. -/
theorem alone_within {R : σ → σ → Prop} {E : ε → Prop} {α : Type} {p : Prog σ ω ε α} {s s' : σ}
    {es : List ε} {a : α} (hrefl : ∀ s, R s s) (htrans : ∀ s₁ s₂ s₃, R s₁ s₂ → R s₂ s₃ → R s₁ s₃)
    (hG : ∀ s s', G s s' → R s s') (h : Alone G s p es a s') :
    Within R E p → R s s' ∧ ∀ x ∈ es, E x := by
  induction h with
  | done => exact fun _ => ⟨hrefl _, fun x hx => absurd hx List.not_mem_nil⟩
  -- A drift records nothing.
  | drift hd _ ih =>
      intro hp
      rcases ih hp with ⟨hR, hE⟩
      exact ⟨htrans _ _ _ (hG _ _ hd) hR, hE⟩
  | step hstep _ ih =>
      intro hp
      rcases within_step hstep hp with ⟨hR, hE, hnext⟩
      rcases ih hnext with ⟨hR', hE'⟩
      refine ⟨?_, fun x hx => ?_⟩
      · rcases hR with hR | rfl
        · exact htrans _ _ _ hR hR'
        · exact hR'
      · rcases List.mem_append.mp hx with hx | hx
        · exact hE' x hx
        · exact hE x (Option.mem_toList.mp hx)

end Interleave
