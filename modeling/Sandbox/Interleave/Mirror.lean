import Sandbox.Interleave.Sequential

/-!
# Runs Side by Side

Two stores are related, and a program runs on one of them. That another program
can run on the other store, leave the same events and come to a related answer
and a related store is what `Mirrors` says. It is what remains of a simulation
if each program runs alone.

The rules follow how programs are built, and both programs have to be built the
same way. Their answers in between need not be equal: what a program reads may
differ on the two sides as long as what it answers in the end does not.

## Main definitions

* `Mirrors`: Every run of one program has a run of the other beside it.
* `Settled`: A program that has one answer on a store.

## Theorems

* `Exec.bind`: A run of a sequence from runs of its parts.
* `mirrors_bind`, `mirrors_atomic`, `mirrors_ask`: The rules.
* `runs_mirror`: Calls that mirror themselves make runs that do.
-/

namespace Interleave

variable {σ ω ε ρ τ : Type} {Ret : ρ → Type} {α β γ δ : Type}

theorem Step.bind {s s' : σ} {p p' : Prog σ ω ε α} {e : Option ε} (h : Step s p e s' p')
    (f : α → Prog σ ω ε β) : Step s (p >>= f) e s' (p' >>= f) := by
  cases h with
  | act hrun => exact .act hrun
  | left h => exact .left h
  | right h => exact .right h
  | join => exact .join

/-- A run of a program and a run of what follows are a run of the sequence. -/
theorem Exec.bind {s s₁ s' : σ} {p : Prog σ ω ε α} {f : α → Prog σ ω ε β} {es₁ es₂ : List ε} {a : α}
    {b : β} (h : Exec s p es₁ a s₁) (hrest : Exec s₁ (f a) es₂ b s') :
    Exec s (p >>= f) (es₂ ++ es₁) b s' := by
  induction h with
  | done => rwa [List.append_nil]
  | step hstep _ ih =>
      rw [← List.append_assoc]
      exact .step (hstep.bind f) (ih hrest)

/-- Beside a run of `p` on a store, `q` runs on every related store to a related
    answer and leaves the same events. -/
def Mirrors (R : σ → σ → Prop) (Q : α → β → Prop) (p : Prog σ ω ε α) (q : Prog σ ω ε β) : Prop :=
  ∀ s₁ s₂ es a s₁', R s₁ s₂ → Exec s₁ p es a s₁' →
    ∃ b s₂', Exec s₂ q es b s₂' ∧ Q a b ∧ R s₁' s₂'

section Rules

variable {R : σ → σ → Prop} {Q : α → β → Prop}

theorem mirrors_pure {a : α} {b : β} (h : Q a b) :
    Mirrors R Q (pure a : Prog σ ω ε α) (pure b) := by
  intro s₁ s₂ es x s₁' hR hexec
  rcases exec_done hexec with ⟨rfl, rfl, rfl⟩
  exact ⟨b, s₂, .done, h, hR⟩

theorem mirrors_bind {Q' : γ → δ → Prop} {p : Prog σ ω ε α} {q : Prog σ ω ε β}
    {f : α → Prog σ ω ε γ} {g : β → Prog σ ω ε δ} (hp : Mirrors R Q p q)
    (hf : ∀ a b, Q a b → Mirrors R Q' (f a) (g b)) : Mirrors R Q' (p >>= f) (q >>= g) := by
  intro s₁ s₂ es c s₁' hR hexec
  rcases exec_bind hexec with ⟨a, t₁, es₁, es₂, hhead, htail, rfl⟩
  obtain ⟨b, t₂, hhead', hQ, hR'⟩ := hp _ _ _ _ _ hR hhead
  obtain ⟨d, s₂', htail', hQ', hend⟩ := hf a b hQ _ _ _ _ _ hR' htail
  exact ⟨d, s₂', hhead'.bind htail', hQ', hend⟩

/-- The same answers from outside have related outcomes on related stores. -/
theorem mirrors_ask {f : ω → σ → Option (α × σ)} {g : ω → σ → Option (β × σ)}
    (h : ∀ i s₁ s₂ a s₁', R s₁ s₂ → f i s₁ = some (a, s₁') →
      ∃ b s₂', g i s₂ = some (b, s₂') ∧ Q a b ∧ R s₁' s₂') :
    Mirrors (ε := ε) R Q (Prog.ask f) (Prog.ask g) := by
  intro s₁ s₂ es a s₁' hR hexec
  rcases exec_act hexec with ⟨i, a', t₁, es', hrun, hdone, rfl⟩
  rcases exec_done hdone with ⟨rfl, rfl, rfl⟩
  obtain ⟨b, s₂', hg, hQ, hR'⟩ := h i _ _ _ _ hR hrun
  exact ⟨b, s₂', .step (.act hg) .done, hQ, hR'⟩

theorem mirrors_atomic {f : σ → α × σ} {g : σ → β × σ}
    (h : ∀ s₁ s₂, R s₁ s₂ → Q (f s₁).1 (g s₂).1 ∧ R (f s₁).2 (g s₂).2) :
    Mirrors (ω := ω) (ε := ε) R Q (Prog.atomic f) (Prog.atomic g) := by
  refine mirrors_ask fun i s₁ s₂ a s₁' hR hrun => ?_
  have hf : f s₁ = (a, s₁') := Option.some.inj hrun
  have hrel := h s₁ s₂ hR
  rw [hf] at hrel
  exact ⟨_, _, rfl, hrel.1, hrel.2⟩

theorem mirrors_read {f : σ → α} {g : σ → β} (h : ∀ s₁ s₂, R s₁ s₂ → Q (f s₁) (g s₂)) :
    Mirrors (ω := ω) (ε := ε) R Q (Prog.read f) (Prog.read g) :=
  mirrors_atomic fun s₁ s₂ hR => ⟨h s₁ s₂ hR, hR⟩

end Rules

section Answers

/-- A program whose answer the store settles. -/
def Settled (p : Prog σ ω ε α) : Prop :=
  ∀ s es a s' es₂ a₂ s₂', Exec s p es a s' → Exec s p es₂ a₂ s₂' → a = a₂ ∧ s' = s₂'

theorem settled_pure (a : α) : Settled (pure a : Prog σ ω ε α) := by
  intro s es b s' es₂ b₂ s₂' h h₂
  rcases exec_done h with ⟨_, rfl, rfl⟩
  rcases exec_done h₂ with ⟨_, rfl, rfl⟩
  exact ⟨rfl, rfl⟩

theorem settled_atomic (f : σ → α × σ) : Settled (Prog.atomic f : Prog σ ω ε α) := by
  intro s es b s' es₂ b₂ s₂' h h₂
  rcases exec_atomic h with ⟨_, rfl, rfl⟩
  rcases exec_atomic h₂ with ⟨_, rfl, rfl⟩
  exact ⟨rfl, rfl⟩

theorem settled_bind {p : Prog σ ω ε α} {f : α → Prog σ ω ε β} (hp : Settled p)
    (hf : ∀ a, Settled (f a)) : Settled (p >>= f) := by
  intro s es b s' es₂ b₂ s₂' h h₂
  rcases exec_bind h with ⟨a, t, _, _, hhead, htail, _⟩
  rcases exec_bind h₂ with ⟨a₂, t₂, _, _, hhead₂, htail₂, _⟩
  obtain ⟨rfl, rfl⟩ := hp _ _ _ _ _ _ _ hhead hhead₂
  exact hf a _ _ _ _ _ _ _ htail htail₂

end Answers

/-- If every call of a kind answers the same on related stores, then so does
    every run of such calls. -/
theorem runs_mirror {S : System σ ω ε ρ τ Ret} {R : σ → σ → Prop}
    {ok : Happening ε ρ τ Ret → Prop}
    (hcall : ∀ c, (∃ a es, ok (.call c a es)) → Mirrors R Eq (S.body c) (S.body c))
    (henv : ∀ t s₁ s₂ s₁', R s₁ s₂ → S.env t s₁ = some s₁' →
      ∃ s₂', S.env t s₂ = some s₂' ∧ R s₁' s₂')
    {s₁ s₂ s₁' : σ} {ls : List (Happening ε ρ τ Ret)} (hR : R s₁ s₂) (h : Runs S s₁ ls s₁')
    (hok : ∀ l ∈ ls, ok l) : ∃ s₂', Runs S s₂ ls s₂' ∧ R s₁' s₂' := by
  induction h with
  | nil => exact ⟨s₂, .nil, hR⟩
  | @call t t' ls c a es _ hexec ih =>
      obtain ⟨t₂, hruns, hR'⟩ := ih fun l hl => hok l (List.mem_cons_of_mem _ hl)
      -- The second run gives the same answer, so it can be asked the same question next.
      obtain ⟨b, t₂', hexec', rfl, hend⟩ :=
        hcall c ⟨a, es, hok _ List.mem_cons_self⟩ _ _ _ _ _ hR' hexec
      exact ⟨t₂', .call hruns hexec', hend⟩
  | @env t t' ls change _ ht ih =>
      obtain ⟨t₂, hruns, hR'⟩ := ih fun l hl => hok l (List.mem_cons_of_mem _ hl)
      obtain ⟨t₂', ht', hend⟩ := henv _ _ _ _ hR' ht
      exact ⟨t₂', .env hruns ht', hend⟩

end Interleave
