import Sandbox.Interleave.Resource

/-!
# What Each Event Does

`Within` bounds what a program does to the store and which events it leaves,
each on its own. Often the two belong together: an action that leaves an
event "removed" has removed something, and one that leaves no event has not.
`Effects` relates the store before an action, the event and the store after
it.

An invariant of the store and the history then needs one case for each kind
of event and no resources, in runs with any interleaving (`effects_inv`) and
in a call that runs alone (`exec_effects`).

## Main definitions

* `Effects`: A program whose actions are in a relation of store, event and
  store.

## Theorems

* `effects_bind`, `effects_act`, `effects_logged` and the others of their
  form: The rules for building programs.
* `safe_effects`: A program is safe if its events keep the invariant.
* `effects_step`, `poolStep_effects`: What one step does.
* `run_effects`, `effects_inv`: What every event preserves holds in every run.
* `exec_effects`: The same for a program that runs alone.
-/

namespace Interleave

variable {σ ω ε ρ τ : Type} {Ret : ρ → Type} {R R' : σ → Option ε → σ → Prop}

/-- Every action of a program relates the store before it, the event it leaves
    and the store after it. -/
def Effects (R : σ → Option ε → σ → Prop) : {α : Type} → Prog σ ω ε α → Prop
  | _, .done _ => True
  | _, .act event run next => ∀ i s b s', run i s = some (b, s') →
      R s (event b) s' ∧ Effects R (next b)
  | _, .par left right next => Effects R left ∧ Effects R right ∧ ∀ x, Effects R (next x)

section Rules

variable {α β : Type}

theorem effects_pure (a : α) : Effects R (pure a : Prog σ ω ε α) := trivial

theorem effects_bind {p : Prog σ ω ε α} {f : α → Prog σ ω ε β} (hp : Effects R p)
    (hf : ∀ a, Effects R (f a)) : Effects R (p >>= f) := by
  induction p with
  | done a => exact hf a
  | act event run next ih =>
      intro i s b s' hrun
      rcases hp i s b s' hrun with ⟨hR, hnext⟩
      exact ⟨hR, ih b hnext hf⟩
  | par left right next _ _ ih => exact ⟨hp.1, hp.2.1, fun x => ih x (hp.2.2 x) hf⟩

theorem effects_act {event : β → Option ε} {run : ω → σ → Option (β × σ)}
    (h : ∀ i s b s', run i s = some (b, s') → R s (event b) s') :
    Effects R (.act event run .done) :=
  fun i s b s' hrun => ⟨h i s b s' hrun, trivial⟩

theorem effects_ask {f : ω → σ → Option (β × σ)}
    (h : ∀ i s b s', f i s = some (b, s') → R s none s') : Effects R (Prog.ask f) :=
  effects_act h

theorem effects_atomic {f : σ → β × σ} (h : ∀ s, R s none (f s).2) :
    Effects (ω := ω) R (Prog.atomic f) := by
  refine effects_act fun i s b s' hrun => ?_
  have hb : f s = (b, s') := Option.some.inj hrun
  have hR := h s
  rw [hb] at hR
  exact hR

theorem effects_read {f : σ → β} (h : ∀ s, R s none s) : Effects (ω := ω) R (Prog.read f) :=
  effects_atomic h

/-- What follows a look at the store, after what can be seen there. -/
theorem effects_read_bind {f : σ → α} {g : α → Prog σ ω ε β} (h : ∀ s, R s none s)
    (hg : ∀ s, Effects R (g (f s))) : Effects R (Prog.read f >>= g) := by
  intro i s b s' hrun
  cases hrun
  exact ⟨h s, hg s⟩

theorem effects_logged {event : β → ε} {f : σ → β × σ}
    (h : ∀ s, R s (some (event (f s).1)) (f s).2) :
    Effects (ω := ω) R (Prog.logged event f) := by
  refine effects_act fun i s b s' hrun => ?_
  have hb : f s = (b, s') := Option.some.inj hrun
  have hR := h s
  rw [hb] at hR
  exact hR

theorem effects_mono {p : Prog σ ω ε α} (h : Effects R p) (hR : ∀ s e s', R s e s' → R' s e s') :
    Effects R' p := by
  induction p with
  | done a => trivial
  | act event run next ih =>
      intro i s b s' hrun
      rcases h i s b s' hrun with ⟨hs, hnext⟩
      exact ⟨hR _ _ _ hs, ih b hnext⟩
  | par left right next ihl ihr ih => exact ⟨ihl h.1, ihr h.2.1, fun x => ih x (h.2.2 x)⟩

/-- What is known of the store and of the events apart. -/
theorem effects_within {G : σ → σ → Prop} {E : ε → Prop} {p : Prog σ ω ε α} (h : Within G E p) :
    Effects (fun s e s' => G s s' ∧ ∀ x, e = some x → E x) p := by
  induction p with
  | done a => trivial
  | act event run next ih =>
      intro i s b s' hrun
      rcases h i s b s' hrun with ⟨hG, hE, hnext⟩
      exact ⟨⟨hG, hE⟩, ih b hnext⟩
  | par left right next ihl ihr ih => exact ⟨ihl h.1, ihr h.2.1, fun x => ih x (h.2.2 x)⟩

/-- A program whose events keep the invariant is safe from every resource and
    keeps it. -/
theorem safe_effects {M : Type} [AddCommMonoid M] {P : Protocol M σ ε ρ} {c : ρ}
    {p : Prog σ ω ε α} (h : Effects R p)
    (hR : ∀ r s e s' hist, R s e s' → (∀ x, e = some x → P.guard s hist x) → P.Inv r s hist →
      P.Inv r s' (logEvent c e hist)) (r : M) :
    Safe P c p r fun _ r' => r' = r := by
  induction p generalizing r with
  | done a => exact safe_done rfl
  | act event run next ih =>
      intro F s hist i b s' hinv hrun hguard
      rcases h i s b s' hrun with ⟨hs, hnext⟩
      exact ⟨r, hR _ s _ s' hist hs hguard hinv, ih b hnext r⟩
  | par left right next ihl ihr ih =>
      -- Neither branch needs the resource, so one of them holds it all.
      refine ⟨r, 0, _, _, (add_zero r).symm, ihl h.1 r, ihr h.2.1 0, ?_⟩
      intro b d r₁ r₂ h₁ h₂
      rw [h₁, h₂, add_zero]
      exact ih (b, d) (h.2.2 (b, d)) r

/-- A step is an action, or two branches join and nothing happens. -/
theorem effects_step {s s' : σ} {p p' : Prog σ ω ε α} {e : Option ε}
    (hstep : Step s p e s' p') :
    Effects R p → (R s e s' ∨ e = none ∧ s' = s) ∧ Effects R p' := by
  induction hstep with
  | act hrun =>
      intro h
      rcases h _ _ _ _ hrun with ⟨hR, hnext⟩
      exact ⟨.inl hR, hnext⟩
  | left _ ih =>
      intro h
      rcases ih h.1 with ⟨hR, hl⟩
      exact ⟨hR, hl, h.2.1, h.2.2⟩
  | right _ ih =>
      intro h
      rcases ih h.2.1 with ⟨hR, hr⟩
      exact ⟨hR, h.1, hr, h.2.2⟩
  | join => exact fun h => ⟨.inr ⟨rfl, rfl⟩, h.2.2 _⟩

/-- What every event preserves holds after a program that ran alone. The
    history is what the program has left. -/
theorem exec_effects {p : Prog σ ω ε α} {s s' : σ} {es : List ε} {a : α}
    {I : σ → List ε → Prop} (hexec : Exec s p es a s')
    (hstep : ∀ s e s' hist, R s e s' → I s hist → I s' (e.toList ++ hist)) :
    ∀ hist, Effects R p → I s hist → I s' (es ++ hist) := by
  induction hexec with
  | done => exact fun _ _ h => h
  | step h _ ih =>
      intro hist hp hI
      rcases effects_step h hp with ⟨hR, hnext⟩
      rw [List.append_assoc]
      refine ih _ hnext ?_
      -- The step that joins two branches changes nothing.
      rcases hR with hR | ⟨rfl, rfl⟩
      · exact hstep _ _ _ _ hR hI
      · exact hI

end Rules

section Runs

variable {S : System σ ω ε ρ τ Ret} {guard : Guard σ ε ρ} {init : σ} {p q : Pool σ ω ε ρ Ret}

theorem effects_of_poolStep (hbody : ∀ c, Effects R (S.body c))
    (hp : ∀ t ∈ p.threads, Effects R t.prog) (h : PoolStep S guard p q) :
    ∀ t ∈ q.threads, Effects R t.prog := by
  cases h with
  | spawn c =>
      intro t ht
      rcases List.mem_append.mp ht with ht | ht
      · exact hp t ht
      · rw [List.mem_singleton.mp ht]
        exact hbody c
  | run hstep _ =>
      intro t ht
      -- The thread that ran is bounded in what it has left.
      have hmid := (effects_step hstep (hp _ (List.mem_append_right _ List.mem_cons_self))).2
      rcases List.mem_append.mp ht with ht | ht
      · exact hp t (List.mem_append_left _ ht)
      · rcases List.mem_cons.mp ht with rfl | ht
        · exact hmid
        · exact hp t (List.mem_append_right _ (List.mem_cons_of_mem _ ht))
  | env t _ => exact hp

/-- In every run, the programs in progress have the effects that all calls'
    programs have. -/
theorem effects_of_reachable (hbody : ∀ c, Effects R (S.body c)) (h : Reachable S guard init p) :
    ∀ t ∈ p.threads, Effects R t.prog := by
  induction h with
  | refl => exact fun t ht => absurd ht List.not_mem_nil
  | tail _ hstep ih => exact effects_of_poolStep hbody ih hstep

/-- What a step does to the store and the history. -/
theorem poolStep_effects (hp : ∀ t ∈ p.threads, Effects R t.prog) (h : PoolStep S guard p q) :
    (q.trace = p.trace ∧
      (q.store = p.store ∨ R p.store none q.store ∨ ∃ t, S.env t p.store = some q.store)) ∨
    ∃ c x, q.trace = (c, x) :: p.trace ∧ guard p.store p.trace x ∧
      R p.store (some x) q.store := by
  cases h with
  | spawn c => exact .inl ⟨rfl, .inl rfl⟩
  | env t henv => exact .inl ⟨rfl, .inr (.inr ⟨t, henv⟩)⟩
  | run hstep hguard =>
      rename_i s s' hist ts₁ ts₂ c p₁ p₂ e
      rcases effects_step hstep (hp _ (List.mem_append_right _ List.mem_cons_self)) with ⟨hR, _⟩
      -- A step without an event is bounded, or it joins two branches.
      cases e with
      | none =>
          rcases hR with hR | ⟨_, hs⟩
          · exact .inl ⟨rfl, .inr (.inl hR)⟩
          · exact .inl ⟨rfl, .inl hs⟩
      | some x =>
          rcases hR with hR | ⟨hnone, _⟩
          · exact .inr ⟨c, x, rfl, hguard x rfl, hR⟩
          · cases hnone

/-- What every event and the surroundings preserve holds as a run goes on. -/
theorem run_effects {I : σ → List (ρ × ε) → Prop} (hbody : ∀ c, Effects R (S.body c))
    (hsilent : ∀ s s' hist, R s none s' → I s hist → I s' hist)
    (hevent : ∀ c x s s' hist, guard s hist x → R s (some x) s' → I s hist →
      I s' ((c, x) :: hist))
    (henv : ∀ t s s' hist, S.env t s = some s' → I s hist → I s' hist)
    (hp : Reachable S guard init p) (hI : I p.store p.trace)
    (h : Relation.ReflTransGen (PoolStep S guard) p q) : I q.store q.trace := by
  induction h with
  | refl => exact hI
  | tail hpr hstep ih =>
      -- What runs at this moment is still bounded, since the pool was reached from the start.
      have hthreads := effects_of_reachable hbody (hp.trans hpr)
      rcases poolStep_effects hthreads hstep with ⟨htrace, hcases⟩ | ⟨c, x, htrace, hguard, hR⟩
      · rw [htrace]
        rcases hcases with heq | hR | ⟨t, henv'⟩
        · rw [heq]
          exact ih
        · exact hsilent _ _ _ hR ih
        · exact henv t _ _ _ henv' ih
      · rw [htrace]
        exact hevent c x _ _ _ hguard hR ih

/-- What every event and the surroundings preserve holds in every run. -/
theorem effects_inv {I : σ → List (ρ × ε) → Prop} (hbody : ∀ c, Effects R (S.body c))
    (hsilent : ∀ s s' hist, R s none s' → I s hist → I s' hist)
    (hevent : ∀ c x s s' hist, guard s hist x → R s (some x) s' → I s hist →
      I s' ((c, x) :: hist))
    (henv : ∀ t s s' hist, S.env t s = some s' → I s hist → I s' hist) (hinit : I init [])
    (h : Reachable S guard init p) : I p.store p.trace :=
  run_effects hbody hsilent hevent henv .refl hinit h

end Runs

end Interleave
