import Sandbox.Interleave.Resource

/-!
# Programs Amid Changes by Others

A program that is awaited together with others does not run alone, and what
it finds depends on them. Often it is enough to know a relation that the
changes of the others stay within. `Amid G s p es a s'` is a run of `p` before,
between and after whose steps the store may move within `G`.

A run of two programs at once is, seen from one of them, a run amid what the
other one does. So a program whose branches write to different parts of the
store can be taken apart: `amid_both_left` and `amid_both_right` give a run of
each branch from the start of the whole to its end.

`Yields G E p P Q` is the judgement that goes with it: from a store with `P`,
the program ends within `G` of a store with `Q`, if all events of the run meet
`E`. Assertions need not be stable, since each may be followed by a move of
the others.

## Main definitions

* `Amid`: A run of a program amid changes by others.
* `Yields`: What holds after such runs.
* `Looks`: A program that leaves the store as it is.

## Theorems

* `amid_of_exec`: A run alone is a run amid anything.
* `amid_bind`, `amid_act`, `amid_atomic`, `amid_read`, `amid_write`,
  `amid_logged`: What such a run consists of.
* `amid_within`: How far such a run gets.
* `amid_both_left`, `amid_both_right`, `amid_all`: Branches that are awaited
  at once.
* `amid_safe`: A safe program among others.
* `Yields.pure`, `Yields.bind`, `Yields.weaken`, `Yields.within`,
  `Yields.both_left`, `Yields.pair`: The rules.
-/

namespace Interleave

variable {σ ω ε : Type}

/-- A run of a program that leaves events, the latest first, while others move
    the store within `G`. -/
inductive Amid (G : σ → σ → Prop) :
    {α : Type} → σ → Prog σ ω ε α → List ε → α → σ → Prop
  | done {α : Type} {s s' : σ} {a : α} (h : G s s') : Amid G s (.done a) [] a s'
  | step {α : Type} {s s₁ s₂ s' : σ} {p p₁ : Prog σ ω ε α} {e : Option ε} {es : List ε} {a : α}
      (before : G s s₁) (h : Step s₁ p e s₂ p₁) (rest : Amid G s₂ p₁ es a s') :
      Amid G s p (es ++ e.toList) a s'

/-- Moves within a relation add up to such a move. -/
structure Moves (G : σ → σ → Prop) : Prop where
  refl : ∀ s, G s s
  trans : ∀ s s₁ s₂, G s s₁ → G s₁ s₂ → G s s₂

section Runs

variable {G G' R : σ → σ → Prop} {E : ε → Prop} {α β γ : Type} {s s₁ s' : σ} {es : List ε}

/-- A run alone is a run amid anything. -/
theorem amid_of_exec {p : Prog σ ω ε α} {a : α} (hrefl : ∀ s, G s s) (h : Exec s p es a s') :
    Amid G s p es a s' := by
  induction h with
  | done => exact .done (hrefl _)
  | step hstep _ ih => exact .step (hrefl _) hstep ih

/-- The others may have moved before. -/
theorem Amid.early {p : Prog σ ω ε α} {a : α} (hG : Moves G) (hmove : G s s₁)
    (h : Amid G s₁ p es a s') : Amid G s p es a s' := by
  cases h with
  | done hd => exact .done (hG.trans _ _ _ hmove hd)
  | step hb hstep hrest => exact .step (hG.trans _ _ _ hmove hb) hstep hrest

/-- The others may move afterwards. -/
theorem Amid.late {p : Prog σ ω ε α} {a : α} (hG : Moves G) (h : Amid G s p es a s₁)
    (hmove : G s₁ s') : Amid G s p es a s' := by
  induction h with
  | done hd => exact .done (hG.trans _ _ _ hd hmove)
  | step hb hstep _ ih => exact .step hb hstep (ih hmove)

theorem Amid.mono {p : Prog σ ω ε α} {a : α} (h : Amid G s p es a s')
    (hG : ∀ s s', G s s' → G' s s') : Amid G' s p es a s' := by
  induction h with
  | done hd => exact .done (hG _ _ hd)
  | step hb hstep _ ih => exact .step (hG _ _ hb) hstep ih

/-- A finished program is followed by the changes of others alone. -/
theorem amid_done {a b : α} (h : Amid (ω := ω) G s (.done a) es b s') :
    es = [] ∧ b = a ∧ G s s' := by
  cases h with
  | done hd => exact ⟨rfl, rfl, hd⟩
  | step _ hstep _ => cases hstep

/-- A run of an action is that action and a run of the rest. -/
theorem amid_act {event : β → Option ε} {run : ω → σ → Option (β × σ)}
    {next : β → Prog σ ω ε α} {a : α} (h : Amid G s (.act event run next) es a s') :
    ∃ s₁ i b s₂ es', G s s₁ ∧ run i s₁ = some (b, s₂) ∧ Amid G s₂ (next b) es' a s' ∧
      es = es' ++ (event b).toList := by
  cases h with
  | step hb hstep hrest =>
      cases hstep with
      | act hrun => exact ⟨_, _, _, _, _, hb, hrun, hrest, rfl⟩

/-- A run of an action without a rest. -/
theorem amid_action {event : β → Option ε} {run : ω → σ → Option (β × σ)} {b : β}
    (h : Amid G s (.act event run .done) es b s') :
    ∃ s₁ i s₂, G s s₁ ∧ run i s₁ = some (b, s₂) ∧ G s₂ s' ∧ es = (event b).toList := by
  rcases amid_act h with ⟨s₁, i, b', s₂, es', hb, hrun, hrest, rfl⟩
  rcases amid_done hrest with ⟨rfl, rfl, hd⟩
  exact ⟨s₁, i, s₂, hb, hrun, hd, rfl⟩

/-- A step is preceded and followed by the changes of others. -/
theorem amid_atomic {f : σ → β × σ} {b : β} (h : Amid (ω := ω) G s (Prog.atomic f) es b s') :
    ∃ s₁, G s s₁ ∧ b = (f s₁).1 ∧ G (f s₁).2 s' ∧ es = [] := by
  rcases amid_action h with ⟨s₁, _, s₂, hb, hrun, hd, rfl⟩
  have heq : f s₁ = (b, s₂) := Option.some.inj hrun
  exact ⟨s₁, hb, by rw [heq], by rw [heq]; exact hd, rfl⟩

theorem amid_read {f : σ → β} {b : β} (h : Amid (ω := ω) G s (Prog.read f) es b s') :
    ∃ s₁, G s s₁ ∧ b = f s₁ ∧ G s₁ s' ∧ es = [] :=
  amid_atomic h

theorem amid_write {f : σ → σ} {b : Unit} (h : Amid (ω := ω) G s (Prog.write f) es b s') :
    ∃ s₁, G s s₁ ∧ G (f s₁) s' ∧ es = [] := by
  rcases amid_atomic h with ⟨s₁, hb, _, hd, hes⟩
  exact ⟨s₁, hb, hd, hes⟩

theorem amid_logged {event : β → ε} {f : σ → β × σ} {b : β}
    (h : Amid (ω := ω) G s (Prog.logged event f) es b s') :
    ∃ s₁, G s s₁ ∧ b = (f s₁).1 ∧ G (f s₁).2 s' ∧ es = [event b] := by
  rcases amid_action h with ⟨s₁, _, s₂, hb, hrun, hd, rfl⟩
  have heq : f s₁ = (b, s₂) := Option.some.inj hrun
  exact ⟨s₁, hb, by rw [heq], by rw [heq]; exact hd, rfl⟩

/-- A run of a sequence splits at the middle. -/
theorem amid_bind {p : Prog σ ω ε α} {f : α → Prog σ ω ε β} {b : β} (hrefl : ∀ s, G s s)
    (h : Amid G s (p >>= f) es b s') :
    ∃ a s₁ es₁ es₂, Amid G s p es₁ a s₁ ∧ Amid G s₁ (f a) es₂ b s' ∧ es = es₂ ++ es₁ := by
  -- The run belongs to the first program until that is done, by induction on it.
  generalize hq : (p >>= f) = q at h
  induction h generalizing p with
  | @done s s' b hd =>
      cases p with
      | done a =>
          have hf : f a = .done b := hq
          exact ⟨a, s, [], _, .done (hrefl s), by rw [hf]; exact .done hd, rfl⟩
      | act event run next => cases hq
      | par left right next => cases hq
  | @step s s₁ s₂ s' q q₁ e es b hb hstep hrest ih =>
      cases p with
      | done a =>
          have hf : f a = q := hq
          exact ⟨a, s, [], _, .done (hrefl s), by rw [hf]; exact .step hb hstep hrest,
            (List.append_nil _).symm⟩
      | act event run next =>
          cases hq
          cases hstep with
          | act hrun =>
              rcases ih rfl with ⟨a, s₃, es₁, es₂, h₁, h₂, rfl⟩
              exact ⟨a, s₃, _, es₂, .step hb (.act hrun) h₁, h₂, List.append_assoc _ _ _⟩
      | par left right next =>
          cases hq
          cases hstep with
          | left hl =>
              rcases ih (Prog.par_bind _ right next f) with ⟨a, s₃, es₁, es₂, h₁, h₂, rfl⟩
              exact ⟨a, s₃, _, es₂, .step hb (.left hl) h₁, h₂, List.append_assoc _ _ _⟩
          | right hr =>
              rcases ih (Prog.par_bind left _ next f) with ⟨a, s₃, es₁, es₂, h₁, h₂, rfl⟩
              exact ⟨a, s₃, _, es₂, .step hb (.right hr) h₁, h₂, List.append_assoc _ _ _⟩
          | join =>
              rcases ih rfl with ⟨a, s₃, es₁, es₂, h₁, h₂, rfl⟩
              exact ⟨a, s₃, _, es₂, .step hb .join h₁, h₂, List.append_assoc _ _ _⟩

end Runs

section Order

variable {G H R R' : σ → σ → Prop} {E E' : ε → Prop} {α β γ : Type} {s s' : σ} {es : List ε}

/-- A program within a relation gets no further than it and the others do. -/
theorem amid_within {p : Prog σ ω ε α} {a : α} (hH : Moves H) (hG : ∀ s s', G s s' → H s s')
    (h : Amid G s p es a s') :
    Within H E p → H s s' ∧ ∀ x ∈ es, E x := by
  induction h with
  | done hd => exact fun _ => ⟨hG _ _ hd, fun x hx => absurd hx List.not_mem_nil⟩
  | step hb hstep _ ih =>
      intro hp
      rcases within_step hstep hp with ⟨hs, hE, hnext⟩
      rcases ih hnext with ⟨hrest, hE'⟩
      refine ⟨hH.trans _ _ _ (hG _ _ hb) ?_, ?_⟩
      · rcases hs with hs | rfl
        -- An own step counts as one of the steps around it.
        · exact hH.trans _ _ _ hs hrest
        · exact hrest
      · intro x hx
        rcases List.mem_append.mp hx with hx | hx
        · exact hE' x hx
        · exact hE x (Option.mem_toList.mp hx)

-- The induction is on the run of the whole. A step of the right branch is, for
-- the left one, a move of the others.
/-- The left branch of two runs amid what the right one does. -/
theorem amid_par_left {p : Prog σ ω ε α} {q : Prog σ ω ε β} {next : α × β → Prog σ ω ε γ} {c : γ}
    (hH : Moves H) (hG : ∀ s s', G s s' → H s s') (h : Amid G s (.par p q next) es c s')
    (hq : Within H E q) :
    ∃ ab s₁ es₁ es₂, Amid H s p es₁ ab.1 s₁ ∧ Amid G s₁ (next ab) es₂ c s' ∧
      (∀ x ∈ es₁, x ∈ es) ∧ ∀ x ∈ es₂, x ∈ es := by
  -- By induction on the run: steps of the right side are changes around the left.
  generalize hr : Prog.par p q next = r at h
  induction h generalizing p q with
  | done hd => cases hr
  | @step s s₁ s₂ s' r r₁ e es c hb hstep hrest ih =>
      cases hr
      cases hstep with
      | left hl =>
          rcases ih hq rfl with ⟨ab, s₃, es₁, es₂, h₁, h₂, hes₁, hes₂⟩
          refine ⟨ab, s₃, _, es₂, .step (hG _ _ hb) hl h₁, h₂, fun x hx => ?_,
            fun x hx => List.mem_append_left _ (hes₂ x hx)⟩
          rcases List.mem_append.mp hx with hx | hx
          · exact List.mem_append_left _ (hes₁ x hx)
          · exact List.mem_append_right _ hx
      | right hr =>
          rcases within_step hr hq with ⟨hs, _, hq'⟩
          rcases ih hq' rfl with ⟨ab, s₃, es₁, es₂, h₁, h₂, hes₁, hes₂⟩
          refine ⟨ab, s₃, es₁, es₂, ?_, h₂, fun x hx => List.mem_append_left _ (hes₁ x hx),
            fun x hx => List.mem_append_left _ (hes₂ x hx)⟩
          refine h₁.early hH (hH.trans _ _ _ (hG _ _ hb) ?_)
          rcases hs with hs | rfl
          · exact hs
          · exact hH.refl _
      | join =>
          refine ⟨_, _, [], _, .done (hG _ _ hb), hrest, nofun, fun x hx => ?_⟩
          exact List.mem_append_left _ hx

/-- The right branch of two runs amid what the left one does. -/
theorem amid_par_right {p : Prog σ ω ε α} {q : Prog σ ω ε β} {next : α × β → Prog σ ω ε γ} {c : γ}
    (hH : Moves H) (hG : ∀ s s', G s s' → H s s') (h : Amid G s (.par p q next) es c s')
    (hp : Within H E p) :
    ∃ ab s₁ es₁ es₂, Amid H s q es₁ ab.2 s₁ ∧ Amid G s₁ (next ab) es₂ c s' ∧
      (∀ x ∈ es₁, x ∈ es) ∧ ∀ x ∈ es₂, x ∈ es := by
  -- By induction on the run: steps of the left side are changes around the right.
  generalize hr : Prog.par p q next = r at h
  induction h generalizing p q with
  | done hd => cases hr
  | @step s s₁ s₂ s' r r₁ e es c hb hstep hrest ih =>
      cases hr
      cases hstep with
      | right hr =>
          rcases ih hp rfl with ⟨ab, s₃, es₁, es₂, h₁, h₂, hes₁, hes₂⟩
          refine ⟨ab, s₃, _, es₂, .step (hG _ _ hb) hr h₁, h₂, fun x hx => ?_,
            fun x hx => List.mem_append_left _ (hes₂ x hx)⟩
          rcases List.mem_append.mp hx with hx | hx
          · exact List.mem_append_left _ (hes₁ x hx)
          · exact List.mem_append_right _ hx
      | left hl =>
          rcases within_step hl hp with ⟨hs, _, hp'⟩
          rcases ih hp' rfl with ⟨ab, s₃, es₁, es₂, h₁, h₂, hes₁, hes₂⟩
          refine ⟨ab, s₃, es₁, es₂, ?_, h₂, fun x hx => List.mem_append_left _ (hes₁ x hx),
            fun x hx => List.mem_append_left _ (hes₂ x hx)⟩
          refine h₁.early hH (hH.trans _ _ _ (hG _ _ hb) ?_)
          rcases hs with hs | rfl
          · exact hs
          · exact hH.refl _
      | join =>
          refine ⟨_, _, [], _, .done (hG _ _ hb), hrest, nofun, fun x hx => ?_⟩
          exact List.mem_append_left _ hx

/-- Of two programs awaited at once, the left one. -/
theorem amid_both_left {p : Prog σ ω ε α} {q : Prog σ ω ε β} {ab : α × β} (hH : Moves H)
    (hG : ∀ s s', G s s' → H s s') (h : Amid G s (Prog.both p q) es ab s')
    (hq : Within H E q) : ∃ es₁, Amid H s p es₁ ab.1 s' ∧ ∀ x ∈ es₁, x ∈ es := by
  rcases amid_par_left hH hG h hq with ⟨ab', s₁, es₁, _, hp, hdone, hes, _⟩
  rcases amid_done hdone with ⟨_, rfl, hmove⟩
  exact ⟨es₁, hp.late hH (hG _ _ hmove), hes⟩

/-- Of two programs awaited at once, the right one. -/
theorem amid_both_right {p : Prog σ ω ε α} {q : Prog σ ω ε β} {ab : α × β} (hH : Moves H)
    (hG : ∀ s s', G s s' → H s s') (h : Amid G s (Prog.both p q) es ab s')
    (hp : Within H E p) : ∃ es₁, Amid H s q es₁ ab.2 s' ∧ ∀ x ∈ es₁, x ∈ es := by
  rcases amid_par_right hH hG h hp with ⟨ab', s₁, es₁, _, hq, hdone, hes, _⟩
  rcases amid_done hdone with ⟨_, rfl, hmove⟩
  exact ⟨es₁, hq.late hH (hG _ _ hmove), hes⟩

/-- Programs awaited at once run from the start of the whole to its end, each
    amid what the others do. -/
theorem amid_all {xs : List γ} {f : γ → Prog σ ω ε β} (hH : Moves H) :
    ∀ {es : List ε} {s s' : σ} {bs : List β}, Amid H s (Prog.all (xs.map f)) es bs s' →
      (∀ x ∈ xs, Within H E (f x)) →
      ∀ x ∈ xs, ∃ es₁ b, Amid H s (f x) es₁ b s' ∧ ∀ e ∈ es₁, e ∈ es := by
  induction xs with
  | nil => exact fun _ _ x hx => absurd hx List.not_mem_nil
  | cons y ys ih =>
      intro es s s' bs h hf x hx
      have hrest : Within H E (Prog.all (ys.map f)) := by
        refine within_all fun p hp => ?_
        rcases List.mem_map.mp hp with ⟨z, hz, rfl⟩
        exact hf z (List.mem_cons_of_mem _ hz)
      -- For one part, the steps of all the others are steps around it.
      rcases List.mem_cons.mp hx with rfl | hx
      · rcases amid_par_left hH (fun _ _ => id) h hrest with ⟨ab, s₁, es₁, _, hp, hdone, hes, _⟩
        exact ⟨es₁, ab.1, hp.late hH (amid_done hdone).2.2, hes⟩
      · rcases amid_par_right hH (fun _ _ => id) h (hf y List.mem_cons_self) with
          ⟨ab, s₁, es₁, _, hp, hdone, hes, _⟩
        rcases ih (hp.late hH (amid_done hdone).2.2)
          (fun z hz => hf z (List.mem_cons_of_mem _ hz)) x hx with ⟨es₂, b, hq, hes₂⟩
        exact ⟨es₂, b, hq, fun e he => hes e (hes₂ e he)⟩

/-- A safe program reaches its postcondition among moves that the invariant
    does not notice. -/
theorem amid_safe {ρ M : Type} [AddCommMonoid M] {P : Protocol M σ ε ρ} {c : ρ}
    {p : Prog σ ω ε α} {a : α} (h : Amid G s p es a s') (hguard : ∀ s h x, P.guard s h x)
    (hG : ∀ R s s' hist, G s s' → P.Inv R s hist → P.Inv R s' hist) :
    ∀ (r F : M) (hist : List (ρ × ε)) (Q : α → M → Prop), Safe P c p r Q →
      P.Inv (r + F) s hist →
      ∃ r' hist', P.Inv (r' + F) s' hist' ∧ Q a r' := by
  induction h with
  | done hd =>
      intro r F hist Q hsafe hinv
      exact ⟨r, hist, hG _ _ _ _ hd hinv, hsafe⟩
  | step hb hstep _ ih =>
      intro r F hist Q hsafe hinv
      -- The steps around it keep the invariant for any resource, so the program keeps its own.
      rcases safe_step hstep r F hist Q hsafe (fun x _ => hguard _ _ x) (hG _ _ _ _ hb hinv) with
        ⟨r₁, hinv₁, hsafe₁⟩
      exact ih r₁ F _ Q hsafe₁ hinv₁

end Order

/-- From a store with `P` the program ends within `G` of a store with `Q`, if
    its events meet `E`. -/
def Yields (G : σ → σ → Prop) (E : ε → Prop) {α : Type} (p : Prog σ ω ε α) (P : σ → Prop)
    (Q : α → σ → Prop) : Prop :=
  ∀ s es a s', P s → Amid G s p es a s' → (∀ x ∈ es, E x) → ∃ s₁, Q a s₁ ∧ G s₁ s'

namespace Yields

variable {G : σ → σ → Prop} {E E' : ε → Prop} {α β : Type} {P P' : σ → Prop}

theorem pure {Q : α → σ → Prop} (a : α) (h : ∀ s, P s → Q a s) :
    Yields (ω := ω) G E (pure a) P Q := by
  intro s es b s' hs hamid _
  rcases amid_done hamid with ⟨_, rfl, hmove⟩
  exact ⟨s, h s hs, hmove⟩

theorem bind {p : Prog σ ω ε α} {f : α → Prog σ ω ε β} {Q : α → σ → Prop} {R : β → σ → Prop}
    (hG : Moves G) (hp : Yields G E p P Q) (hf : ∀ a, Yields G E (f a) (Q a) R) :
    Yields G E (p >>= f) P R := by
  intro s es b s' hs hamid hE
  rcases amid_bind hG.refl hamid with ⟨a, s₁, es₁, es₂, h₁, h₂, rfl⟩
  rcases hp s es₁ a s₁ hs h₁ fun x hx => hE x (List.mem_append_right _ hx) with ⟨s₂, hs₂, hmove⟩
  exact hf a s₂ es₂ b s' hs₂ (h₂.early hG hmove) fun x hx => hE x (List.mem_append_left _ hx)

/-- The condition before a program may be strengthened. -/
theorem weaken {p : Prog σ ω ε α} {Q : α → σ → Prop} (h : Yields G E p P' Q)
    (hP : ∀ s, P s → P' s) : Yields G E p P Q :=
  fun s es a s' hs hamid hE => h s es a s' (hP s hs) hamid hE

/-- The condition after a program may be weakened. -/
theorem imp {p : Prog σ ω ε α} {Q Q' : α → σ → Prop} (h : Yields G E p P Q)
    (hQ : ∀ a s, Q a s → Q' a s) : Yields G E p P Q' := by
  intro s es a s' hs hamid hE
  rcases h s es a s' hs hamid hE with ⟨s₁, hs₁, hmove⟩
  exact ⟨s₁, hQ a s₁ hs₁, hmove⟩

/-- A program that moves the store as the others do keeps every assertion. -/
theorem within {p : Prog σ ω ε α} (hG : Moves G) (h : Within G E' p) :
    Yields G E p P fun _ => P :=
  fun s _ _ _ hs hamid _ => ⟨s, hs, (amid_within hG (fun _ _ => id) hamid h).1⟩

/-- Of two programs side by side, the left one keeps what it yields. -/
theorem both_left {p : Prog σ ω ε α} {q : Prog σ ω ε β} {Q : α → σ → Prop} (hG : Moves G)
    (hp : Yields G E p P Q) (hq : Within G E' q) :
    Yields G E (Prog.both p q) P fun ab => Q ab.1 := by
  intro s es ab s' hs hamid hE
  rcases amid_both_left hG (fun _ _ => id) hamid hq with ⟨es₁, hleft, hes⟩
  exact hp s es₁ ab.1 s' hs hleft fun x hx => hE x (hes x hx)

theorem atomic {f : σ → β × σ} {Q : β → σ → Prop}
    (h : ∀ s s₁, P s → G s s₁ → Q (f s₁).1 (f s₁).2) :
    Yields (ω := ω) G E (Prog.atomic f) P Q := by
  intro s es b s' hs hamid _
  rcases amid_atomic hamid with ⟨s₁, hmove, rfl, hend, _⟩
  exact ⟨_, h s s₁ hs hmove, hend⟩

theorem read {f : σ → β} {Q : β → σ → Prop} (h : ∀ s s₁, P s → G s s₁ → Q (f s₁) s₁) :
    Yields (ω := ω) G E (Prog.read f) P Q :=
  atomic h

theorem write {f : σ → σ} {Q : Unit → σ → Prop} (h : ∀ s s₁, P s → G s s₁ → Q () (f s₁)) :
    Yields (ω := ω) G E (Prog.write f) P Q :=
  atomic h

theorem logged {event : β → ε} {f : σ → β × σ} {Q : β → σ → Prop}
    (h : ∀ s s₁, P s → G s s₁ → E (event (f s₁).1) → Q (f s₁).1 (f s₁).2) :
    Yields (ω := ω) G E (Prog.logged event f) P Q := by
  intro s es b s' hs hamid hE
  rcases amid_logged hamid with ⟨s₁, hmove, rfl, hend, rfl⟩
  exact ⟨_, h s s₁ hs hmove (hE _ (List.mem_singleton_self _)), hend⟩

theorem ask {f : ω → σ → Option (β × σ)} {Q : β → σ → Prop}
    (h : ∀ s s₁ i b s₂, P s → G s s₁ → f i s₁ = some (b, s₂) → Q b s₂) :
    Yields G E (Prog.ask f) P Q := by
  intro s es b s' hs hamid _
  rcases amid_action hamid with ⟨s₁, i, s₂, hmove, hrun, hend, _⟩
  exact ⟨s₂, h s s₁ i b s₂ hs hmove hrun, hend⟩

/-- Two actions that are awaited at once while nothing else happens, in
    either order. -/
theorem pair {e d : Unit → Option ε} {f g : σ → σ} {Q : σ → Prop}
    (hl : ∀ s, P s → (∀ x, e () = some x → E x) → Q (g (f s)))
    (hr : ∀ s, P s → (∀ x, e () = some x → E x) → Q (f (g s))) :
    Yields (ω := ω) (fun s s' => s = s') E
      (Prog.both (.act e (fun _ s => some ((), f s)) .done)
        (.act d (fun _ s => some ((), g s)) .done)) P fun _ => Q := by
  have hsame : Moves fun s s' : σ => s = s' := ⟨fun _ => rfl, fun _ _ _ => Eq.trans⟩
  intro s es ab s' hs hamid hE
  refine ⟨s', ?_, rfl⟩
  -- Whichever action comes first, the other one is what is left.
  cases hamid with
  | step hb hstep hrest =>
      cases hb
      cases hstep with
      | left hstep =>
          cases hstep with
          | act hrun =>
              cases hrun
              rcases amid_par_right hsame (fun _ _ => id) hrest
                (within_pure (G := fun s s' : σ => s = s') (E := fun _ => True) ()) with
                ⟨_, s₁, _, _, hact, hdone, _, _⟩
              rcases amid_action hact with ⟨_, _, _, rfl, hrun, rfl, _⟩
              cases hrun
              rcases amid_done hdone with ⟨_, _, rfl⟩
              exact hl s hs fun x hx => hE x (List.mem_append_right _ (by rw [hx]; simp))
      | right hstep =>
          cases hstep with
          | act hrun =>
              cases hrun
              rcases amid_par_left hsame (fun _ _ => id) hrest
                (within_pure (G := fun s s' : σ => s = s') (E := fun _ => True) ()) with
                ⟨_, s₁, _, _, hact, hdone, hes, _⟩
              rcases amid_action hact with ⟨_, _, _, rfl, hrun, rfl, hevent⟩
              cases hrun
              rcases amid_done hdone with ⟨_, _, rfl⟩
              refine hr s hs fun x hx => hE x (List.mem_append_left _ (hes x ?_))
              rw [hevent, hx]
              simp

/-- What holds after a run alone, if the assertion survives a move. -/
theorem exec {p : Prog σ ω ε α} {Q : α → σ → Prop} {s s' : σ} {es : List ε} {a : α}
    (h : Yields G E p P Q) (hG : Moves G) (hs : P s) (hexec : Exec s p es a s')
    (hE : ∀ x ∈ es, E x) (hQ : ∀ s s', Q a s → G s s' → Q a s') : Q a s' := by
  rcases h s es a s' hs (amid_of_exec hG.refl hexec) hE with ⟨s₁, hs₁, hmove⟩
  exact hQ s₁ s' hs₁ hmove

end Yields

/-- A program that only looks at the store. -/
structure Looks {α : Type} (p : Prog σ ω ε α) (f : σ → α) : Prop where
  within : Within Eq (fun _ => False) p
  answer : ∀ s es a s', Amid Eq s p es a s' → a = f s
  exec : ∀ s, Exec s p [] (f s) s

namespace Looks

variable {α β γ : Type} {f : σ → α} {g : σ → β} {p : Prog σ ω ε α} {q : Prog σ ω ε β}

theorem moves_eq : Moves fun s s' : σ => s = s' :=
  ⟨fun _ => rfl, fun _ _ _ => Eq.trans⟩

theorem read (i : ω) (f : σ → α) : Looks (ε := ε) (Prog.read f : Prog σ ω ε α) f := by
  refine ⟨within_read fun _ => rfl, ?_, fun s => ?_⟩
  · intro s es a s' h
    rcases amid_read h with ⟨_, rfl, heq, _⟩
    exact heq
  · exact .step (.act (i := i) rfl) .done

-- The left branch may run to its end before the right one begins.
/-- Two look-ups side by side are one look-up of the pair. -/
theorem both (hp : Looks p f) (hq : Looks q g) :
    Looks (Prog.both p q) fun s => (f s, g s) := by
  refine ⟨within_both hp.within hq.within, ?_, fun s => ?_⟩
  · intro s es ab s' h
    rcases amid_both_left moves_eq (fun _ _ => id) h hq.within with ⟨_, hleft, _⟩
    rcases amid_both_right moves_eq (fun _ _ => id) h hp.within with ⟨_, hright, _⟩
    exact Prod.ext (hp.answer _ _ _ _ hleft) (hq.answer _ _ _ _ hright)
  · have hdone : Exec s (Prog.both (.done (f s)) (.done (g s)) : Prog σ ω ε (α × β)) []
        (f s, g s) s := .step .join .done
    have hright : Exec s (Prog.both (.done (f s)) q) [] (f s, g s) s :=
      exec_right (hq.exec s) hdone
    exact exec_left (hp.exec s) hright

/-- A function of what is looked up is a look-up too. -/
theorem map (hp : Looks p f) (h : α → γ) :
    Looks (p >>= fun a => pure (h a)) fun s => h (f s) := by
  refine ⟨within_bind hp.within fun _ => within_pure _, ?_, fun s => ?_⟩
  · intro s es c s' hamid
    rcases amid_bind (fun _ => rfl) hamid with ⟨a, s₁, es₁, _, hleft, hdone, _⟩
    rw [(amid_done hdone).2.1, hp.answer _ _ _ _ hleft]
  · have hdone : Exec s (pure (h (f s)) : Prog σ ω ε γ) [] (h (f s)) s := .done
    exact exec_seq (f := fun a => pure (h a)) (hp.exec s) hdone

/-- What such a program does alone. -/
theorem exec_iff (hp : Looks p f) {s s' : σ} {es : List ε} {a : α} :
    Exec s p es a s' ↔ es = [] ∧ a = f s ∧ s' = s := by
  constructor
  · intro h
    rcases exec_within (fun _ => rfl) (fun _ _ _ => Eq.trans) h hp.within with ⟨rfl, hes⟩
    have hanswer := hp.answer _ _ _ _ (amid_of_exec (fun _ => rfl) h)
    exact ⟨List.eq_nil_iff_forall_not_mem.mpr hes, hanswer, rfl⟩
  · rintro ⟨rfl, rfl, rfl⟩
    exact hp.exec _

end Looks

end Interleave
