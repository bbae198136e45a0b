import Mathlib.Algebra.BigOperators.Group.List.Basic
import Sandbox.Interleave.Pool

/-!
# Invariants with Resources

How to prove something about every interleaving of unboundedly many calls
while looking at one program at a time.

Each thread of a pool holds a resource, an element of a commutative monoid.
The invariant relates the sum of all resources to the store and the history.
A program is `Safe` from a resource when each of its actions, whatever the
other threads hold, can exchange its own resource so that the invariant
survives, and when it ends with a resource its postcondition accepts. A
resource is what a thread knows and what it alone may do: an exclusive right
is an element of which the invariant admits only one, a fact that stays true
is an element that is never taken back.

`Safe` is defined by recursion on the program, so its rules are the syntax of
programs: `safe_bind` for sequences, `safe_both` and `safe_all` for programs
awaited together, one rule for each kind of action. A parallel branch is to
its sibling what a thread is to another, and `par` needs no rule of its own
for interference.

Most actions of a program do not touch what an invariant speaks of. `Within`
says that every action of a program moves the store within a relation and
leaves only certain events, and `safe_within` makes such a program safe from
any resource if the invariant notices neither.

`poolOk_of_reachable` is the point: if every call's program is safe, then the
invariant holds in every pool a run reaches. `safe_exec` is the same for a
single program running alone.

## Main definitions

* `Protocol`: A guard on events and an invariant with resources.
* `Safe`: A program that preserves the invariant and reaches a postcondition.
* `Within`: A program whose actions stay within a relation on stores.
* `AllPost`: The postcondition of a list of programs.
* `Closed`, `Keeps`, `Returns`: Classes of programs, the class of those that
  need no resource, and the class of those that keep none.
* `PoolOk`: Every thread of a pool is safe from a resource it holds.

## Theorems

* `safe_bind`, `safe_seq`, `safe_mono`, `safe_frame`: Sequencing, weakening,
  framing.
* `safe_both`, `safe_all`: Programs awaited together.
* `AllPost.sum_eq`, `AllPost.sum_items`: What a list of programs holds in the
  end.
* `safe_atomic`, `safe_read`, `safe_write`, `safe_logged`, `safe_emit`,
  `safe_ask`: The actions.
* `within_bind`, `within_both`, `within_all`, `within_read_bind`,
  `within_mono`: The same shape for `Within`.
* `safe_within`: A program within a harmless relation is safe.
* `closed_keeps`, `closed_returns`: The two classes are closed under building.
* `safe_step`: A step of a safe program leaves a safe program.
* `poolOk_of_reachable`: Every pool of every run is ok.
* `finished_post`, `finished_two`: What finished threads hold.
* `beside_of_run`: What no thread holds stays.
* `exec_within`: A program within a relation that ran alone stayed within it.
* `safe_exec`, `safe_exec_within`: A safe program that ran alone has reached
  its postcondition.
-/

namespace Interleave

/-- A guard on the events of a run, and an invariant that relates the sum of
    all resources to the store and the history. -/
structure Protocol (M σ ε ρ : Type) where
  guard : Guard σ ε ρ
  Inv : M → σ → List (ρ × ε) → Prop

variable {σ ω ε ρ τ : Type} {Ret : ρ → Type} {M : Type} [AddCommMonoid M]

/-- A program of the call `c` that holds `r` preserves the invariant at each
    of its actions, whatever the frame `F` of all other resources is, and
    ends with an answer and a resource in `Q`. -/
def Safe (P : Protocol M σ ε ρ) (c : ρ) :
    {α : Type} → Prog σ ω ε α → M → (α → M → Prop) → Prop
  | _, .done a, r, Q => Q a r
  | _, .act event run next, r, Q => ∀ F s h i b s', P.Inv (r + F) s h →
      run i s = some (b, s') → (∀ x, event b = some x → P.guard s h x) →
      ∃ r', P.Inv (r' + F) s' (logEvent c (event b) h) ∧ Safe P c (next b) r' Q
  | _, .par left right next, r, Q => ∃ r₁ r₂ Q₁ Q₂, r = r₁ + r₂ ∧
      Safe P c left r₁ Q₁ ∧ Safe P c right r₂ Q₂ ∧
      ∀ b d r₁ r₂, Q₁ b r₁ → Q₂ d r₂ → Safe P c (next (b, d)) (r₁ + r₂) Q

section Rules

variable {P : Protocol M σ ε ρ} {c : ρ} {α β γ : Type}

theorem safe_done {a : α} {r : M} {Q : α → M → Prop} (h : Q a r) :
    Safe (ω := ω) P c (.done a) r Q := h

theorem safe_pure {a : α} {r : M} {Q : α → M → Prop} (h : Q a r) :
    Safe (ω := ω) P c (pure a) r Q := h

/-- A sequence is safe when its head ends in what its tail is safe from. -/
theorem safe_bind {p : Prog σ ω ε α} {f : α → Prog σ ω ε β} {r : M} {Q : β → M → Prop}
    (h : Safe P c p r fun a r' => Safe P c (f a) r' Q) : Safe P c (p >>= f) r Q := by
  induction p generalizing r Q with
  | done a => exact h
  | act event run next ih =>
      intro F s hist i b s' hinv hrun hguard
      rcases h F s hist i b s' hinv hrun hguard with ⟨r', hinv', hnext⟩
      exact ⟨r', hinv', ih b hnext⟩
  | par left right next _ _ ih =>
      rcases h with ⟨r₁, r₂, Q₁, Q₂, hr, hl, hrt, hnext⟩
      exact ⟨r₁, r₂, Q₁, Q₂, hr, hl, hrt, fun b d s₁ s₂ h₁ h₂ =>
        ih (b, d) (hnext b d s₁ s₂ h₁ h₂)⟩

/-- The postcondition may be weakened. -/
theorem safe_mono {p : Prog σ ω ε α} {r : M} {Q Q' : α → M → Prop} (h : Safe P c p r Q)
    (hQ : ∀ a r', Q a r' → Q' a r') : Safe P c p r Q' := by
  induction p generalizing r with
  | done a => exact hQ a r h
  | act event run next ih =>
      intro F s hist i b s' hinv hrun hguard
      rcases h F s hist i b s' hinv hrun hguard with ⟨r', hinv', hnext⟩
      exact ⟨r', hinv', ih b hnext hQ⟩
  | par left right next _ _ ih =>
      rcases h with ⟨r₁, r₂, Q₁, Q₂, hr, hl, hrt, hnext⟩
      exact ⟨r₁, r₂, Q₁, Q₂, hr, hl, hrt, fun b d s₁ s₂ h₁ h₂ =>
        ih (b, d) (hnext b d s₁ s₂ h₁ h₂) hQ⟩

/-- A sequence is safe when its tail is safe from whatever its head ends in. -/
theorem safe_seq {p : Prog σ ω ε α} {f : α → Prog σ ω ε β} {r : M} {Q : α → M → Prop}
    {Q' : β → M → Prop} (h : Safe P c p r Q) (hf : ∀ a r', Q a r' → Safe P c (f a) r' Q') :
    Safe P c (p >>= f) r Q' :=
  safe_bind (safe_mono h hf)

/-- A resource the program does not use is still held at its end. -/
theorem safe_frame {p : Prog σ ω ε α} {r : M} (f : M) {Q : α → M → Prop}
    (h : Safe P c p r Q) :
    Safe P c p (r + f) fun a r' => ∃ q, r' = q + f ∧ Q a q := by
  induction p generalizing r with
  | done a => exact ⟨r, rfl, h⟩
  | act event run next ih =>
      intro F s hist i b s' hinv hrun hguard
      -- The frame goes to what the others hold for the time of the step.
      rw [add_assoc] at hinv
      rcases h (f + F) s hist i b s' hinv hrun hguard with ⟨r', hinv', hnext⟩
      exact ⟨r' + f, by rwa [add_assoc], ih b hnext⟩
  | par left right next ihl _ ih =>
      rcases h with ⟨r₁, r₂, Q₁, Q₂, rfl, hl, hrt, hnext⟩
      -- Of the two branches the left one carries the frame.
      refine ⟨r₁ + f, r₂, _, Q₂, add_right_comm r₁ r₂ f, ihl hl, hrt, ?_⟩
      rintro b d s₁ s₂ ⟨q, rfl, hq⟩ h₂
      rw [add_right_comm]
      exact ih (b, d) (hnext b d q s₂ hq h₂)

/-- Two programs awaited together share out the resource. -/
theorem safe_both {p : Prog σ ω ε α} {q : Prog σ ω ε β} {r₁ r₂ : M}
    {Q : α → M → Prop} {R : β → M → Prop} (hp : Safe P c p r₁ Q) (hq : Safe P c q r₂ R) :
    Safe P c (Prog.both p q) (r₁ + r₂) fun x r' =>
      ∃ s₁ s₂, r' = s₁ + s₂ ∧ Q x.1 s₁ ∧ R x.2 s₂ :=
  ⟨r₁, r₂, Q, R, rfl, hp, hq, fun _ _ s₁ s₂ h₁ h₂ => ⟨s₁, s₂, rfl, h₁, h₂⟩⟩

/-- What a list of programs, one for each item, has reached when all of them
    have ended. -/
inductive AllPost (Q : γ → β → M → Prop) : List γ → List β → M → Prop
  | nil : AllPost Q [] [] 0
  | cons {x : γ} {xs : List γ} {b : β} {bs : List β} {r r' : M} (h : Q x b r)
      (rest : AllPost Q xs bs r') : AllPost Q (x :: xs) (b :: bs) (r + r')

/-- A list of programs awaited together shares out the resource, each item
    getting its own. -/
theorem safe_all (xs : List γ) (f : γ → Prog σ ω ε β) (res : γ → M) (Q : γ → β → M → Prop)
    (h : ∀ x ∈ xs, Safe P c (f x) (res x) (Q x)) :
    Safe P c (Prog.all (xs.map f)) (xs.map res).sum (AllPost Q xs) := by
  induction xs with
  | nil => exact AllPost.nil
  | cons x xs ih =>
      rw [List.map_cons, List.map_cons, List.sum_cons]
      refine ⟨res x, (xs.map res).sum, Q x, AllPost Q xs, rfl, h x List.mem_cons_self,
        ih fun y hy => h y (List.mem_cons_of_mem x hy), ?_⟩
      exact fun b bs s₁ s₂ h₁ h₂ => AllPost.cons h₁ h₂

/-- A `Promise.all` has one answer for each of its members. -/
theorem AllPost.length_eq {Q : γ → β → M → Prop} {xs : List γ} {bs : List β} {r : M}
    (h : AllPost Q xs bs r) : xs.length = bs.length := by
  induction h with
  | nil => rfl
  | cons _ _ ih => rw [List.length_cons, List.length_cons, ih]

/-- When each program's resource is a function of its item and its answer, so
    is their sum. -/
theorem AllPost.sum_eq {f : γ → β → M} {xs : List γ} {bs : List β} {r : M}
    (h : AllPost (fun x b s => s = f x b) xs bs r) :
    r = ((xs.zip bs).map fun y => f y.1 y.2).sum := by
  induction h with
  | nil => rfl
  | cons hx _ ih => rw [List.zip_cons_cons, List.map_cons, List.sum_cons, ← ih, hx]

/-- The same when it is a function of the item. -/
theorem AllPost.sum_items {f : γ → M} {xs : List γ} {bs : List β} {r : M}
    (h : AllPost (fun x _ s => s = f x) xs bs r) : r = (xs.map f).sum := by
  induction h with
  | nil => rfl
  | cons hx _ ih => rw [List.map_cons, List.sum_cons, ← ih, hx]

/-- What is shown of every answer with its item, if it is not about resources. -/
theorem AllPost.zip {Q : γ → β → Prop} {xs : List γ} {bs : List β} {r : M}
    (h : AllPost (fun x b _ => Q x b) xs bs r) : ∀ y ∈ xs.zip bs, Q y.1 y.2 := by
  induction h with
  | nil => exact fun _ hy => absurd hy List.not_mem_nil
  | cons hx _ ih =>
      intro y hy
      rcases List.mem_cons.mp hy with rfl | hy
      · exact hx
      · exact ih y hy

theorem safe_atomic {f : σ → β × σ} {r : M} {Q : β → M → Prop}
    (h : ∀ F s hist, P.Inv (r + F) s hist →
      ∃ r', P.Inv (r' + F) (f s).2 hist ∧ Q (f s).1 r') :
    Safe (ω := ω) P c (Prog.atomic f) r Q := by
  intro F s hist i b s' hinv hrun _
  have hb : f s = (b, s') := Option.some.inj hrun
  have hsafe := h F s hist hinv
  rw [hb] at hsafe
  exact hsafe

/-- Looking at the store leaves it as it is. -/
theorem safe_read {f : σ → β} {r : M} {Q : β → M → Prop}
    (h : ∀ F s hist, P.Inv (r + F) s hist → ∃ r', P.Inv (r' + F) s hist ∧ Q (f s) r') :
    Safe (ω := ω) P c (Prog.read f) r Q :=
  safe_atomic h

theorem safe_write {f : σ → σ} {r : M} {Q : Unit → M → Prop}
    (h : ∀ F s hist, P.Inv (r + F) s hist → ∃ r', P.Inv (r' + F) (f s) hist ∧ Q () r') :
    Safe (ω := ω) P c (Prog.write f) r Q :=
  safe_atomic h

/-- The rule for a step that is recorded, where the guard is at hand. -/
theorem safe_logged {event : β → ε} {f : σ → β × σ} {r : M} {Q : β → M → Prop}
    (h : ∀ F s hist, P.Inv (r + F) s hist → P.guard s hist (event (f s).1) →
      ∃ r', P.Inv (r' + F) (f s).2 ((c, event (f s).1) :: hist) ∧ Q (f s).1 r') :
    Safe (ω := ω) P c (Prog.logged event f) r Q := by
  intro F s hist i b s' hinv hrun hguard
  have hb : f s = (b, s') := Option.some.inj hrun
  have hsafe := h F s hist hinv
  rw [hb] at hsafe
  exact hsafe (hguard _ rfl)

theorem safe_emit {e : ε} {r : M} {Q : Unit → M → Prop}
    (h : ∀ F s hist, P.Inv (r + F) s hist → P.guard s hist e →
      ∃ r', P.Inv (r' + F) s ((c, e) :: hist) ∧ Q () r') :
    Safe (ω := ω) P c (Prog.emit e) r Q :=
  safe_logged h

/-- The rule for a question to the outside, for every answer it may give. -/
theorem safe_ask {f : ω → σ → Option (β × σ)} {r : M} {Q : β → M → Prop}
    (h : ∀ F s hist i b s', P.Inv (r + F) s hist → f i s = some (b, s') →
      ∃ r', P.Inv (r' + F) s' hist ∧ Q b r') :
    Safe P c (Prog.ask f) r Q :=
  fun F s hist i b s' hinv hrun _ => h F s hist i b s' hinv hrun

end Rules

/-- Every action of a program moves the store within `G`, and the events it
    leaves are in `E`. -/
def Within (G : σ → σ → Prop) (E : ε → Prop) : {α : Type} → Prog σ ω ε α → Prop
  | _, .done _ => True
  | _, .act event run next => ∀ i s b s', run i s = some (b, s') →
      G s s' ∧ (∀ x, event b = some x → E x) ∧ Within G E (next b)
  | _, .par left right next => Within G E left ∧ Within G E right ∧ ∀ x, Within G E (next x)

section WithinRules

variable {G G' : σ → σ → Prop} {E E' : ε → Prop} {α β γ : Type}

theorem within_pure (a : α) : Within (ω := ω) G E (pure a) := trivial

theorem within_bind {p : Prog σ ω ε α} {f : α → Prog σ ω ε β} (hp : Within G E p)
    (hf : ∀ a, Within G E (f a)) : Within G E (p >>= f) := by
  induction p with
  | done a => exact hf a
  | act event run next ih =>
      intro i s b s' hrun
      rcases hp i s b s' hrun with ⟨hG, hE, hnext⟩
      exact ⟨hG, hE, ih b hnext hf⟩
  | par left right next _ _ ih =>
      exact ⟨hp.1, hp.2.1, fun x => ih x (hp.2.2 x) hf⟩

theorem within_both {p : Prog σ ω ε α} {q : Prog σ ω ε β} (hp : Within G E p)
    (hq : Within G E q) : Within G E (Prog.both p q) :=
  ⟨hp, hq, fun _ => trivial⟩

theorem within_all {ps : List (Prog σ ω ε β)} (h : ∀ p ∈ ps, Within G E p) :
    Within G E (Prog.all ps) := by
  induction ps with
  | nil => trivial
  | cons p ps ih =>
      exact ⟨h p List.mem_cons_self, ih fun q hq => h q (List.mem_cons_of_mem p hq),
        fun _ => trivial⟩

/-- A single action is within what its effect and its event are within. -/
theorem within_act {event : β → Option ε} {run : ω → σ → Option (β × σ)}
    (hG : ∀ i s b s', run i s = some (b, s') → G s s')
    (hE : ∀ b x, event b = some x → E x) :
    Within G E (.act event run .done) :=
  fun i s b s' hrun => ⟨hG i s b s' hrun, hE b, trivial⟩

theorem within_atomic {f : σ → β × σ} (h : ∀ s, G s (f s).2) :
    Within (ω := ω) G E (Prog.atomic f) := by
  refine within_act (fun i s b s' hrun => ?_) nofun
  have hb : f s = (b, s') := Option.some.inj hrun
  have hG := h s
  rw [hb] at hG
  exact hG

theorem within_read {f : σ → β} (h : ∀ s, G s s) : Within (ω := ω) G E (Prog.read f) :=
  within_atomic h

/-- What follows a look at the store, after what can be seen there. -/
theorem within_read_bind {f : σ → α} {g : α → Prog σ ω ε β} (h : ∀ s, G s s)
    (hg : ∀ s, Within G E (g (f s))) : Within G E (Prog.read f >>= g) := by
  intro i s b s' hrun
  cases hrun
  exact ⟨h s, nofun, hg s⟩

theorem within_write {f : σ → σ} (h : ∀ s, G s (f s)) :
    Within (ω := ω) G E (Prog.write f) :=
  within_atomic h

theorem within_logged {event : β → ε} {f : σ → β × σ} (hG : ∀ s, G s (f s).2)
    (hE : ∀ b, E (event b)) : Within (ω := ω) G E (Prog.logged event f) := by
  refine within_act (fun i s b s' hrun => ?_) fun b x hx => ?_
  · have hb : f s = (b, s') := Option.some.inj hrun
    have hs := hG s
    rw [hb] at hs
    exact hs
  · rw [← Option.some.inj hx]
    exact hE b

theorem within_ask {f : ω → σ → Option (β × σ)}
    (h : ∀ i s b s', f i s = some (b, s') → G s s') : Within G E (Prog.ask f) :=
  within_act h nofun

theorem within_mono {p : Prog σ ω ε α} (h : Within G E p) (hG : ∀ s s', G s s' → G' s s')
    (hE : ∀ x, E x → E' x) : Within G' E' p := by
  induction p with
  | done a => trivial
  | act event run next ih =>
      intro i s b s' hrun
      rcases h i s b s' hrun with ⟨hs, he, hnext⟩
      exact ⟨hG s s' hs, fun x hx => hE x (he x hx), ih b hnext⟩
  | par left right next ihl ihr ih =>
      exact ⟨ihl h.1, ihr h.2.1, fun x => ih x (h.2.2 x)⟩

/-- A program within changes and events the invariant does not notice is safe
    from every resource and keeps it. -/
theorem safe_within {P : Protocol M σ ε ρ} {c : ρ} {p : Prog σ ω ε α} (h : Within G E p)
    (hG : ∀ R s s' hist, G s s' → P.Inv R s hist → P.Inv R s' hist)
    (hE : ∀ R s hist x, E x → P.Inv R s hist → P.Inv R s ((c, x) :: hist)) (r : M) :
    Safe P c p r fun _ r' => r' = r := by
  induction p generalizing r with
  | done a => exact safe_done rfl
  | act event run next ih =>
      intro F s hist i b s' hinv hrun _
      rcases h i s b s' hrun with ⟨hs, he, hnext⟩
      have hinv' := hG _ s s' hist hs hinv
      refine ⟨r, ?_, ih b hnext r⟩
      cases hev : event b with
      | none => exact hinv'
      | some x => exact hE _ s' hist x (he x hev) hinv'
  | par left right next ihl ihr ih =>
      -- Neither branch touches the resource, so one of them holds it all.
      refine ⟨r, 0, _, _, (add_zero r).symm, ihl h.1 r, ihr h.2.1 0, ?_⟩
      intro b d r₁ r₂ h₁ h₂
      rw [h₁, h₂, add_zero]
      exact ih (b, d) (h.2.2 (b, d)) r

/-- A step of such a program is within the relation and leaves such a program. -/
theorem within_step {s s' : σ} {p p' : Prog σ ω ε α} {e : Option ε} (hstep : Step s p e s' p') :
    Within G E p → (G s s' ∨ s' = s) ∧ (∀ x, e = some x → E x) ∧ Within G E p' := by
  induction hstep with
  | act hrun =>
      intro h
      rcases h _ _ _ _ hrun with ⟨hG, hE, hnext⟩
      exact ⟨.inl hG, hE, hnext⟩
  | left _ ih =>
      intro h
      rcases ih h.1 with ⟨hG, hE, hl⟩
      exact ⟨hG, hE, hl, h.2.1, h.2.2⟩
  | right _ ih =>
      intro h
      rcases ih h.2.1 with ⟨hG, hE, hr⟩
      exact ⟨hG, hE, h.1, hr, h.2.2⟩
  | join => exact fun h => ⟨.inr rfl, nofun, h.2.2 _⟩

/-- A program that runs alone to its end stays within the relation, if that is
    reflexive and transitive. -/
theorem exec_within {p : Prog σ ω ε α} {s s' : σ} {es : List ε} {a : α}
    (hrefl : ∀ s, G s s) (htrans : ∀ s₁ s₂ s₃, G s₁ s₂ → G s₂ s₃ → G s₁ s₃)
    (hexec : Exec s p es a s') : Within G E p → G s s' ∧ ∀ x ∈ es, E x := by
  induction hexec with
  | done => exact fun _ => ⟨hrefl _, fun x hx => absurd hx List.not_mem_nil⟩
  | step hstep _ ih =>
      intro h
      rcases within_step hstep h with ⟨hG, hE, hnext⟩
      rcases ih hnext with ⟨hG', hE'⟩
      refine ⟨?_, ?_⟩
      · rcases hG with hG | rfl
        · exact htrans _ _ _ hG hG'
        · exact hG'
      · intro x hx
        rcases List.mem_append.mp hx with hx | hx
        · exact hE' x hx
        · exact hE x (Option.mem_toList.mp hx)

end WithinRules

/-- A class of programs that is closed under the ways of building programs. -/
structure Closed (C : (α : Type) → Prog σ ω ε α → Prop) : Prop where
  pure : ∀ {α : Type} (a : α), C α (pure a)
  bind : ∀ {α β : Type} {p : Prog σ ω ε α} {f : α → Prog σ ω ε β},
    C α p → (∀ a, C β (f a)) → C β (p >>= f)
  both : ∀ {α β : Type} {p : Prog σ ω ε α} {q : Prog σ ω ε β},
    C α p → C β q → C (α × β) (Prog.both p q)
  all : ∀ {α β : Type} {xs : List α} {f : α → Prog σ ω ε β},
    (∀ x ∈ xs, C β (f x)) → C (List β) (Prog.all (xs.map f))

/-- A program that is safe from nothing and promises nothing. -/
def Keeps (P : Protocol M σ ε ρ) (c : ρ) (α : Type) (p : Prog σ ω ε α) : Prop :=
  Safe P c p 0 fun _ _ => True

/-- A program that is safe from nothing keeps whatever its caller holds. -/
theorem safe_keeping {P : Protocol M σ ε ρ} {c : ρ} {α : Type} {p : Prog σ ω ε α} (r : M)
    (h : Keeps P c α p) : Safe P c p r fun _ r' => ∃ q, r' = q + r := by
  have hframe := safe_frame r h
  rw [zero_add] at hframe
  exact safe_mono hframe fun _ _ ⟨q, hq, _⟩ => ⟨q, hq⟩

/-- A program that keeps the invariant is safe with every resource. -/
theorem Keeps.safe {P : Protocol M σ ε ρ} {c : ρ} {α : Type} {p : Prog σ ω ε α}
    (h : Keeps P c α p) (r : M) : Safe P c p r fun _ _ => True :=
  safe_mono (safe_keeping r h) fun _ _ _ => trivial

/-- A program that is safe without resources keeps the invariant. -/
theorem Safe.keeps {P : Protocol M σ ε ρ} {c : ρ} {α : Type} {p : Prog σ ω ε α}
    {Q : α → M → Prop} (h : Safe P c p 0 Q) : Keeps P c α p :=
  safe_mono h fun _ _ _ => trivial

/-- The left program of two needs all of the resource. -/
theorem safe_both_keeps {P : Protocol M σ ε ρ} {c : ρ} {α β : Type} {p : Prog σ ω ε α}
    {q : Prog σ ω ε β} {r : M} {Q : α → M → Prop} (hp : Safe P c p r Q) (hq : Keeps P c β q) :
    Safe P c (Prog.both p q) r fun x r' => ∃ s t, r' = s + t ∧ Q x.1 s := by
  have h := safe_both hp hq
  rw [add_zero] at h
  exact safe_mono h fun _ _ ⟨s, t, hr, hQ, _⟩ => ⟨s, t, hr, hQ⟩

/-- The right program of two needs all of the resource. -/
theorem safe_keeps_both {P : Protocol M σ ε ρ} {c : ρ} {α β : Type} {p : Prog σ ω ε α}
    {q : Prog σ ω ε β} {r : M} {Q : β → M → Prop} (hp : Keeps P c α p) (hq : Safe P c q r Q) :
    Safe P c (Prog.both p q) r fun x r' => ∃ s t, r' = s + t ∧ Q x.2 s := by
  have h := safe_both hp hq
  rw [zero_add] at h
  exact safe_mono h fun _ _ ⟨t, s, hr, _, hQ⟩ => ⟨s, t, hr.trans (add_comm t s), hQ⟩

/-- A program that gives back all that it acquires. -/
def Returns (P : Protocol M σ ε ρ) (c : ρ) (α : Type) (p : Prog σ ω ε α) : Prop :=
  Safe P c p 0 fun _ r => r = 0

/-- Such a program keeps whatever its caller holds. -/
theorem Returns.safe {P : Protocol M σ ε ρ} {c : ρ} {α : Type} {p : Prog σ ω ε α}
    (h : Returns P c α p) (r : M) : Safe P c p r fun _ r' => r' = r := by
  have hframe := safe_frame r h
  rw [zero_add] at hframe
  refine safe_mono hframe ?_
  rintro _ _ ⟨_, rfl, rfl⟩
  exact zero_add r

/-- Such a program beside one that uses the resource. -/
theorem safe_both_returns {P : Protocol M σ ε ρ} {c : ρ} {α β : Type} {p : Prog σ ω ε α}
    {q : Prog σ ω ε β} {r : M} {Q : α → M → Prop} (hp : Safe P c p r Q) (hq : Returns P c β q) :
    Safe P c (Prog.both p q) r fun x r' => Q x.1 r' := by
  have h := safe_both hp hq
  rw [add_zero] at h
  refine safe_mono h ?_
  rintro _ _ ⟨s, _, rfl, hQ, rfl⟩
  rwa [add_zero]

/-- A program that gives nothing may run beside a safe one. -/
theorem safe_returns_both {P : Protocol M σ ε ρ} {c : ρ} {α β : Type} {p : Prog σ ω ε α}
    {q : Prog σ ω ε β} {r : M} {Q : β → M → Prop} (hp : Returns P c α p) (hq : Safe P c q r Q) :
    Safe P c (Prog.both p q) r fun x r' => Q x.2 r' := by
  have h := safe_both hp hq
  rw [zero_add] at h
  refine safe_mono h ?_
  rintro _ _ ⟨_, s, rfl, rfl, hQ⟩
  rwa [zero_add]

/-- Giving nothing is closed under the constructions of a program. -/
theorem closed_returns (P : Protocol M σ ε ρ) (c : ρ) : Closed (Returns (ω := ω) P c) where
  pure _ := safe_pure rfl
  bind hp hf := by
    refine safe_seq hp ?_
    rintro a _ rfl
    exact hf a
  both hp hq := by
    have h := safe_both hp hq
    rw [add_zero] at h
    refine safe_mono h ?_
    rintro _ _ ⟨_, _, rfl, rfl, rfl⟩
    exact add_zero 0
  all {α β xs f} h := by
    have hall := safe_all (P := P) (c := c) xs f (fun _ => 0) (fun _ _ r => r = 0) h
    rw [List.map_const', List.sum_replicate, nsmul_zero] at hall
    refine safe_mono hall fun bs r hr => ?_
    rw [hr.sum_eq (f := fun _ _ => 0), List.map_const', List.sum_replicate, nsmul_zero]

/-- Keeping the invariant is closed under the constructions of a program. -/
theorem closed_keeps (P : Protocol M σ ε ρ) (c : ρ) : Closed (Keeps (ω := ω) P c) where
  pure _ := safe_pure trivial
  bind hp hf := safe_seq hp fun a r' _ => (hf a).safe r'
  both hp hq := by
    have h := safe_both hp hq
    rw [add_zero] at h
    exact safe_mono h fun _ _ _ => trivial
  all {α β xs f} h := by
    have hall := safe_all (P := P) (c := c) xs f (fun _ => 0) (fun _ _ _ => True) h
    rw [List.map_const', List.sum_replicate, nsmul_zero] at hall
    exact safe_mono hall fun _ _ _ => trivial

/-- A step of a safe program preserves the invariant and leaves a safe
    program. -/
theorem safe_step {P : Protocol M σ ε ρ} {c : ρ} {α : Type} {s s' : σ}
    {p p' : Prog σ ω ε α} {e : Option ε} (hstep : Step s p e s' p') :
    ∀ (r F : M) (h : List (ρ × ε)) (Q : α → M → Prop), Safe P c p r Q →
      (∀ x, e = some x → P.guard s h x) → P.Inv (r + F) s h →
      ∃ r', P.Inv (r' + F) s' (logEvent c e h) ∧ Safe P c p' r' Q := by
  induction hstep with
  | act hrun =>
      intro r F h Q hsafe hguard hinv
      exact hsafe F _ h _ _ _ hinv hrun hguard
  -- The resources of the other side are part of the frame.
  | left _ ih =>
      intro r F h Q hsafe hguard hinv
      rcases hsafe with ⟨r₁, r₂, Q₁, Q₂, rfl, hl, hr, hnext⟩
      rw [add_assoc] at hinv
      rcases ih r₁ (r₂ + F) h Q₁ hl hguard hinv with ⟨r₁', hinv', hl'⟩
      exact ⟨r₁' + r₂, by rwa [add_assoc], r₁', r₂, Q₁, Q₂, rfl, hl', hr, hnext⟩
  | right _ ih =>
      intro r F h Q hsafe hguard hinv
      rcases hsafe with ⟨r₁, r₂, Q₁, Q₂, rfl, hl, hr, hnext⟩
      rw [add_comm r₁, add_assoc] at hinv
      rcases ih r₂ (r₁ + F) h Q₂ hr hguard hinv with ⟨r₂', hinv', hr'⟩
      exact ⟨r₁ + r₂', by rwa [add_comm r₁, add_assoc], r₁, r₂', Q₁, Q₂, rfl, hl, hr', hnext⟩
  | join =>
      intro r F h Q hsafe _ hinv
      rcases hsafe with ⟨r₁, r₂, Q₁, Q₂, rfl, hl, hr, hnext⟩
      exact ⟨r₁ + r₂, hinv, hnext _ _ _ _ hl hr⟩

/-- Every thread of a pool is safe from some resource, and the invariant
    holds of their sum. -/
def PoolOk (P : Protocol M σ ε ρ) (Post : (c : ρ) → Ret c → M → Prop)
    (p : Pool σ ω ε ρ Ret) : Prop :=
  ∃ rs : List M,
    List.Forall₂ (fun r (t : Thread σ ω ε ρ Ret) => Safe P t.call t.prog r (Post t.call))
      rs p.threads ∧ P.Inv rs.sum p.store p.trace

section Pools

variable {P : Protocol M σ ε ρ} {S : System σ ω ε ρ τ Ret}
  {Post : (c : ρ) → Ret c → M → Prop}

theorem poolOk_step (hbody : ∀ c, Safe P c (S.body c) 0 (Post c))
    (henv : ∀ R s h t s', S.env t s = some s' → P.Inv R s h → P.Inv R s' h)
    {p q : Pool σ ω ε ρ Ret} (hstep : PoolStep S P.guard p q) (hp : PoolOk P Post p) :
    PoolOk P Post q := by
  rcases hp with ⟨rs, hall, hinv⟩
  cases hstep with
  | spawn c =>
      refine ⟨rs ++ [0], List.rel_append hall (.cons (hbody c) .nil), ?_⟩
      rw [List.sum_append, List.sum_singleton, add_zero]
      exact hinv
  | run hrun hguard =>
      -- Split the resources where the threads are split.
      rename_i ts₁ ts₂ c p₁ p₂ e
      have htake := List.forall₂_take_append rs ts₁ _ hall
      have hdrop := List.forall₂_drop_append rs ts₁ _ hall
      rw [← List.sum_take_add_sum_drop rs ts₁.length] at hinv
      cases hd : rs.drop ts₁.length with
      | nil =>
          rw [hd] at hdrop
          cases hdrop
      | cons r rs₂ =>
          rw [hd] at hdrop hinv
          cases hdrop with
          | cons hsafe hrest =>
              rw [List.sum_cons, add_left_comm] at hinv
              rcases safe_step hrun r _ _ _ hsafe hguard hinv with ⟨r', hinv', hsafe'⟩
              refine ⟨rs.take ts₁.length ++ r' :: rs₂,
                List.rel_append htake (.cons hsafe' hrest), ?_⟩
              rw [List.sum_append, List.sum_cons, add_left_comm]
              exact hinv'
  | env t ht => exact ⟨rs, hall, henv _ _ _ t _ ht hinv⟩

/-- Safe bodies make every reachable pool ok. -/
theorem poolOk_of_reachable (hbody : ∀ c, Safe P c (S.body c) 0 (Post c))
    (henv : ∀ R s h t s', S.env t s = some s' → P.Inv R s h → P.Inv R s' h)
    {init : σ} (hinit : P.Inv 0 init []) {p : Pool σ ω ε ρ Ret}
    (h : Reachable S P.guard init p) : PoolOk P Post p := by
  induction h with
  | refl => exact ⟨[], .nil, hinit⟩
  | tail _ hstep ih => exact poolOk_step hbody henv hstep ih

/-- A resource in a list is a summand of the list. -/
theorem exists_sum_eq {rs : List M} {i : Nat} {r : M} (hi : rs[i]? = some r) :
    ∃ F, rs.sum = r + F := by
  induction rs generalizing i with
  | nil => cases hi
  | cons a rs ih =>
      cases i with
      | zero =>
          cases hi
          exact ⟨rs.sum, List.sum_cons⟩
      -- What stands before the part joins the rest.
      | succ i =>
          rcases ih hi with ⟨F, hF⟩
          exact ⟨a + F, by rw [List.sum_cons, hF, add_left_comm]⟩

/-- Two resources at different places are summands together. -/
theorem exists_sum_eq_two {rs : List M} {i j : Nat} {r r' : M} (hij : i ≠ j)
    (hi : rs[i]? = some r) (hj : rs[j]? = some r') : ∃ F, rs.sum = r + r' + F := by
  -- Both indices go down together until one of them is at the head.
  induction rs generalizing i j with
  | nil => cases hi
  | cons a rs ih =>
      cases i with
      | zero =>
          cases j with
          | zero => exact absurd rfl hij
          | succ j =>
              cases hi
              rcases exists_sum_eq (List.getElem?_cons_succ ▸ hj) with ⟨F, hF⟩
              exact ⟨F, by rw [List.sum_cons, hF, add_assoc]⟩
      | succ i =>
          cases j with
          | zero =>
              cases hj
              rcases exists_sum_eq (List.getElem?_cons_succ ▸ hi) with ⟨F, hF⟩
              exact ⟨F, by rw [List.sum_cons, hF, add_left_comm, ← add_assoc]⟩
          | succ j =>
              rcases ih (fun h => hij (congrArg Nat.succ h)) hi hj with ⟨F, hF⟩
              exact ⟨a + F, by rw [List.sum_cons, hF, add_left_comm]⟩

/-- The resource of a thread at an index. -/
theorem resource_at {ts : List (Thread σ ω ε ρ Ret)} {rs : List M} {i : Nat} {c : ρ} {a : Ret c}
    (hall : List.Forall₂ (fun r (t : Thread σ ω ε ρ Ret) => Safe P t.call t.prog r (Post t.call))
      rs ts) (hi : ts[i]? = some ⟨c, .done a⟩) :
    ∃ r, rs[i]? = some r ∧ Post c a r := by
  induction hall generalizing i with
  | nil => cases hi
  | cons hsafe _ ih =>
      cases i with
      | zero =>
          cases hi
          exact ⟨_, rfl, hsafe⟩
      | succ i => exact ih hi

/-- If all threads are finished and finished ones hold nothing, nothing is
    held. -/
theorem sum_of_finished {ts : List (Thread σ ω ε ρ Ret)} {rs : List M}
    (hall : List.Forall₂ (fun r (t : Thread σ ω ε ρ Ret) => Safe P t.call t.prog r (Post t.call))
      rs ts) (hpost : ∀ c a r, Post c a r → r = 0)
    (hfinished : ∀ t ∈ ts, ∃ a, t.prog = .done a) : rs.sum = 0 := by
  induction hall with
  | nil => rfl
  | cons hsafe _ ih =>
      rcases hfinished _ List.mem_cons_self with ⟨a, ha⟩
      rw [ha] at hsafe
      rw [List.sum_cons, hpost _ _ _ hsafe,
        ih fun t ht => hfinished t (List.mem_cons_of_mem _ ht), add_zero]

/-- A finished thread holds a resource its postcondition accepts. -/
theorem finished_post {p : Pool σ ω ε ρ Ret} (hp : PoolOk P Post p) {i : Nat} {c : ρ}
    {a : Ret c} (hi : p.threads[i]? = some ⟨c, .done a⟩) :
    ∃ r F, Post c a r ∧ P.Inv (r + F) p.store p.trace := by
  rcases hp with ⟨rs, hall, hinv⟩
  rcases resource_at hall hi with ⟨r, hr, hpost⟩
  rcases exists_sum_eq hr with ⟨F, hF⟩
  exact ⟨r, F, hpost, hF ▸ hinv⟩

/-- A protocol with a resource that no thread holds. -/
def Protocol.beside (P : Protocol M σ ε ρ) (f : M) : Protocol M σ ε ρ where
  guard := P.guard
  Inv r s h := P.Inv (r + f) s h

/-- Programs do not notice what nobody holds. -/
theorem safe_beside {c : ρ} {α : Type} {p : Prog σ ω ε α} {r : M} (f : M) {Q : α → M → Prop}
    (h : Safe P c p r Q) : Safe (P.beside f) c p r Q := by
  induction p generalizing r with
  | done a => exact h
  | act event run next ih =>
      intro F s hist i b s' hinv hrun hguard
      -- What lies beside the run joins the frame of the others.
      have hinv' : P.Inv (r + F + f) s hist := hinv
      rw [add_assoc] at hinv'
      rcases h (F + f) s hist i b s' hinv' hrun hguard with ⟨r', hnew, hnext⟩
      rw [← add_assoc] at hnew
      exact ⟨r', hnew, ih b hnext⟩
  | par left right next ihl ihr ih =>
      rcases h with ⟨r₁, r₂, Q₁, Q₂, hr, hl, hrt, hnext⟩
      exact ⟨r₁, r₂, Q₁, Q₂, hr, ihl hl, ihr hrt, fun b d s₁ s₂ h₁ h₂ =>
        ih (b, d) (hnext b d s₁ s₂ h₁ h₂)⟩

/-- What nobody holds is still there at the end of a run. -/
theorem beside_of_run (hbody : ∀ c, Safe P c (S.body c) 0 (Post c))
    (henv : ∀ R s h t s', S.env t s = some s' → P.Inv R s h → P.Inv R s' h) {f : M}
    {p q : Pool σ ω ε ρ Ret} (hp : PoolOk (P.beside f) Post p)
    (h : Relation.ReflTransGen (PoolStep S P.guard) p q) : PoolOk (P.beside f) Post q := by
  induction h with
  | refl => exact hp
  | tail _ hstep ih =>
      -- The resource that lies aside is a frame for every thread.
      exact poolOk_step (P := P.beside f) (fun c => safe_beside f (hbody c))
        (fun R s h t s' ht hinv => henv _ s h t s' ht hinv) hstep ih

/-- Two finished threads hold their resources together. -/
theorem finished_two {p : Pool σ ω ε ρ Ret} (hp : PoolOk P Post p) {i j : Nat} {c d : ρ}
    {a : Ret c} {b : Ret d} (hij : i ≠ j) (hi : p.threads[i]? = some ⟨c, .done a⟩)
    (hj : p.threads[j]? = some ⟨d, .done b⟩) :
    ∃ r r' F, Post c a r ∧ Post d b r' ∧ P.Inv (r + r' + F) p.store p.trace := by
  rcases hp with ⟨rs, hall, hinv⟩
  rcases resource_at hall hi with ⟨r, hr, hpost⟩
  rcases resource_at hall hj with ⟨r', hr', hpost'⟩
  rcases exists_sum_eq_two hij hr hr' with ⟨F, hF⟩
  exact ⟨r, r', F, hpost, hpost', hF ▸ hinv⟩

end Pools

/-- A safe program that ran alone has reached its postcondition, and the
    invariant still holds. The guard need only allow the events that the
    program leaves, after such events. -/
theorem safe_exec_within {P : Protocol M σ ε ρ} {c : ρ} {α : Type} {s s' : σ}
    {p : Prog σ ω ε α} {es : List ε} {a : α} {G : σ → σ → Prop} {E : ε → Prop}
    (hexec : Exec s p es a s')
    (hguard : ∀ s h x, E x → (∀ y ∈ h, E (Prod.snd y)) → P.guard s h x) :
    ∀ (r F : M) (h : List (ρ × ε)) (Q : α → M → Prop), Within G E p → (∀ y ∈ h, E y.2) →
      Safe P c p r Q → P.Inv (r + F) s h →
      ∃ r', P.Inv (r' + F) s' (es.map (c, ·) ++ h) ∧ Q a r' := by
  induction hexec with
  | done =>
      intro r F h Q _ _ hsafe hinv
      exact ⟨r, hinv, hsafe⟩
  | @step s s₁ s' p p₁ e es a hstep _ ih =>
      intro r F h Q hwithin hh hsafe hinv
      rcases within_step hstep hwithin with ⟨_, hE, hwithin₁⟩
      rcases safe_step hstep r F h Q hsafe (fun x hx => hguard s h x (hE x hx) hh) hinv with
        ⟨r₁, hinv₁, hsafe₁⟩
      -- The history grows by events of the program alone.
      have hh₁ : ∀ y ∈ logEvent c e h, E y.2 := by
        intro y hy
        cases e with
        | none => exact hh y hy
        | some x =>
            rcases List.mem_cons.mp hy with rfl | hy
            · exact hE x rfl
            · exact hh y hy
      rcases ih r₁ F _ Q hwithin₁ hh₁ hsafe₁ hinv₁ with ⟨r', hinv', hQ⟩
      refine ⟨r', ?_, hQ⟩
      cases e with
      | none => rwa [Option.toList_none, List.append_nil]
      | some x =>
          rw [Option.toList_some, List.map_append, List.append_assoc]
          exact hinv'

/-- Every program is within the total relation. -/
theorem within_true {α : Type} (p : Prog σ ω ε α) :
    Within (fun _ _ => True) (fun _ => True) p := by
  induction p with
  | done a => trivial
  | act event run next ih => exact fun _ _ b _ _ => ⟨trivial, fun _ _ => trivial, ih b⟩
  | par left right next ihl ihr ih => exact ⟨ihl, ihr, ih⟩

/-- The same when the guard allows everything. -/
theorem safe_exec {P : Protocol M σ ε ρ} {c : ρ} {α : Type} {s s' : σ}
    {p : Prog σ ω ε α} {es : List ε} {a : α} (hexec : Exec s p es a s')
    (hguard : ∀ s h x, P.guard s h x) (r F : M) (h : List (ρ × ε)) (Q : α → M → Prop)
    (hsafe : Safe P c p r Q) (hinv : P.Inv (r + F) s h) :
    ∃ r', P.Inv (r' + F) s' (es.map (c, ·) ++ h) ∧ Q a r' :=
  safe_exec_within (E := fun _ => True) hexec (fun s h x _ _ => hguard s h x) r F h Q
    (within_true p) (fun _ _ => trivial) hsafe hinv

end Interleave
