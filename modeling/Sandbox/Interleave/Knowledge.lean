import Sandbox.Interleave.Answers
import Sandbox.Interleave.Resource

/-!
# Invariants with Knowledge

When threads own nothing and only learn things that stay true, resources are
more than is needed. A `Course` is an invariant together with what the steps
of every thread lead from and to. What a thread may rely on is knowledge: a
statement about the store and the history that every such step preserves.

Knowledge is a commutative monoid under conjunction, so it is a resource, and
everything said about resources holds of it. Unlike other resources it can be
copied (`add_self`), and knowing more never hurts (`knows_of_le`). That is
why the rules here are simpler: both branches of a `par` start with all that
is known.

## Main definitions

* `Course`: A guard, an invariant and what steps lead from and to.
* `Knowledge`: Statements that steps preserve.
* `Knows`: A program that follows the course and learns something.

## Theorems

* `knows_pure`, `knows_bind`, `knows_both`, `knows_all`: The rules for
  building programs.
* `closed_knows`: The class of programs that follow the course.
* `knows_act`, `knows_atomic`, `knows_read`, `knows_logged`, `knows_ask`: The
  actions.
* `knows_fact`: Facts that are known may be assumed.
* `knows_answers`: What a program may answer is known of its answer.
* `knows_within`: A program the course does not notice.
* `inv_of_reachable`: The invariant holds in every pool.
* `holds_of_run`: What is true stays true.
* `finished_knows`: What finished threads have learnt is true.
-/

namespace Interleave

variable {σ ω ε ρ τ : Type} {Ret : ρ → Type}

/-- A guard on events, an invariant, and what one step may lead to. -/
structure Course (σ ε ρ : Type) where
  guard : Guard σ ε ρ
  Inv : σ → List (ρ × ε) → Prop
  Leads : σ → List (ρ × ε) → σ → List (ρ × ε) → Prop

/-- A statement that the steps of a course preserve. -/
@[ext] structure Knowledge (C : Course σ ε ρ) where
  holds : σ → List (ρ × ε) → Prop
  stable : ∀ s h s' h', C.Leads s h s' h' → holds s h → holds s' h'

variable {C : Course σ ε ρ}

namespace Knowledge

instance : Add (Knowledge C) where
  add K L := ⟨fun s h => K.holds s h ∧ L.holds s h, fun s h s' h' hlead hboth =>
    ⟨K.stable s h s' h' hlead hboth.1, L.stable s h s' h' hlead hboth.2⟩⟩

instance : Zero (Knowledge C) where
  zero := ⟨fun _ _ => True, fun _ _ _ _ _ _ => trivial⟩

instance : AddCommMonoid (Knowledge C) where
  add_assoc K L M := by
    ext s h
    exact and_assoc
  zero_add K := by
    ext s h
    exact iff_of_eq (true_and _)
  add_zero K := by
    ext s h
    exact iff_of_eq (and_true _)
  add_comm K L := by
    ext s h
    exact and_comm
  nsmul := nsmulRec

/-- Knowledge can be copied. -/
theorem add_self (K : Knowledge C) : K + K = K := by
  ext s h
  exact and_self_iff

/-- Knowing one thing is knowing the other. -/
def Gives (K L : Knowledge C) : Prop := ∀ s h, K.holds s h → L.holds s h

theorem gives_refl (K : Knowledge C) : K.Gives K := fun _ _ h => h

theorem gives_zero (K : Knowledge C) : K.Gives 0 := fun _ _ _ => trivial

theorem add_gives_left (K L : Knowledge C) : (K + L).Gives K := fun _ _ h => h.1

theorem add_gives_right (K L : Knowledge C) : (K + L).Gives L := fun _ _ h => h.2

/-- What gives less is larger. -/
instance : Preorder (Knowledge C) where
  le := Gives
  le_refl := gives_refl
  le_trans _ _ _ hKL hLM := fun s h hK => hLM s h (hKL s h hK)

/-- What is known of the history alone and stays true when it grows. -/
def ofHistory (k : List (ρ × ε) → Prop)
    (h : ∀ s h s' h', C.Leads s h s' h' → k h → k h') : Knowledge C :=
  ⟨fun _ hist => k hist, h⟩

/-- What does not depend on the store or the history. -/
def fact (p : Prop) : Knowledge C := ⟨fun _ _ => p, fun _ _ _ _ _ h => h⟩

end Knowledge

open Knowledge

/-- The invariant of a course, with knowledge as the resource. -/
def Course.protocol (C : Course σ ε ρ) : Protocol (Knowledge C) σ ε ρ where
  guard := C.guard
  Inv K s h := C.Inv s h ∧ K.holds s h

/-- A program that starts with `K` follows the course and ends with `Q`. -/
def Knows (c : ρ) {α : Type} (K : Knowledge C) (p : Prog σ ω ε α) (Q : α → Knowledge C) : Prop :=
  Safe C.protocol c p K fun a K' => K'.Gives (Q a)

section Rules

variable {c : ρ} {α β γ : Type} {K L : Knowledge C}

/-- A safe program ends with an answer that it may give. -/
theorem safe_answers {M : Type} [AddCommMonoid M] {P : Protocol M σ ε ρ} {p : Prog σ ω ε α} {r : M}
    {Q : α → M → Prop} {A : α → Prop} (h : Safe P c p r Q) (hA : Answers p A) :
    Safe P c p r fun a r' => Q a r' ∧ A a := by
  induction p generalizing r with
  | done a => exact ⟨h, hA⟩
  | act event run next ih =>
      intro F s hist i b s' hinv hrun hguard
      rcases h F s hist i b s' hinv hrun hguard with ⟨r', hinv', hnext⟩
      exact ⟨r', hinv', ih b hnext (hA i s b s' hrun)⟩
  | par left right next ihl ihr ih =>
      rcases h with ⟨r₁, r₂, Q₁, Q₂, hr, hl, hrt, hnext⟩
      rcases hA with ⟨A₁, A₂, hA₁, hA₂, hAnext⟩
      exact ⟨r₁, r₂, _, _, hr, ihl hl hA₁, ihr hrt hA₂, fun b d s₁ s₂ h₁ h₂ =>
        ih (b, d) (hnext b d s₁ s₂ h₁.1 h₂.1) (hAnext b d h₁.2 h₂.2)⟩

/-- Knowing more never hurts. -/
theorem safe_of_gives {p : Prog σ ω ε α} {Q : α → Knowledge C → Prop} (hle : L.Gives K)
    (h : Safe C.protocol c p K Q) :
    Safe C.protocol c p L fun a L' => ∃ K', L'.Gives K' ∧ Q a K' := by
  induction p generalizing K L with
  | done a => exact ⟨K, hle, h⟩
  | act event run next _ =>
      intro F s hist i b s' hinv hrun hguard
      have hinv' : C.protocol.Inv (K + F) s hist :=
        ⟨hinv.1, hle s hist hinv.2.1, hinv.2.2⟩
      rcases h F s hist i b s' hinv' hrun hguard with ⟨K', hK', hnext⟩
      exact ⟨K', hK', safe_mono hnext fun a L' hQ => ⟨L', gives_refl L', hQ⟩⟩
  | par left right next ihl ihr ih =>
      rcases h with ⟨K₁, K₂, Q₁, Q₂, rfl, hl, hr, hnext⟩
      -- What is known can be known twice, so both branches start from all of it.
      refine ⟨L, L, _, _, (add_self L).symm, ihl (fun s hist hL => (hle s hist hL).1) hl,
        ihr (fun s hist hL => (hle s hist hL).2) hr, ?_⟩
      rintro b d L₁ L₂ ⟨M₁, hL₁, hQ₁⟩ ⟨M₂, hL₂, hQ₂⟩
      have hsum : (L₁ + L₂).Gives (M₁ + M₂) := fun s hist hboth =>
        ⟨hL₁ s hist hboth.1, hL₂ s hist hboth.2⟩
      exact ih (b, d) hsum (hnext b d M₁ M₂ hQ₁ hQ₂)

/-- A program may know more before and less after. -/
theorem knows_of_gives {p : Prog σ ω ε α} {Q R : α → Knowledge C} (hle : L.Gives K)
    (hQ : ∀ a, (Q a).Gives (R a)) (h : Knows c K p Q) : Knows c L p R := by
  refine safe_mono (safe_of_gives hle h) ?_
  rintro a L' ⟨K', hL', hK'⟩ s hist hholds
  exact hQ a s hist (hK' s hist (hL' s hist hholds))

theorem knows_pure {a : α} {Q : α → Knowledge C} (h : K.Gives (Q a)) :
    Knows (ω := ω) c K (pure a) Q := h

/-- The tail starts with what the head has learnt. -/
theorem knows_bind {p : Prog σ ω ε α} {f : α → Prog σ ω ε β} {Q : α → Knowledge C}
    {R : β → Knowledge C} (hp : Knows c K p Q) (hf : ∀ a, Knows c (Q a) (f a) R) :
    Knows c K (p >>= f) R :=
  safe_seq hp fun a _ hgives => knows_of_gives hgives (fun _ => gives_refl _) (hf a)

/-- Nothing runs where something false is known. -/
theorem knows_absurd {p : Prog σ ω ε α} {Q : α → Knowledge C}
    (h : ∀ s hist, ¬ K.holds s hist) : Knows c K p Q := by
  induction p generalizing K with
  | done a => exact fun s hist hK => absurd hK (h s hist)
  | act event run next _ =>
      intro F s hist i b s' hinv _ _
      exact absurd hinv.2.1 (h s hist)
  | par left right next ihl ihr ih =>
      -- Both branches start from what cannot be, and so does what follows them.
      refine ⟨K, K, _, _, (add_self K).symm, ihl (Q := fun _ => K) h, ihr (Q := fun _ => K) h, ?_⟩
      intro b d L₁ L₂ h₁ _
      exact ih (b, d) fun s hist hboth => h s hist (h₁ s hist hboth.1)

/-- A fact that is known may be assumed. -/
theorem knows_fact {p : Prop} {q : Prog σ ω ε α} {Q : α → Knowledge C}
    (h : p → Knows c K q Q) : Knows c (K + fact p) q Q := by
  by_cases hp : p
  · exact knows_of_gives (add_gives_left K (fact p)) (fun _ => gives_refl _) (h hp)
  · exact knows_absurd fun s hist hboth => hp hboth.2

/-- What was known before is still known. -/
theorem knows_frame (L : Knowledge C) {p : Prog σ ω ε α} {Q : α → Knowledge C}
    (h : Knows c K p Q) : Knows c (K + L) p fun a => Q a + L := by
  refine safe_mono (safe_frame L h) ?_
  rintro a _ ⟨K', rfl, hgives⟩ s hist ⟨hK, hL⟩
  exact ⟨hgives s hist hK, hL⟩

/-- What was known at the start is still known at the end. -/
theorem knows_keep {p : Prog σ ω ε α} {Q : α → Knowledge C} (h : Knows c K p Q) :
    Knows c K p fun a => Q a + K := by
  have hframe := knows_frame K h
  rwa [add_self] at hframe

/-- Two programs side by side know what both know. -/
theorem knows_both {p : Prog σ ω ε α} {q : Prog σ ω ε β} {Q : α → Knowledge C}
    {R : β → Knowledge C} (hp : Knows c K p Q) (hq : Knows c K q R) :
    Knows c K (Prog.both p q) fun x => Q x.1 + R x.2 := by
  have hboth := safe_both hp hq
  rw [add_self] at hboth
  refine safe_mono hboth ?_
  rintro x _ ⟨K₁, K₂, rfl, h₁, h₂⟩ s hist ⟨hK₁, hK₂⟩
  exact ⟨h₁ s hist hK₁, h₂ s hist hK₂⟩

/-- What is learnt for every item is known together. -/
theorem knows_all {xs : List γ} {f : γ → Prog σ ω ε β} {Q : γ → Knowledge C}
    (h : ∀ x ∈ xs, Knows c K (f x) fun _ => Q x) :
    Knows c K (Prog.all (xs.map f)) fun _ => (xs.map Q).sum := by
  induction xs with
  | nil => exact gives_zero K
  | cons x xs ih =>
      refine ⟨K, K, _, _, (add_self K).symm, h x List.mem_cons_self,
        ih fun y hy => h y (List.mem_cons_of_mem x hy), ?_⟩
      intro b bs L₁ L₂ h₁ h₂ s hist hboth
      rw [List.map_cons, List.sum_cons]
      exact ⟨h₁ s hist hboth.1, h₂ s hist hboth.2⟩

theorem sum_gives {xs : List γ} {Q : γ → Knowledge C} {x : γ} (hx : x ∈ xs) :
    (xs.map Q).sum.Gives (Q x) := by
  induction xs with
  | nil => exact absurd hx List.not_mem_nil
  | cons y xs ih =>
      rw [List.map_cons, List.sum_cons]
      rcases List.mem_cons.mp hx with rfl | hx
      · exact add_gives_left _ _
      · exact fun s hist hboth => ih hx s hist hboth.2

/-- Programs that follow the course and learn nothing. -/
theorem closed_knows (C : Course σ ε ρ) (c : ρ) :
    Closed fun _ (p : Prog σ ω ε _) => Knows c (0 : Knowledge C) p fun _ => 0 where
  pure _ := knows_pure (gives_refl _)
  bind hp hf := knows_bind hp hf
  both hp hq := knows_of_gives (gives_refl _) (fun _ => gives_zero _) (knows_both hp hq)
  all h := knows_of_gives (gives_refl _) (fun _ => gives_zero _) (knows_all h)

/-- What a program may answer is known of its answer. -/
theorem knows_answers {p : Prog σ ω ε α} {Q : α → Knowledge C} {A : α → Prop}
    (h : Knows c K p Q) (hA : Answers p A) : Knows c K p fun a => Q a + fact (A a) :=
  safe_mono (safe_answers h hA) fun _ _ ⟨hgives, ha⟩ s hist hK => ⟨hgives s hist hK, ha⟩

/-- An action has to keep the invariant, to lead where steps may lead, and to
    make true what is known afterwards. -/
theorem knows_act {event : β → Option ε} {run : ω → σ → Option (β × σ)} {Q : β → Knowledge C}
    (h : ∀ i s hist b s', C.Inv s hist → K.holds s hist → run i s = some (b, s') →
      (∀ x, event b = some x → C.guard s hist x) →
      C.Inv s' (logEvent c (event b) hist) ∧ C.Leads s hist s' (logEvent c (event b) hist) ∧
        (Q b).holds s' (logEvent c (event b) hist)) :
    Knows c K (.act event run .done) Q := by
  intro F s hist i b s' hinv hrun hguard
  rcases h i s hist b s' hinv.1 hinv.2.1 hrun hguard with ⟨hinv', hlead, hQ⟩
  exact ⟨Q b, ⟨hinv', hQ, F.stable s hist s' _ hlead hinv.2.2⟩, gives_refl _⟩

theorem knows_atomic {f : σ → β × σ} {Q : β → Knowledge C}
    (h : ∀ s hist, C.Inv s hist → K.holds s hist →
      C.Inv (f s).2 hist ∧ C.Leads s hist (f s).2 hist ∧ (Q (f s).1).holds (f s).2 hist) :
    Knows (ω := ω) c K (Prog.atomic f) Q := by
  refine knows_act fun i s hist b s' hinv hK hrun _ => ?_
  have hb : f s = (b, s') := Option.some.inj hrun
  have hf := h s hist hinv hK
  rw [hb] at hf
  exact hf

theorem knows_write {f : σ → σ} {Q : Unit → Knowledge C}
    (h : ∀ s hist, C.Inv s hist → K.holds s hist →
      C.Inv (f s) hist ∧ C.Leads s hist (f s) hist ∧ (Q ()).holds (f s) hist) :
    Knows (ω := ω) c K (Prog.write f) Q :=
  knows_atomic h

/-- The rule for a step that is recorded, where the guard is at hand. -/
theorem knows_logged {event : β → ε} {f : σ → β × σ} {Q : β → Knowledge C}
    (h : ∀ s hist, C.Inv s hist → K.holds s hist → C.guard s hist (event (f s).1) →
      C.Inv (f s).2 ((c, event (f s).1) :: hist) ∧
        C.Leads s hist (f s).2 ((c, event (f s).1) :: hist) ∧
        (Q (f s).1).holds (f s).2 ((c, event (f s).1) :: hist)) :
    Knows (ω := ω) c K (Prog.logged event f) Q := by
  refine knows_act fun i s hist b s' hinv hK hrun hguard => ?_
  have hb : f s = (b, s') := Option.some.inj hrun
  have hf := h s hist hinv hK
  rw [hb] at hf
  exact hf (hguard _ rfl)

theorem knows_ask {f : ω → σ → Option (β × σ)} {Q : β → Knowledge C}
    (h : ∀ i s hist b s', C.Inv s hist → K.holds s hist → f i s = some (b, s') →
      C.Inv s' hist ∧ C.Leads s hist s' hist ∧ (Q b).holds s' hist) :
    Knows c K (Prog.ask f) Q :=
  knows_act fun i s hist b s' hinv hK hrun _ => h i s hist b s' hinv hK hrun

/-- A program within changes and events that keep the invariant and lead where
    steps may lead. -/
theorem knows_within {p : Prog σ ω ε α} {G : σ → σ → Prop} {E : ε → Prop} (h : Within G E p)
    (hG : ∀ s s' hist, G s s' → C.Inv s hist → C.Inv s' hist ∧ C.Leads s hist s' hist)
    (hE : ∀ s hist x, E x → C.Inv s hist →
      C.Inv s ((c, x) :: hist) ∧ C.Leads s hist s ((c, x) :: hist)) (K : Knowledge C) :
    Knows c K p fun _ => K := by
  refine safe_mono (safe_within h ?_ ?_ K) (fun a K' heq => heq ▸ gives_refl K')
  · intro L s s' hist hs hinv
    rcases hG s s' hist hs hinv.1 with ⟨hinv', hlead⟩
    exact ⟨hinv', L.stable _ _ _ _ hlead hinv.2⟩
  · intro L s hist x hx hinv
    rcases hE s hist x hx hinv.1 with ⟨hinv', hlead⟩
    exact ⟨hinv', L.stable _ _ _ _ hlead hinv.2⟩

end Rules

section Pools

variable {S : System σ ω ε ρ τ Ret}

/-- Every pool of a run in which all programs follow the course. -/
theorem knowing_of_reachable (Q : (c : ρ) → Ret c → Knowledge C)
    (hbody : ∀ c, Knows c 0 (S.body c) (Q c))
    (henv : ∀ s h t s', S.env t s = some s' → C.Inv s h → C.Inv s' h ∧ C.Leads s h s' h)
    {init : σ} (hinit : C.Inv init []) {p : Pool σ ω ε ρ Ret}
    (h : Reachable S C.guard init p) :
    PoolOk C.protocol (fun c a K => K.Gives (Q c a)) p := by
  refine poolOk_of_reachable hbody ?_ ⟨hinit, trivial⟩ h
  intro K s hist t s' ht hinv
  rcases henv s hist t s' ht hinv.1 with ⟨hinv', hlead⟩
  exact ⟨hinv', K.stable _ _ _ _ hlead hinv.2⟩

/-- The invariant holds in every pool. -/
theorem inv_of_reachable (hbody : ∀ c, Knows c 0 (S.body c) fun _ => (0 : Knowledge C))
    (henv : ∀ s h t s', S.env t s = some s' → C.Inv s h → C.Inv s' h ∧ C.Leads s h s' h)
    {init : σ} (hinit : C.Inv init []) {p : Pool σ ω ε ρ Ret}
    (h : Reachable S C.guard init p) : C.Inv p.store p.trace := by
  rcases knowing_of_reachable (fun _ _ => 0) hbody henv hinit h with ⟨Ks, _, hinv⟩
  exact hinv.1

/-- What is true at one time of a run is true at every later one. -/
theorem holds_of_run {Q : (c : ρ) → Ret c → Knowledge C}
    (hbody : ∀ c, Knows c 0 (S.body c) (Q c))
    (henv : ∀ s h t s', S.env t s = some s' → C.Inv s h → C.Inv s' h ∧ C.Leads s h s' h)
    (K : Knowledge C) {p q : Pool σ ω ε ρ Ret}
    (hp : PoolOk C.protocol (fun c a K => K.Gives (Q c a)) p) (hK : K.holds p.store p.trace)
    (h : Relation.ReflTransGen (PoolStep S C.guard) p q) : K.holds q.store q.trace := by
  have hq : PoolOk (C.protocol.beside K) (fun c a K => K.Gives (Q c a)) q := by
    refine beside_of_run hbody ?_ ?_ h
    · intro L s hist t s' ht hinv
      rcases henv s hist t s' ht hinv.1 with ⟨hinv', hlead⟩
      exact ⟨hinv', L.stable _ _ _ _ hlead hinv.2⟩
    · rcases hp with ⟨Ks, hall, hinv⟩
      refine ⟨Ks, hall.imp fun L t hsafe => ?_, hinv.1, hinv.2, hK⟩
      exact safe_beside (P := C.protocol) K hsafe
  rcases hq with ⟨Ks, _, hinv⟩
  exact hinv.2.2

/-- What a finished thread has learnt is true. -/
theorem finished_knows {Q : (c : ρ) → Ret c → Knowledge C} {p : Pool σ ω ε ρ Ret}
    (hp : PoolOk C.protocol (fun c a K => K.Gives (Q c a)) p) {i : Nat} {c : ρ} {a : Ret c}
    (hi : p.threads[i]? = some ⟨c, .done a⟩) : (Q c a).holds p.store p.trace := by
  rcases finished_post hp hi with ⟨K, F, hgives, hinv⟩
  exact hgives _ _ hinv.2.1

end Pools

end Interleave
