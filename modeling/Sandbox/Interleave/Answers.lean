import Sandbox.Interleave.Program

/-!
# What a Program May Answer

Some facts about a program's answer hold whatever happens to the store in the
meantime: a token issued for a client names that client. `Answers` states
them by recursion on the program, so that they follow from the program's
text alone.

## Main definitions

* `Answers`: Every answer of a program is in a set.

## Theorems

* `answers_bind`, `answers_then`, `answers_both`, `answers_mono`,
  `answers_any`: One rule for each way of building programs.
* `exec_answers`: The answer of a run is in the set.
-/

namespace Interleave

variable {σ ω ε α β : Type}

/-- Every answer of a program is in `Q`, whatever its actions find. -/
def Answers : {α : Type} → Prog σ ω ε α → (α → Prop) → Prop
  | _, .done a, Q => Q a
  | _, .act _ run next, Q => ∀ i s b s', run i s = some (b, s') → Answers (next b) Q
  | _, .par left right next, Q => ∃ Q₁ Q₂, Answers left Q₁ ∧ Answers right Q₂ ∧
      ∀ b d, Q₁ b → Q₂ d → Answers (next (b, d)) Q

theorem answers_pure {a : α} {Q : α → Prop} (h : Q a) :
    Answers (pure a : Prog σ ω ε α) Q := h

theorem answers_mono {p : Prog σ ω ε α} {Q Q' : α → Prop} (h : Answers p Q)
    (hQ : ∀ a, Q a → Q' a) : Answers p Q' := by
  induction p with
  | done a => exact hQ a h
  | act event run next ih => exact fun i s b s' hrun => ih b (h i s b s' hrun) hQ
  | par left right next _ _ ih =>
      rcases h with ⟨Q₁, Q₂, hl, hr, hnext⟩
      exact ⟨Q₁, Q₂, hl, hr, fun b d hb hd => ih (b, d) (hnext b d hb hd) hQ⟩

/-- A sequence answers what its tail answers after its head. -/
theorem answers_bind {p : Prog σ ω ε α} {f : α → Prog σ ω ε β} {Q : α → Prop} {R : β → Prop}
    (h : Answers p Q) (hf : ∀ a, Q a → Answers (f a) R) : Answers (p >>= f) R := by
  induction p with
  | done a => exact hf a h
  | act event run next ih => exact fun i s b s' hrun => ih b (h i s b s' hrun) hf
  | par left right next _ _ ih =>
      rcases h with ⟨Q₁, Q₂, hl, hr, hnext⟩
      exact ⟨Q₁, Q₂, hl, hr, fun b d hb hd => ih (b, d) (hnext b d hb hd) hf⟩

theorem answers_any (p : Prog σ ω ε α) : Answers p fun _ => True := by
  induction p with
  | done a => trivial
  | act event run next ih => exact fun _ _ b _ _ => ih b
  | par left right next ihl ihr ih => exact ⟨_, _, ihl, ihr, fun b d _ _ => ih (b, d)⟩

/-- A sequence whose head may answer anything. -/
theorem answers_then {p : Prog σ ω ε α} {f : α → Prog σ ω ε β} {R : β → Prop}
    (hf : ∀ a, Answers (f a) R) : Answers (p >>= f) R :=
  answers_bind (answers_any p) fun a _ => hf a

theorem answers_both {p : Prog σ ω ε α} {q : Prog σ ω ε β} {Q : α → Prop} {R : β → Prop}
    (hp : Answers p Q) (hq : Answers q R) :
    Answers (Prog.both p q) fun x => Q x.1 ∧ R x.2 :=
  ⟨Q, R, hp, hq, fun _ _ hb hd => ⟨hb, hd⟩⟩

/-- What one step leaves answers the same. -/
theorem answers_step {s s' : σ} {p p' : Prog σ ω ε α} {e : Option ε} (hstep : Step s p e s' p') :
    ∀ {Q : α → Prop}, Answers p Q → Answers p' Q := by
  induction hstep with
  | act hrun => exact fun h => h _ _ _ _ hrun
  | left _ ih =>
      rintro Q ⟨Q₁, Q₂, hl, hr, hnext⟩
      exact ⟨Q₁, Q₂, ih hl, hr, hnext⟩
  | right _ ih =>
      rintro Q ⟨Q₁, Q₂, hl, hr, hnext⟩
      exact ⟨Q₁, Q₂, hl, ih hr, hnext⟩
  | join =>
      rintro Q ⟨Q₁, Q₂, hl, hr, hnext⟩
      exact hnext _ _ hl hr

/-- The answer of a run is among the answers of its program. -/
theorem exec_answers {s s' : σ} {p : Prog σ ω ε α} {es : List ε} {a : α} {Q : α → Prop}
    (h : Exec s p es a s') (hp : Answers p Q) : Q a := by
  induction h with
  | done => exact hp
  | step hstep _ ih => exact ih (answers_step hstep hp)

end Interleave
