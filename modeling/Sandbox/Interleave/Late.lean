import Sandbox.Interleave.Pool

/-!
# Calls That Come Too Late

A call that finds at its first step that it has nothing to do is answered
there. If the store is in such a state for good, then every call that has not
begun by then is either still at its start or was answered at its first step,
however many others are running.

## Main definitions

* `NotBegun`: The call at an index has taken no step, or is not there yet.
* `Dismissed`: A call is at its start, or was answered at once.

## Theorems

* `step_read_bind`: The first step of a program that starts with a look at
  the store.
* `dismissed_of_notBegun`: Calls that come too late are dismissed.
-/

namespace Interleave

variable {σ ω ε ρ τ : Type} {Ret : ρ → Type}

/-- A program that starts with a look at the store goes on with what it saw. -/
theorem step_read_bind {α β : Type} {f : σ → α} {g : α → Prog σ ω ε β} {s s' : σ}
    {e : Option ε} {p : Prog σ ω ε β} (h : Step s (Prog.read f >>= g) e s' p) :
    e = none ∧ s' = s ∧ p = g (f s) := by
  change Step s (.act (fun _ => none) (fun _ s => some (f s, s)) fun b => g b) e s' p at h
  cases h with
  | act hrun =>
      cases hrun
      exact ⟨rfl, rfl, rfl⟩

/-- A list with one entry replaced differs only there. -/
theorem getElem?_replaced {α : Type*} {xs ys : List α} {a b x : α} {i : Nat}
    (h : (xs ++ b :: ys)[i]? = some x) :
    i = xs.length ∧ x = b ∨ i ≠ xs.length ∧ (xs ++ a :: ys)[i]? = some x := by
  rcases Nat.lt_trichotomy i xs.length with hlt | heq | hgt
  · rw [List.getElem?_append_left hlt] at h
    exact .inr ⟨by omega, by rw [List.getElem?_append_left hlt, h]⟩
  · subst heq
    rw [List.getElem?_append_right (Nat.le_refl _), Nat.sub_self] at h
    exact .inl ⟨rfl, (Option.some.inj h).symm⟩
  · obtain ⟨n, hn⟩ : ∃ n, i - xs.length = n + 1 := ⟨i - xs.length - 1, by omega⟩
    rw [List.getElem?_append_right (by omega), hn] at h
    refine .inr ⟨by omega, ?_⟩
    rw [List.getElem?_append_right (by omega), hn]
    exact h

theorem getElem?_replaced_self {α : Type*} (xs ys : List α) (a : α) :
    (xs ++ a :: ys)[xs.length]? = some a := by
  rw [List.getElem?_append_right (Nat.le_refl _), Nat.sub_self]
  rfl

/-- An entry of a list with one more is an old one or the new one. -/
theorem getElem?_arrived {α : Type*} {xs : List α} {a x : α} {i : Nat}
    (h : (xs ++ [a])[i]? = some x) : xs[i]? = some x ∨ x = a := by
  rcases Nat.lt_or_ge i xs.length with hlt | hge
  · rw [List.getElem?_append_left hlt] at h
    exact .inl h
  · rw [List.getElem?_append_right hge] at h
    exact .inr (List.mem_singleton.mp (List.mem_of_getElem? h))

/-- The call at an index has taken no step, or is not there yet. -/
def NotBegun (S : System σ ω ε ρ τ Ret) (p : Pool σ ω ε ρ Ret) (i : Nat) : Prop :=
  ∀ t, p.threads[i]? = some t → t.prog = S.body t.call

/-- A call is at its start, or was answered at its first step. -/
def Dismissed (S : System σ ω ε ρ τ Ret) (Q : (c : ρ) → Ret c → Prop)
    (t : Thread σ ω ε ρ Ret) : Prop :=
  t.prog = S.body t.call ∨ ∃ a, t.prog = .done a ∧ Q t.call a

section Late

variable {S : System σ ω ε ρ τ Ret} {guard : Guard σ ε ρ} {p q : Pool σ ω ε ρ Ret}
  {Q : (c : ρ) → Ret c → Prop} {K : ρ → Prop} {G : σ → Prop} {i : Nat}

/-- If the store stays in a state in which the calls of a kind are answered at
    their first step, those that have not begun are dismissed. -/
theorem dismissed_of_notBegun
    (hstore : ∀ r, Relation.ReflTransGen (PoolStep S guard) p r → G r.store)
    (hfirst : ∀ c s e s' p', K c → G s → Step s (S.body c) e s' p' → ∃ a, p' = .done a ∧ Q c a)
    (hi : NotBegun S p i) (h : Relation.ReflTransGen (PoolStep S guard) p q) :
    ∀ t, q.threads[i]? = some t → K t.call → Dismissed S Q t := by
  induction h with
  | refl => exact fun t ht _ => .inl (hi t ht)
  | @tail r q hpr hstep ih =>
      have hG := hstore r hpr
      intro t ht hK
      cases hstep with
      | spawn c =>
          -- A call that arrives is at its start.
          rcases getElem?_arrived ht with hold | rfl
          · exact ih t hold hK
          · exact .inl rfl
      | env u henv => exact ih t ht hK
      | run hrun hguard =>
          rcases getElem?_replaced ht with ⟨rfl, rfl⟩ | ⟨hne, hold⟩
          · rcases ih _ (getElem?_replaced_self _ _ _) hK with hstart | ⟨a, hdone, _⟩
            · dsimp only at hstart
              subst hstart
              exact .inr (hfirst _ _ _ _ _ hK hG hrun)
            · dsimp only at hdone
              rw [hdone] at hrun
              cases hrun
          · exact ih t hold hK

end Late

end Interleave
