import Mathlib.Algebra.Order.Group.Multiset
import Sandbox.Interleave.Resource

/-!
# Tokens

The resources used throughout are multisets of tokens. A token is exclusive
when the invariant admits only one of it, and then whoever holds it knows that
nobody else does. A token that is never taken back, and of which there may be
any number, records a fact.

A token that stands for a thing is either held by one thread or placed, which
is to say that the store or the history contains the thing. `Exclusive` is
that bookkeeping, and `Exclusive.move` is all that can happen to it: a thread
gives up what it held for what it takes.

## Main definitions

* `Exclusive`: Every token is held once or placed, and not both.

## Theorems

* `Exclusive.move`, `Exclusive.place`, `Exclusive.take`: Exchanges of held and
  placed tokens.
* `notMem_of_count_le_one`: The holder of an exclusive token is the only one.
* `mem_held`, `AllPost.mem`: A held token is among all tokens.
-/

namespace Interleave

variable {T : Type}

/-- A token that a thread holds is among all tokens. -/
theorem mem_held (t : T) (r F : Multiset T) (h : t ∈ r) : t ∈ r + F :=
  Multiset.mem_add.mpr (.inl h)

/-- A token held by somebody else is among all tokens. -/
theorem mem_frame {t : T} (r : Multiset T) {F : Multiset T} (h : t ∈ F) : t ∈ r + F :=
  Multiset.mem_add.mpr (.inr h)

/-- Nobody else holds an exclusive token. -/
theorem notMem_of_count_le_one [DecidableEq T] {t : T} {F : Multiset T}
    (h : ({t} + F).count t ≤ 1) : t ∉ F := by
  intro hmem
  rw [Multiset.count_add, Multiset.count_singleton_self] at h
  have hpos := Multiset.count_pos.mpr hmem
  omega

/-- A token that each program of a list holds in the end is among all. -/
theorem AllPost.mem {γ β : Type} {t : γ → T} {xs : List γ} {bs : List β} {r : Multiset T}
    (h : AllPost (fun x _ s => s = {t x}) xs bs r) : ∀ x ∈ xs, t x ∈ r := by
  induction h with
  | nil => exact fun x hx => absurd hx List.not_mem_nil
  | cons hx _ ih =>
      intro y hy
      rcases List.mem_cons.mp hy with rfl | hy
      · exact mem_held _ _ _ (hx ▸ Multiset.mem_singleton_self _)
      · exact mem_frame _ (ih y hy)

/-- Copies of one token contain nothing else. -/
theorem eq_of_mem_copies {γ : Type} {xs : List γ} {t u : T}
    (h : u ∈ (xs.map fun _ => ({t} : Multiset T)).sum) : u = t := by
  rw [List.map_const', List.sum_replicate, Multiset.nsmul_singleton] at h
  exact Multiset.eq_of_mem_replicate h

section Exclusive

variable [DecidableEq T]

/-- Every token is held at most once, and none that is held is placed. -/
structure Exclusive (placed : T → Prop) (R : Multiset T) : Prop where
  once : ∀ t, R.count t ≤ 1
  apart : ∀ t ∈ R, ¬ placed t

variable {placed placed' : T → Prop} {r q F R R' : Multiset T}

theorem exclusive_zero : Exclusive placed (0 : Multiset T) :=
  ⟨fun t => by rw [Multiset.count_zero]; exact Nat.zero_le 1,
    fun t ht => absurd ht (Multiset.notMem_zero t)⟩

/-- What a thread holds nobody else does. -/
theorem Exclusive.notMem (h : Exclusive placed (r + F)) {t : T} (ht : t ∈ r) : t ∉ F := by
  intro hF
  have hle := h.once t
  rw [Multiset.count_add] at hle
  have hr := Multiset.count_pos.mpr ht
  have hF' := Multiset.count_pos.mpr hF
  omega

/-- A thread gives up what it holds and takes tokens that were its own, were
    placed or were nowhere; what it gives up may be placed. -/
theorem Exclusive.move (h : Exclusive placed (r + F)) (honce : ∀ t, q.count t ≤ 1)
    (htake : ∀ t ∈ q, (t ∈ r ∨ placed t ∨ t ∉ F) ∧ ¬ placed' t)
    (hplace : ∀ t, placed' t → placed t ∨ t ∈ r) : Exclusive placed' (q + F) := by
  constructor
  · intro t
    rw [Multiset.count_add]
    -- A token that is taken was held, placed or free, so nobody else has it.
    by_cases ht : t ∈ q
    · have hF : t ∉ F := by
        rcases (htake t ht).1 with hr | hp | hF
        · exact h.notMem hr
        · exact fun hF => h.apart t (mem_frame _ hF) hp
        · exact hF
      rw [Multiset.count_eq_zero_of_notMem hF]
      exact honce t
    · rw [Multiset.count_eq_zero_of_notMem ht]
      have hle := h.once t
      rw [Multiset.count_add] at hle
      omega
  · intro t ht hplaced
    rcases Multiset.mem_add.mp ht with ht | hF
    · exact (htake t ht).2 hplaced
    · rcases hplace t hplaced with hp | hr
      · exact h.apart t (mem_frame _ hF) hp
      · exact h.notMem hr hF

/-- A thread gives up what it holds, and that may be placed. -/
theorem Exclusive.place (h : Exclusive placed (r + F))
    (hplace : ∀ t, placed' t → placed t ∨ t ∈ r) : Exclusive placed' F := by
  have hmove := h.move (q := 0) (fun t => (Multiset.count_zero t).le.trans (Nat.zero_le 1))
    (fun t ht => absurd ht (Multiset.notMem_zero t)) hplace
  rwa [zero_add] at hmove

/-- A thread takes tokens that were placed or nowhere. -/
theorem Exclusive.take (h : Exclusive placed F) (honce : ∀ t, q.count t ≤ 1)
    (htake : ∀ t ∈ q, (placed t ∨ t ∉ F) ∧ ¬ placed' t)
    (hplace : ∀ t, placed' t → placed t) : Exclusive placed' (q + F) := by
  rw [← zero_add F] at h
  exact h.move honce (fun t ht => (htake t ht).imp_left .inr) fun t ht => .inl (hplace t ht)

/-- Tokens may be lost. -/
theorem Exclusive.drop (h : Exclusive placed R) (hle : R' ≤ R)
    (hplace : ∀ t, placed' t → placed t) : Exclusive placed' R' :=
  ⟨fun t => (Multiset.count_le_of_le t hle).trans (h.once t),
    fun t ht hp => h.apart t (Multiset.mem_of_le hle ht) (hplace t hp)⟩

/-- Two threads do not hold the same token. -/
theorem Exclusive.not_both (h : Exclusive placed (r + q + F)) {t : T} (ht : t ∈ r)
    (ht' : t ∈ q) : False := by
  rw [add_assoc] at h
  exact h.notMem ht (mem_held _ _ _ ht')

end Exclusive

end Interleave
