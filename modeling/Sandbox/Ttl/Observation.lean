import Sandbox.Ttl.Map

/-!
# What Can Be Observed of a Store

A store that forgets its entries may do so in many ways: it may drop an entry
when somebody looks at it, sweep all the dead ones now and then, or keep them
forever. It may also keep them in another form than the values they stand
for. `Shows` says that none of this matters. A store is known by what its
reader finds at each key and second, and it shows a map of `Ttl.Map` from a
second on if its reader finds there the encoding of what is alive in the map.

The relation only looks forward. What a store forgets is dead by then, so the
relation lasts as time goes on, and a store that is only read or swept shows
the map it showed before.

The second half is about runs. Two machines that answer operations at times
that never decrease give answers that agree, if the relation between their
states says so for one operation and is kept by it.

## Main definitions

* `Shows`: A reader finds the encoding of a map, from a second on.
* `replies`: The answers of a machine to a list of timed operations.

## Theorems

* `Shows.put`, `Shows.delete`: Writing an entry and removing one on both
  sides.
* `live_put`, `live_delete`: What is alive after an operation.
* `replies_agree`: Agreement of one step is agreement of every run.
-/

namespace Ttl

variable {κ α γ : Type}

section Reading

variable [DecidableEq κ]

theorem live_put (m : Map κ α) (now : Int) (j k : κ) (e : Entry α) :
    live (put m k e) now j =
      if j = k then (if e.expiresAt ≤ now then none else some e) else live m now j := by
  unfold live
  by_cases h : j = k
  · subst h
    rw [put_self, if_pos rfl]
  · rw [put_of_ne m e h, if_neg h]

theorem live_delete (m : Map κ α) (now : Int) (j k : κ) :
    live (delete m k) now j = if j = k then none else live m now j := by
  unfold live
  by_cases h : j = k
  · subst h
    rw [delete_self, if_pos rfl]
  · rw [delete_of_ne m h, if_neg h]

end Reading

/-- What is dead stays dead. -/
theorem live_eq_none_of_le {m : Map κ α} {now now' : Int} {k : κ} (hle : now ≤ now')
    (h : live m now k = none) : live m now' k = none := by
  rw [Option.eq_none_iff_forall_ne_some] at h ⊢
  intro e he
  rcases live_eq_some.mp he with ⟨hm, hlt⟩
  exact h e (live_eq_some.mpr ⟨hm, Int.lt_of_le_of_lt hle hlt⟩)

/-- From a second on, a reader finds at every key the encoding of what is
    alive in the map. An encoding may be nothing: some entries cannot be told
    from no entry. -/
def Shows (enc : Entry α → Option γ) (now : Int) (read : Int → κ → Option γ)
    (m : Map κ α) : Prop :=
  ∀ now', now ≤ now' → ∀ k, read now' k = (live m now' k).bind enc

namespace Shows

variable {enc : Entry α → Option γ} {now : Int} {read read' : Int → κ → Option γ}
  {m : Map κ α}

theorem now_read (h : Shows enc now read m) (k : κ) :
    read now k = (live m now k).bind enc :=
  h now (Int.le_refl now) k

theorem mono (h : Shows enc now read m) {now' : Int} (hle : now ≤ now') :
    Shows enc now' read m :=
  fun later hlater k => h later (Int.le_trans hle hlater) k

/-- A change that no later reader notices. -/
theorem congr (h : Shows enc now read m)
    (hread : ∀ now', now ≤ now' → ∀ k, read' now' k = read now' k) :
    Shows enc now read' m :=
  fun later hlater k => (hread later hlater k).trans (h later hlater k)

variable [DecidableEq κ]

/-- Placing an entry on both sides. -/
theorem put (h : Shows enc now read m) (k : κ) (e : Entry α)
    (hread : ∀ now', now ≤ now' → ∀ j, read' now' j =
      if j = k then (if e.expiresAt ≤ now' then none else enc e) else read now' j) :
    Shows enc now read' (Ttl.put m k e) := by
  intro later hlater j
  rw [hread later hlater j, live_put]
  by_cases hj : j = k
  · rw [if_pos hj, if_pos hj]
    by_cases he : e.expiresAt ≤ later
    · rw [if_pos he, if_pos he, Option.bind_none]
    · rw [if_neg he, if_neg he, Option.bind_some]
  · rw [if_neg hj, if_neg hj, h later hlater j]

/-- Removing an entry on both sides. -/
theorem delete (h : Shows enc now read m) (k : κ)
    (hread : ∀ now', now ≤ now' → ∀ j, read' now' j = if j = k then none else read now' j) :
    Shows enc now read' (Ttl.delete m k) := by
  intro later hlater j
  rw [hread later hlater j, live_delete]
  by_cases hj : j = k
  · rw [if_pos hj, if_pos hj, Option.bind_none]
  · rw [if_neg hj, if_neg hj, h later hlater j]

end Shows

section Runs

variable {σ τ ι ρ : Type}

/-- The answers of a machine to operations, each performed at its second. -/
def replies (step : σ → Int → ι → ρ × σ) : σ → List (Int × ι) → List ρ
  | _, [] => []
  | s, (now, op) :: rest => (step s now op).1 :: replies step (step s now op).2 rest

/-- Two machines whose states are related give answers that agree to every
    list of operations at times that do not decrease. -/
theorem replies_agree {step : σ → Int → ι → ρ × σ} {step' : τ → Int → ι → ρ × τ}
    (Valid : ι → Prop) (Agree : ρ → ρ → Prop) (R : Int → σ → τ → Prop)
    (hmono : ∀ {now now' s t}, now ≤ now' → R now s t → R now' s t)
    (hstep : ∀ {now op s t}, Valid op → R now s t →
      Agree (step s now op).1 (step' t now op).1 ∧ R now (step s now op).2 (step' t now op).2)
    {ops : List (Int × ι)} (htimes : ops.Pairwise fun a b => a.1 ≤ b.1)
    (hvalid : ∀ o ∈ ops, Valid o.2) {now : Int} (hnow : ∀ o ∈ ops, now ≤ o.1)
    {s : σ} {t : τ} (hR : R now s t) :
    List.Forall₂ Agree (replies step s ops) (replies step' t ops) := by
  induction ops generalizing now s t with
  | nil => exact .nil
  | cons o rest ih =>
      rcases List.pairwise_cons.mp htimes with ⟨hlater, hrest⟩
      have hnow' : now ≤ o.1 := hnow o List.mem_cons_self
      -- The relation at the second of the operation, then the operation itself.
      rcases hstep (hvalid o List.mem_cons_self) (hmono hnow' hR) with ⟨hagree, hR'⟩
      exact .cons hagree
        (ih hrest (fun o' ho' => hvalid o' (List.mem_cons_of_mem _ ho')) hlater hR')

end Runs

end Ttl
