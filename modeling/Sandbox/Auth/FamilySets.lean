import Sandbox.Auth.State

/-!
# The Sets of Refresh Token Families

A family is revoked through the set of its keys, so a token that can be used
has to be in the set of its family. Between storing a token and adding its key
to the set it is not, and the history tells which tokens are in that
situation. For all others the set contains the key, and it does not end before
the record it leads to: records are written with the same time to live as the
sets, and adding to a set renews its time.

## Main definitions

* `UsableEntry`, `Usable`: A token that can be used.
* `Unindexed`: A token that was stored and not added to its set yet.
* `Indexed`: All other usable tokens are in their sets.

## Theorems

* `Indexed.shrink`, `Indexed.retire`, `Indexed.store`, `Indexed.index`: The
  steps that keep it so.
* `Indexed.mem_members`: What a reader of a set finds.
-/

namespace Sandbox.Auth

open Ttl

/-- The entry at a key is a token of the family that can be used. -/
structure UsableEntry (s : State) (f key : String) (e : Entry RefreshToken) : Prop where
  stored : s.refreshTokens key = some e
  live : s.now < e.expiresAt
  family : e.value.familyId = f
  active : e.value.status = .active

/-- A usable token was usable before, if no token was written and only time
    went by. -/
theorem UsableEntry.before {s s' : State} {f key : String} {e : Entry RefreshToken}
    (he : UsableEntry s' f key e) (htokens : s'.refreshTokens = s.refreshTokens)
    (hnow : s.now ≤ s'.now) : UsableEntry s f key e :=
  ⟨htokens ▸ he.stored, Int.lt_of_le_of_lt hnow he.live, he.family, he.active⟩

/-- A token of the family that can be used is stored under a key. -/
def Usable (s : State) (f key : String) : Prop :=
  ∃ e, UsableEntry s f key e

/-- Whether an event stores a token of the family under the key, or adds the
    key to the family's set. -/
def leavesUnindexed (f key : String) : Event → Option Bool
  | .tokenStored f' key' => if f' = f ∧ key' = key then some true else none
  | .tokenIndexed f' key' => if f' = f ∧ key' = key then some false else none
  | _ => none

section Histories

variable {ρ : Type} {f key : String} {h : List (ρ × Event)}

/-- A token of the family was stored under a key that was not added to the
    family's set since. -/
def unindexed (f key : String) : List (ρ × Event) → Bool
  | [] => false
  | x :: h => (leavesUnindexed f key x.2).getD (unindexed f key h)

def Unindexed (f key : String) (h : List (ρ × Event)) : Prop :=
  unindexed f key h = true

theorem not_unindexed_nil : ¬ Unindexed f key ([] : List (ρ × Event)) :=
  Bool.false_ne_true

theorem unindexed_stored {c : ρ} {f' key' : String} :
    Unindexed f key ((c, .tokenStored f' key') :: h) ↔
      f' = f ∧ key' = key ∨ Unindexed f key h := by
  unfold Unindexed
  rw [unindexed, leavesUnindexed]
  split
  · next heq => simp [heq]
  · next hne => simp [hne]

theorem unindexed_indexed {c : ρ} {f' key' : String} :
    Unindexed f key ((c, .tokenIndexed f' key') :: h) ↔
      ¬ (f' = f ∧ key' = key) ∧ Unindexed f key h := by
  unfold Unindexed
  rw [unindexed, leavesUnindexed]
  split
  · next heq => simp [heq]
  · next hne => simp [hne]

theorem unindexed_other {c : ρ} {e : Event} (hstored : ∀ f key, e ≠ .tokenStored f key)
    (hindexed : ∀ f key, e ≠ .tokenIndexed f key) :
    Unindexed f key ((c, e) :: h) ↔ Unindexed f key h := by
  cases e with
  | tokenStored f' key' => exact absurd rfl (hstored f' key')
  | tokenIndexed f' key' => exact absurd rfl (hindexed f' key')
  | _ => exact Iff.rfl

/-- A token that is not in its set was stored. -/
theorem stored_of_unindexed (hun : Unindexed f key h) :
    ∃ c, (c, Event.tokenStored f key) ∈ h := by
  induction h with
  | nil => cases hun
  | cons x h ih =>
      rcases x with ⟨c, e⟩
      cases e with
      | tokenStored f' key' =>
          rcases unindexed_stored.mp hun with ⟨rfl, rfl⟩ | hun
          · exact ⟨c, List.mem_cons_self⟩
          · exact (ih hun).imp fun _ hc => List.mem_cons_of_mem _ hc
      -- What is still not indexed after this was not indexed before it.
      | tokenIndexed f' key' =>
          exact (ih (unindexed_indexed.mp hun).2).imp fun _ hc => List.mem_cons_of_mem _ hc
      | _ => exact (ih hun).imp fun _ hc => List.mem_cons_of_mem _ hc

end Histories

/-- The key of a usable token is in the set of its family, unless it is just
    being added, and the set does not end before the token. -/
structure Indexed {ρ : Type} (s : State) (h : List (ρ × Event)) : Prop where
  bounded : ∀ key e, s.refreshTokens key = some e → e.expiresAt ≤ s.now + refreshTokenTtl
  indexed : ∀ f key e, UsableEntry s f key e → ¬ Unindexed f key h →
    ∃ keys, s.refreshTokenFamilies f = some keys ∧ key ∈ keys.value ∧
      e.expiresAt ≤ keys.expiresAt

section Steps

variable {ρ : Type} {s s' : State} {h h' : List (ρ × Event)} {c : ρ} {f key : String}

/-- What a reader of a set finds. -/
theorem Indexed.mem_members (hi : Indexed s h) (hun : ¬ Unindexed f key h)
    (husable : Usable s f key) : key ∈ members s.refreshTokenFamilies s.now f := by
  rcases husable with ⟨e, he⟩
  rcases hi.indexed f key e he hun with ⟨keys, hkeys, hmem, hle⟩
  exact Ttl.mem_members.mpr ⟨keys, hkeys, Int.lt_of_lt_of_le he.live hle, hmem⟩

/-- Nothing becomes usable. -/
theorem Indexed.shrink (hi : Indexed s h)
    (hbounded : ∀ key e, s'.refreshTokens key = some e → e.expiresAt ≤ s'.now + refreshTokenTtl)
    (husable : ∀ f key e, UsableEntry s' f key e → UsableEntry s f key e)
    (hsets : s'.refreshTokenFamilies = s.refreshTokenFamilies) : Indexed s' h := by
  refine ⟨hbounded, fun f key e he hun => ?_⟩
  rw [hsets]
  exact hi.indexed f key e (husable f key e he) hun

/-- Other tokens than before are being added. -/
theorem Indexed.relog {ρ' : Type} {h' : List (ρ' × Event)} (hi : Indexed s h)
    (hun : ∀ f key, Unindexed f key h → Unindexed f key h') : Indexed s h' :=
  ⟨hi.bounded, fun f key e he hno => hi.indexed f key e he fun h => hno (hun f key h)⟩

/-- Time passes. -/
theorem Indexed.tick (hi : Indexed s h) (seconds : Nat) :
    Indexed { s with now := s.now + seconds } h := by
  refine hi.shrink ?_ ?_ rfl
  · intro key e he
    have hle := hi.bounded key e he
    change e.expiresAt ≤ s.now + seconds + refreshTokenTtl
    omega
  · intro f key e he
    have hlive : s.now + seconds < e.expiresAt := he.live
    exact ⟨he.stored, by omega, he.family, he.active⟩

/-- A token is removed. -/
theorem Indexed.delete (hi : Indexed s h) :
    Indexed { s with refreshTokens := Ttl.delete s.refreshTokens key } h := by
  refine hi.shrink ?_ ?_ rfl
  · exact fun k e he => hi.bounded k e (delete_eq_some he).2
  · exact fun f k e he => ⟨(delete_eq_some he.stored).2, he.live, he.family, he.active⟩

theorem usableEntry_retire {token : RefreshToken} {ttl : Int} {k : String}
    {e : Entry RefreshToken} (hstatus : token.status ≠ .active)
    (he : UsableEntry { s with refreshTokens := Ttl.set s.refreshTokens s.now key token ttl }
      f k e) :
    k ≠ key ∧ UsableEntry s f k e := by
  rcases put_eq_some he.stored with ⟨_, rfl⟩ | ⟨hne, hold⟩
  · exact absurd he.active hstatus
  · exact ⟨hne, hold, he.live, he.family, he.active⟩

/-- A token that cannot be used is written. -/
theorem Indexed.retire {token : RefreshToken} (hi : Indexed s h)
    (hstatus : token.status ≠ .active) :
    Indexed { s with refreshTokens := Ttl.set s.refreshTokens s.now key token refreshTokenTtl }
      h := by
  refine hi.shrink ?_ (fun f k e he => (usableEntry_retire hstatus he).2) rfl
  intro k e he
  rcases put_eq_some he with ⟨_, rfl⟩ | ⟨_, he⟩
  · exact le_rfl
  · exact hi.bounded k e he

theorem usableEntry_store {token : RefreshToken} {ttl : Int} {k : String}
    {e : Entry RefreshToken}
    (he : UsableEntry { s with refreshTokens := Ttl.set s.refreshTokens s.now key token ttl }
      f k e) :
    UsableEntry s f k e ∨ f = token.familyId ∧ k = key ∧ e.value = token := by
  rcases put_eq_some he.stored with ⟨rfl, rfl⟩ | ⟨_, hold⟩
  · exact .inr ⟨he.family.symm, rfl, rfl⟩
  · exact .inl ⟨hold, he.live, he.family, he.active⟩

/-- A token is stored, and its key is not in the set yet. -/
theorem Indexed.store {token : RefreshToken} (hi : Indexed s h) (hfamily : token.familyId = f) :
    Indexed { s with refreshTokens := Ttl.set s.refreshTokens s.now key token refreshTokenTtl }
      ((c, .tokenStored f key) :: h) := by
  constructor
  · intro k e he
    rcases put_eq_some he with ⟨_, rfl⟩ | ⟨_, he⟩
    · exact le_rfl
    · exact hi.bounded k e he
  · intro f' k e he hun
    rcases usableEntry_store he with he | ⟨rfl, rfl, _⟩
    · exact hi.indexed f' k e he fun hun' => hun (unindexed_stored.mpr (.inr hun'))
    · exact absurd (unindexed_stored.mpr (.inl ⟨hfamily.symm, rfl⟩)) hun

/-- A key is added to the set of a family. -/
theorem Indexed.index (hi : Indexed s h) :
    Indexed
      { s with
        refreshTokenFamilies := Ttl.add s.refreshTokenFamilies s.now f key refreshTokenTtl }
      ((c, .tokenIndexed f key) :: h) := by
  refine ⟨hi.bounded, fun f' k e he hun => ?_⟩
  have he' : UsableEntry s f' k e := ⟨he.stored, he.live, he.family, he.active⟩
  by_cases hf : f' = f
  · subst hf
    rcases add_self s.refreshTokenFamilies s.now f' key refreshTokenTtl with ⟨xs, hput, hxs⟩
    refine ⟨_, hput, (hxs k).mpr ?_, hi.bounded k e he.stored⟩
    by_cases hk : k = key
    · exact .inl hk
    · -- An older member is usable, so the set that led to it is alive.
      have hun' : ¬ Unindexed f' k h := fun hun' =>
        hun (unindexed_indexed.mpr ⟨fun heq => hk heq.2.symm, hun'⟩)
      exact .inr (hi.mem_members hun' ⟨e, he'⟩)
  · have hun' : ¬ Unindexed f' k h := fun hun' =>
      hun (unindexed_indexed.mpr ⟨fun heq => hf heq.1.symm, hun'⟩)
    rcases hi.indexed f' k e he' hun' with ⟨keys, hkeys, hmem, hle⟩
    exact ⟨keys, (add_of_ne _ _ _ _ hf).trans hkeys, hmem, hle⟩

end Steps

end Sandbox.Auth
