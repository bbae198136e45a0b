import Mathlib.Data.List.Basic

/-!
# Maps Whose Entries Expire

A store that keeps every entry for a limited time is a map to entries with
the second they end at, read at a given second. An entry is alive strictly
before its end. What an implementation does with the dead ones, whether it
sweeps them or drops them when they are next looked at, cannot be observed,
so here they simply stay and every read passes them over.

A store of sets is such a map to lists without repetition. Adding to a set
renews the time of the whole set, and adding to a set that has ended starts
a new one: this is how a set loses its older members.

Times are integers, so a time to live may be zero or negative, and then the
entry is dead from the start.

## Main definitions

* `Entry`, `Map`: A value with its end, and a map to them.
* `live`, `get`: What a reader finds at a second.
* `set`, `update`, `delete`, `getAndDelete`, `setIfAbsent`: The operations.
* `Sets`, `members`, `add`, `remove`: The same for sets.
* `increment`: Counts in windows that start with the first one.

## Theorems

* `get_eq_some`: A reader finds the entries that have not ended.
* `get_mono`: What is found later was found before.
* `get_set`, `get_delete`: What is found after an operation.
* `sparing_set`, `sparing_update`, `sparing_delete`, `sparing_later`: When no
  key becomes readable.
* `exists_remove`, `remove_eq_some`: What is left of a set after a removal.
-/

namespace Ttl

/-- A value and the second at which it ends. -/
structure Entry (α : Type) where
  value : α
  expiresAt : Int
  deriving DecidableEq

/-- A map whose entries end. -/
abbrev Map (κ α : Type) : Type := κ → Option (Entry α)

variable {κ α : Type}

/-- The map without entries. -/
def empty : Map κ α := fun _ => none

/-- The entry at a key, unless it has ended. -/
def live (m : Map κ α) (now : Int) (k : κ) : Option (Entry α) :=
  match m k with
  | none => none
  | some e => if e.expiresAt ≤ now then none else some e

/-- The value at a key, unless it has ended. -/
def get (m : Map κ α) (now : Int) (k : κ) : Option α :=
  (live m now k).map (·.value)

section Operations

variable [DecidableEq κ]

/-- Place an entry. -/
def put (m : Map κ α) (k : κ) (e : Entry α) : Map κ α :=
  fun j => if j = k then some e else m j

/-- Write a value that lives for `ttl` seconds from now on. -/
def set (m : Map κ α) (now : Int) (k : κ) (v : α) (ttl : Int) : Map κ α :=
  put m k ⟨v, now + ttl⟩

/-- Replace a living value and keep its end. -/
def update (m : Map κ α) (now : Int) (k : κ) (v : α) : Bool × Map κ α :=
  match live m now k with
  | none => (false, m)
  | some e => (true, put m k ⟨v, e.expiresAt⟩)

def delete (m : Map κ α) (k : κ) : Map κ α :=
  fun j => if j = k then none else m j

/-- Read a value and remove it in one step. -/
def getAndDelete (m : Map κ α) (now : Int) (k : κ) : Option α × Map κ α :=
  (get m now k, delete m k)

/-- Write a value unless a living one is there. -/
def setIfAbsent (m : Map κ α) (now : Int) (k : κ) (v : α) (ttl : Int) : Bool × Map κ α :=
  match live m now k with
  | none => (true, set m now k v ttl)
  | some _ => (false, m)

end Operations

section Reading

/-- An entry is live before the time it expires at. -/
theorem live_eq_some {m : Map κ α} {now : Int} {k : κ} {e : Entry α} :
    live m now k = some e ↔ m k = some e ∧ now < e.expiresAt := by
  unfold live
  cases hm : m k with
  | none => simp
  | some e' =>
      by_cases h : e'.expiresAt ≤ now
      · simp only [if_pos h, reduceCtorEq, Option.some.injEq, false_iff, not_and]
        rintro rfl
        exact Int.not_lt.mpr h
      · simp only [if_neg h, Option.some.injEq]
        constructor
        · rintro rfl
          exact ⟨rfl, Int.not_le.mp h⟩
        · exact And.left

/-- A reader finds the values that have not ended. -/
theorem get_eq_some {m : Map κ α} {now : Int} {k : κ} {v : α} :
    get m now k = some v ↔ ∃ e, m k = some e ∧ now < e.expiresAt ∧ e.value = v := by
  unfold get
  rw [Option.map_eq_some_iff]
  constructor
  · rintro ⟨e, he, hv⟩
    rcases live_eq_some.mp he with ⟨hm, hlt⟩
    exact ⟨e, hm, hlt, hv⟩
  · rintro ⟨e, hm, hlt, hv⟩
    exact ⟨e, live_eq_some.mpr ⟨hm, hlt⟩, hv⟩

/-- Nothing is found exactly where every entry has expired. -/
theorem get_eq_none {m : Map κ α} {now : Int} {k : κ} :
    get m now k = none ↔ ∀ e, m k = some e → e.expiresAt ≤ now := by
  rw [Option.eq_none_iff_forall_ne_some]
  constructor
  · intro h e he
    by_contra hlt
    exact h e.value (get_eq_some.mpr ⟨e, he, Int.not_le.mp hlt, rfl⟩)
  · intro h v hv
    rcases get_eq_some.mp hv with ⟨e, he, hlt, _⟩
    exact absurd (h e he) (Int.not_le.mpr hlt)

/-- What is found later was found before. -/
theorem get_mono {m : Map κ α} {now now' : Int} {k : κ} {v : α} (h : now ≤ now')
    (hv : get m now' k = some v) : get m now k = some v := by
  rcases get_eq_some.mp hv with ⟨e, he, hlt, hval⟩
  exact get_eq_some.mpr ⟨e, he, Int.lt_of_le_of_lt h hlt, hval⟩

@[simp] theorem get_empty (now : Int) (k : κ) : get (empty : Map κ α) now k = none := rfl

end Reading

section Writing

variable [DecidableEq κ]

@[simp] theorem put_self (m : Map κ α) (k : κ) (e : Entry α) : put m k e k = some e :=
  if_pos rfl

theorem put_of_ne (m : Map κ α) {j k : κ} (e : Entry α) (h : j ≠ k) : put m k e j = m j :=
  if_neg h

@[simp] theorem delete_self (m : Map κ α) (k : κ) : delete m k k = none :=
  if_pos rfl

theorem delete_of_ne (m : Map κ α) {j k : κ} (h : j ≠ k) : delete m k j = m j :=
  if_neg h

theorem delete_delete (m : Map κ α) (k : κ) : delete (delete m k) k = delete m k := by
  funext j
  by_cases hjk : j = k
  · rw [hjk, delete_self, delete_self]
  · rw [delete_of_ne _ hjk]

/-- An entry found after placing one is that entry or an older one. -/
theorem put_eq_some {m : Map κ α} {j k : κ} {e d : Entry α} (h : put m k e j = some d) :
    j = k ∧ d = e ∨ j ≠ k ∧ m j = some d := by
  by_cases hjk : j = k
  · subst hjk
    exact .inl ⟨rfl, (Option.some.inj ((put_self m j e).symm.trans h)).symm⟩
  · exact .inr ⟨hjk, (put_of_ne m e hjk).symm.trans h⟩

/-- An entry left by a deletion was there before and is at another key. -/
theorem delete_eq_some {m : Map κ α} {j k : κ} {d : Entry α} (h : delete m k j = some d) :
    j ≠ k ∧ m j = some d := by
  by_cases hjk : j = k
  · subst hjk
    exact absurd ((delete_self m j).symm.trans h) nofun
  · exact ⟨hjk, (delete_of_ne m hjk).symm.trans h⟩

theorem get_put (m : Map κ α) (now : Int) (j k : κ) (e : Entry α) :
    get (put m k e) now j =
      if j = k then (if e.expiresAt ≤ now then none else some e.value) else get m now j := by
  by_cases h : j = k
  · subst h
    rw [if_pos rfl]
    unfold get live
    rw [put_self]
    by_cases hle : e.expiresAt ≤ now
    · simp only [if_pos hle, Option.map_none]
    · simp only [if_neg hle, Option.map_some]
  · rw [if_neg h]
    unfold get live
    rw [put_of_ne m e h]

/-- What is found after a value is set, at any time. -/
theorem get_set (m : Map κ α) (now now' : Int) (j k : κ) (v : α) (ttl : Int) :
    get (set m now k v ttl) now' j =
      if j = k then (if now + ttl ≤ now' then none else some v) else get m now' j :=
  get_put m now' j k ⟨v, now + ttl⟩

/-- A value written with a positive time to live is found at once. -/
theorem get_set_self (m : Map κ α) (now : Int) (k : κ) (v : α) {ttl : Int} (h : 0 < ttl) :
    get (set m now k v ttl) now k = some v := by
  rw [get_set, if_pos rfl, if_neg (by omega)]

theorem get_set_of_ne (m : Map κ α) (now now' : Int) {j k : κ} (v : α) (ttl : Int)
    (h : j ≠ k) : get (set m now k v ttl) now' j = get m now' j := by
  rw [get_set, if_neg h]

/-- What is found after a write is what was written or was found before. -/
theorem get_set_eq_some {m : Map κ α} {now now' : Int} {j k : κ} {v w : α} {ttl : Int}
    (h : get (set m now k v ttl) now' j = some w) :
    j = k ∧ w = v ∨ j ≠ k ∧ get m now' j = some w := by
  rw [get_set] at h
  by_cases hjk : j = k
  · rw [if_pos hjk] at h
    split at h
    · cases h
    · exact .inl ⟨hjk, (Option.some.inj h).symm⟩
  · rw [if_neg hjk] at h
    exact .inr ⟨hjk, h⟩

theorem get_delete (m : Map κ α) (now : Int) (j k : κ) :
    get (delete m k) now j = if j = k then none else get m now j := by
  by_cases h : j = k
  · subst h
    rw [if_pos rfl, get_eq_none]
    intro e he
    exact absurd ((delete_self m j).symm.trans he) nofun
  · rw [if_neg h]
    unfold get live
    rw [delete_of_ne m h]

@[simp] theorem get_delete_self (m : Map κ α) (now : Int) (k : κ) :
    get (delete m k) now k = none := by
  rw [get_delete, if_pos rfl]

theorem get_delete_of_ne (m : Map κ α) (now : Int) {j k : κ} (h : j ≠ k) :
    get (delete m k) now j = get m now j := by
  rw [get_delete, if_neg h]

/-- What is found after a deletion lies elsewhere and was found before. -/
theorem get_delete_eq_some {m : Map κ α} {now : Int} {j k : κ} {v : α}
    (h : get (delete m k) now j = some v) : j ≠ k ∧ get m now j = some v := by
  rw [get_delete] at h
  by_cases hjk : j = k
  · rw [if_pos hjk] at h
    cases h
  · rw [if_neg hjk] at h
    exact ⟨hjk, h⟩

end Writing

section Sparing

variable {m : Map κ α} {now : Int} {k : κ}

/-- No key becomes readable. -/
def Sparing (m : Map κ α) (now : Int) (m' : Map κ α) (now' : Int) : Prop :=
  ∀ j, get m now j = none → get m' now' j = none

theorem sparing_later (m : Map κ α) {now now' : Int} (h : now ≤ now') : Sparing m now m now' := by
  intro j hnone
  by_contra hsome
  rcases Option.ne_none_iff_exists'.mp hsome with ⟨v, hv⟩
  rw [get_mono h hv] at hnone
  cases hnone

variable [DecidableEq κ]

theorem sparing_delete (m : Map κ α) (now : Int) (k : κ) : Sparing m now (delete m k) now := by
  intro j hnone
  rw [get_delete]
  split
  · rfl
  · exact hnone

/-- What can be read may be overwritten. -/
theorem sparing_set (v : α) (ttl : Int) (h : (get m now k).isSome = true) :
    Sparing m now (set m now k v ttl) now := by
  intro j hnone
  have hne : j ≠ k := by
    rintro rfl
    rw [hnone] at h
    cases h
  rw [get_set_of_ne _ _ _ _ _ hne]
  exact hnone

theorem sparing_update (m : Map κ α) (now : Int) (k : κ) (v : α) :
    Sparing m now (update m now k v).2 now := by
  intro j hnone
  unfold update
  cases hlive : live m now k with
  | none => exact hnone
  | some e =>
      have hne : j ≠ k := by
        rintro rfl
        rw [get, hlive] at hnone
        cases hnone
      rw [get_put, if_neg hne]
      exact hnone

end Sparing

/-- A map to sets that end. A set is a list without repetition. -/
abbrev Sets (κ α : Type) : Type := Map κ (List α)

/-- The members of the set at a key. A set that has ended has none. -/
def members (m : Sets κ α) (now : Int) (k : κ) : List α :=
  (get m now k).getD []

/-- The members of a set are those of its entry, while it is live. -/
theorem mem_members {m : Sets κ α} {now : Int} {k : κ} {x : α} :
    x ∈ members m now k ↔ ∃ e, m k = some e ∧ now < e.expiresAt ∧ x ∈ e.value := by
  unfold members
  constructor
  · intro h
    cases hg : get m now k with
    | none =>
        rw [hg] at h
        cases h
    | some xs =>
        rw [hg] at h
        rcases get_eq_some.mp hg with ⟨e, he, hlt, rfl⟩
        exact ⟨e, he, hlt, h⟩
  · rintro ⟨e, he, hlt, hx⟩
    rw [get_eq_some.mpr ⟨e, he, hlt, rfl⟩]
    exact hx

section SetOperations

variable [DecidableEq κ] [DecidableEq α]

/-- Add a member and renew the time of the set. -/
def add (m : Sets κ α) (now : Int) (k : κ) (x : α) (ttl : Int) : Sets κ α :=
  let old := members m now k
  set m now k (if x ∈ old then old else old ++ [x]) ttl

/-- Remove a member and keep the set's end. -/
def remove (m : Sets κ α) (now : Int) (k : κ) (x : α) : Sets κ α :=
  match live m now k with
  | none => m
  | some e => put m k ⟨e.value.filter (· ≠ x), e.expiresAt⟩

/-- An addition leaves one entry at the key, with the renewed time, the new
    member and the members that were alive. -/
theorem add_self (m : Sets κ α) (now : Int) (k : κ) (x : α) (ttl : Int) :
    ∃ xs, add m now k x ttl k = some ⟨xs, now + ttl⟩ ∧
      ∀ y, y ∈ xs ↔ y = x ∨ y ∈ members m now k := by
  refine ⟨_, put_self m k _, fun y => ?_⟩
  by_cases hx : x ∈ members m now k
  · rw [if_pos hx]
    constructor
    · exact .inr
    · rintro (rfl | hy)
      · exact hx
      · exact hy
  · rw [if_neg hx, List.mem_append, List.mem_singleton, or_comm]

theorem add_of_ne (m : Sets κ α) (now : Int) {j k : κ} (x : α) (ttl : Int) (h : j ≠ k) :
    add m now k x ttl j = m j :=
  put_of_ne m _ h

/-- After a removal a set has its end and all members but one. -/
theorem exists_remove {m : Sets κ α} {now : Int} {j k : κ} {x : α} {e : Entry (List α)}
    (h : m j = some e) : ∃ e', remove m now k x j = some e' ∧ e'.expiresAt = e.expiresAt ∧
      ∀ y ∈ e.value, y ≠ x → y ∈ e'.value := by
  unfold remove
  cases hlive : live m now k with
  | none => exact ⟨e, h, rfl, fun y hy _ => hy⟩
  | some d =>
      by_cases hjk : j = k
      · subst hjk
        cases (live_eq_some.mp hlive).1.symm.trans h
        exact ⟨_, put_self m j _, rfl, fun y hy hne =>
          List.mem_filter.mpr ⟨hy, decide_eq_true hne⟩⟩
      · exact ⟨e, (put_of_ne m _ hjk).trans h, rfl, fun y hy _ => hy⟩

/-- A set that is found after a removal was there, with more members perhaps. -/
theorem remove_eq_some {m : Sets κ α} {now : Int} {j k : κ} {x : α} {e' : Entry (List α)}
    (h : remove m now k x j = some e') :
    ∃ e, m j = some e ∧ e'.expiresAt = e.expiresAt ∧ e'.value ⊆ e.value := by
  unfold remove at h
  cases hlive : live m now k with
  | none =>
      rw [hlive] at h
      exact ⟨e', h, rfl, List.Subset.refl _⟩
  | some d =>
      rw [hlive] at h
      rcases put_eq_some h with ⟨rfl, rfl⟩ | ⟨_, hold⟩
      · exact ⟨d, (live_eq_some.mp hlive).1, rfl, fun y hy => (List.mem_filter.mp hy).1⟩
      · exact ⟨e', hold, rfl, List.Subset.refl _⟩

end SetOperations

/-- Count once more at a key. The first count of a window starts its time. -/
def increment [DecidableEq κ] (m : Map κ Nat) (now : Int) (k : κ) (ttl : Int) :
    Nat × Map κ Nat :=
  match live m now k with
  | none => (1, set m now k 1 ttl)
  | some e => (e.value + 1, put m k ⟨e.value + 1, e.expiresAt⟩)

end Ttl
