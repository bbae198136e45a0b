import Mathlib.Data.List.Pairwise

/-!
# Tables with Unique Columns

A table is a list of rows. A column is unique if no two rows have the same
value in it; like in a database, any number of rows may have none. An
insertion keeps a column unique if its value is new, and an update of the row
with a key if no other row has the value.

## Main definitions

* `Unique`: No two rows have the same value in a column.
* `IsNew`: No row has the value of another one in a column.
* `update`: Put a row in the place of those with its key.

## Theorems

* `unique_append`, `unique_update`, `unique_filter`: Insertions, updates and
  removals.
* `unique_row`, `find_unique`, `find_iff`: A value determines its row.
* `filter_unique`: A selection of a row.
* `filter_update`: A selection of an updated table.
-/

namespace Tables

variable {α κ κ' : Type} {column : α → Option κ} {rows : List α}

/-- No two rows have the same value in a column. -/
def Unique (column : α → Option κ) (rows : List α) : Prop :=
  (rows.filterMap column).Nodup

instance [DecidableEq κ] (column : α → Option κ) (rows : List α) :
    Decidable (Unique column rows) :=
  inferInstanceAs (Decidable (List.Nodup _))

/-- Two rows differ in a column or have no value in it. -/
def Apart (column : α → Option κ) (a b : α) : Prop :=
  ∀ k, column a = some k → column b ≠ some k

theorem Apart.symm {a b : α} (h : Apart column a b) : Apart column b a :=
  fun k hb ha => h k ha hb

theorem unique_iff : Unique column rows ↔ rows.Pairwise (Apart column) := by
  unfold Unique List.Nodup
  rw [List.pairwise_filterMap]
  constructor
  · intro h
    refine h.imp fun {a b} hab k ha hb => ?_
    exact hab k ha k hb rfl
  · intro h
    refine h.imp fun {a b} hab k ha k' hb heq => ?_
    exact hab k ha (heq ▸ hb)

/-- No row has the value of another one in a column. -/
def IsNew (column : α → Option κ) (x : α) (rows : List α) : Prop :=
  ∀ r ∈ rows, Apart column r x

theorem unique_append {x : α} (h : Unique column rows) (hnew : IsNew column x rows) :
    Unique column (rows ++ [x]) := by
  refine unique_iff.mpr
      (List.pairwise_append.mpr ⟨unique_iff.mp h, List.pairwise_singleton _ _, ?_⟩)
  intro r hr y hy
  rw [List.mem_singleton.mp hy]
  exact hnew r hr

theorem unique_filter (p : α → Bool) (h : Unique column rows) : Unique column (rows.filter p) :=
  List.Nodup.sublist (List.Sublist.filterMap column List.filter_sublist) h

/-- Two rows with the same value are one. -/
theorem unique_row {a b : α} {k : κ} (h : Unique column rows) (ha : a ∈ rows) (hb : b ∈ rows)
    (hak : column a = some k) (hbk : column b = some k) : a = b := by
  by_contra hne
  have hsymm : Std.Symm (Apart column) := ⟨fun _ _ hab => hab.symm⟩
  exact (unique_iff.mp h).forall ha hb hne k hak hbk

/-- The row with a value is the one that is found. -/
theorem find_unique [BEq κ] [LawfulBEq κ] {key : α → κ} {x : α}
    (h : Unique (fun r => some (key r)) rows) (hx : x ∈ rows) :
    rows.find? (fun r => key r == key x) = some x := by
  cases hfind : rows.find? (fun r => key r == key x) with
  | none => exact absurd (beq_self_eq_true _) (List.find?_eq_none.mp hfind x hx)
  | some y =>
      have hkey : (key y == key x) = true :=
        List.find?_some (p := fun r => key r == key x) hfind
      rw [unique_row h (List.mem_of_find?_eq_some hfind) hx
        (congrArg some (beq_iff_eq.mp hkey)) rfl]

/-- The row that is found is the one with the value. -/
theorem find_iff [DecidableEq κ] {key : α → κ} (h : Unique (fun r => some (key r)) rows) {k : κ}
    {x : α} : rows.find? (key · = k) = some x ↔ x ∈ rows ∧ key x = k := by
  constructor
  · intro hfind
    have hkey := List.find?_some (p := fun r => decide (key r = k)) hfind
    exact ⟨List.mem_of_find?_eq_some hfind, of_decide_eq_true hkey⟩
  · rintro ⟨hx, rfl⟩
    cases hfind : rows.find? (key · = key x) with
    | none => exact absurd (decide_eq_true rfl) (List.find?_eq_none.mp hfind x hx)
    | some y =>
        have hkey := List.find?_some (p := fun r => decide (key r = key x)) hfind
        rw [unique_row h (List.mem_of_find?_eq_some hfind) hx
          (congrArg some (of_decide_eq_true hkey)) rfl]

/-- With a value there is one row at most, so selecting is finding. -/
theorem filter_unique [DecidableEq κ] {key : α → κ} (h : Unique (fun r => some (key r)) rows)
    (k : κ)
    (p : α → Bool) : rows.filter (fun r => key r = k ∧ p r = true) =
      ((rows.find? (key · = k)).filter p).toList := by
  induction rows with
  | nil => rfl
  | cons r rows ih =>
      have hrest := unique_iff.mp h
      rw [List.pairwise_cons] at hrest
      -- After the one row with this key there is none.
      by_cases hk : key r = k
      · have hnone : rows.filter (fun r => key r = k ∧ p r = true) = [] := by
          refine List.filter_eq_nil_iff.mpr fun x hx hmatch => ?_
          have hxk : key x = k := (of_decide_eq_true hmatch).1
          exact hrest.1 x hx k (congrArg some hk) (congrArg some hxk)
        have hfind : (r :: rows).find? (key · = k) = some r := by
          rw [List.find?_cons, decide_eq_true hk]
        rw [List.filter_cons, hnone, hfind]
        by_cases hp : p r = true
        · rw [if_pos (decide_eq_true ⟨hk, hp⟩), Option.filter_some, if_pos hp]
          rfl
        · rw [if_neg fun hmatch => hp (of_decide_eq_true hmatch).2, Option.filter_some, if_neg hp]
          rfl
      · have hfind : (r :: rows).find? (key · = k) = rows.find? (key · = k) := by
          rw [List.find?_cons, decide_eq_false hk]
        rw [List.filter_cons_of_neg fun hmatch => hk (of_decide_eq_true hmatch).1, hfind,
          ih (unique_iff.mpr hrest.2)]

/-- The rows with a value are apart from those with another. -/
theorem filter_filter_ne [DecidableEq κ] {key : α → κ} {k k' : κ} (hne : k' ≠ k) (rows : List α) :
    (rows.filter (key · ≠ k')).filter (key · = k) = rows.filter (key · = k) := by
  rw [List.filter_filter]
  refine List.filter_congr fun r _ => ?_
  by_cases hk : key r = k
  · rw [decide_eq_true (show key r ≠ k' from fun hk' => hne (hk'.symm.trans hk)), Bool.and_true]
  · rw [decide_eq_false hk, Bool.false_and]

section Update

variable [DecidableEq κ] {key : α → κ} {x y : α}

/-- Put a row in the place of those with its key. -/
def update (key : α → κ) (y : α) (rows : List α) : List α :=
  rows.map fun r => if key r = key y then y else r

theorem mem_update (h : x ∈ update key y rows) : x = y ∨ x ∈ rows ∧ key x ≠ key y := by
  rcases List.mem_map.mp h with ⟨r, hr, rfl⟩
  by_cases hkey : key r = key y
  · exact .inl (if_pos hkey)
  · rw [if_neg hkey]
    exact .inr ⟨hr, hkey⟩

theorem mem_update_of_ne (hx : x ∈ rows) (hne : key x ≠ key y) : x ∈ update key y rows :=
  List.mem_map.mpr ⟨x, hx, if_neg hne⟩

theorem mem_update_self (hx : x ∈ rows) (heq : key x = key y) : y ∈ update key y rows :=
  List.mem_map.mpr ⟨x, hx, if_pos heq⟩

/-- A column stays unique if only the row that is replaced has the new value. -/
theorem unique_update {column : α → Option κ'} (hkey : Unique (fun r => some (key r)) rows)
    (h : Unique column rows)
    (hvalue : ∀ k, column y = some k → ∀ r ∈ rows, column r = some k → key r = key y) :
    Unique column (update key y rows) := by
  have hboth := (unique_iff.mp hkey).and (unique_iff.mp h)
  refine unique_iff.mpr (List.pairwise_map.mpr (hboth.imp_of_mem fun {a b} ha hb hab => ?_))
  intro k hak hbk
  have hkeys : key a ≠ key b := fun heq => hab.1 (key a) rfl (congrArg some heq.symm)
  -- Two rows have two keys, so at most one of them is replaced.
  by_cases hay : key a = key y
  · rw [if_pos hay] at hak
    have hby : key b ≠ key y := fun hby => hkeys (hay.trans hby.symm)
    rw [if_neg hby] at hbk
    exact hby (hvalue k hak b hb hbk)
  · rw [if_neg hay] at hak
    by_cases hby : key b = key y
    · rw [if_pos hby] at hbk
      exact hay (hvalue k hbk a ha hak)
    · rw [if_neg hby] at hbk
      exact hab.2 k hak hbk

/-- A selection that does not tell the rows with a key apart sees an update of
    them, or none. -/
theorem filter_update {p : α → Bool} (h : ∀ r ∈ rows, key r = key y → p r = p y) :
    (update key y rows).filter p =
      if p y then update key y (rows.filter p) else rows.filter p := by
  induction rows with
  | nil => cases p y <;> rfl
  | cons r rows ih =>
      have hr : key r = key y → p r = p y := h r List.mem_cons_self
      have ih := ih fun r hr => h r (List.mem_cons_of_mem _ hr)
      unfold update at ih ⊢
      rw [List.map_cons, List.filter_cons, List.filter_cons, ih]
      -- The row that is replaced passes the filter exactly if the new one does.
      by_cases hkey : key r = key y
      · have hpr := hr hkey
        rw [if_pos hkey]
        by_cases hy : p y = true
        · rw [if_pos hy, if_pos hy, if_pos hy, if_pos (hpr.trans hy), List.map_cons, if_pos hkey]
        · rw [if_neg hy, if_neg hy, if_neg hy, if_neg (hpr ▸ hy)]
      · rw [if_neg hkey]
        by_cases hpr : p r = true
        · rw [if_pos hpr, if_pos hpr]
          by_cases hy : p y = true
          · rw [if_pos hy, if_pos hy, List.map_cons, if_neg hkey]
          · rw [if_neg hy, if_neg hy]
        · rw [if_neg hpr, if_neg hpr]

end Update

end Tables
