import Mathlib.Data.List.Induction

/-!
# Groups of Adjacent Rows

A loop over rows that are ordered can put those with the same value in a column
together by looking at the last group only: a row either belongs to that group or
begins a new one. This finds all groups as long as the order keeps the rows of a
group together.

A group has the first of its rows' heads, and their values in order.

## Main definitions

* `push`: One round of the loop.
* `group`: The loop.
* `Grouped`: Its invariant.

## Theorems

* `Grouped.push`: A round keeps the invariant.
* `grouped_group`: What the loop computes.
-/

namespace Tables

variable {α β κ : Type} [DecidableEq κ]

/-- Put a value into the last group, or begin a new one. -/
def push (id : α → κ) (groups : List (α × List β)) (a : α) (b : β) : List (α × List β) :=
  match groups.getLast? with
  | none => groups ++ [(a, [b])]
  | some last =>
      if id last.1 ≠ id a then groups ++ [(a, [b])]
      else groups.dropLast ++ [(last.1, last.2 ++ [b])]

def group (id : α → κ) (rows : List (α × β)) : List (α × List β) :=
  rows.foldl (fun groups row => push id groups row.1 row.2) []

/-- The groups of the rows so far. -/
structure Grouped (id : α → κ) (rows : List (α × β)) (groups : List (α × List β)) : Prop where
  nodup : (groups.map fun g => id g.1).Nodup
  values : ∀ g ∈ groups, g.2 = (rows.filter fun r => id r.1 = id g.1).map (·.2)
  head : ∀ g ∈ groups, ∃ r ∈ rows, r.1 = g.1
  row : ∀ r ∈ rows, ∃ g ∈ groups, id g.1 = id r.1
  last : groups.getLast?.map (fun g => id g.1) = rows.getLast?.map fun r => id r.1

variable {id : α → κ} {rows : List (α × β)} {groups : List (α × List β)} {a : α} {b : β}

/-- A value of another group is not one of a group's. -/
theorem filter_concat_of_ne {g : α × List β} (hne : id a ≠ id g.1) :
    (rows ++ [(a, b)]).filter (fun r => id r.1 = id g.1) =
      rows.filter fun r => id r.1 = id g.1 := by
  rw [List.filter_append, List.filter_cons_of_neg (by simpa using hne), List.filter_nil,
    List.append_nil]

theorem filter_concat_of_eq {g : α × List β} (heq : id a = id g.1) :
    (rows ++ [(a, b)]).filter (fun r => id r.1 = id g.1) =
      (rows.filter fun r => id r.1 = id g.1) ++ [(a, b)] := by
  rw [List.filter_append, List.filter_cons_of_pos (by simpa using heq), List.filter_nil]

/-- A new group for a row that belongs to none. -/
theorem Grouped.begin (h : Grouped id rows groups) (hnew : ∀ g ∈ groups, id g.1 ≠ id a) :
    Grouped id (rows ++ [(a, b)]) (groups ++ [(a, [b])]) := by
  -- A key that starts a group has no row before.
  have hrows : ∀ r ∈ rows, id r.1 ≠ id a := by
    intro r hr heq
    obtain ⟨g, hg, hid⟩ := h.row r hr
    exact hnew g hg (hid.trans heq)
  refine ⟨?_, ?_, ?_, ?_, ?_⟩
  · rw [List.map_append, List.nodup_append]
    refine ⟨h.nodup, List.pairwise_singleton _ _, ?_⟩
    rintro k hk _ hk' rfl
    obtain ⟨g, hg, rfl⟩ := List.mem_map.mp hk
    exact hnew g hg (List.mem_singleton.mp hk')
  · intro g hg
    rcases List.mem_append.mp hg with hg | hg
    · rw [filter_concat_of_ne (hnew g hg).symm]
      exact h.values g hg
    · obtain rfl := List.mem_singleton.mp hg
      -- The new group has the new row alone.
      have hnone : rows.filter (fun r => id r.1 = id a) = [] :=
        List.filter_eq_nil_iff.mpr fun r hr heq => hrows r hr (of_decide_eq_true heq)
      rw [filter_concat_of_eq rfl, hnone]
      rfl
  · intro g hg
    rcases List.mem_append.mp hg with hg | hg
    · obtain ⟨r, hr, heq⟩ := h.head g hg
      exact ⟨r, List.mem_append_left _ hr, heq⟩
    · obtain rfl := List.mem_singleton.mp hg
      exact ⟨(a, b), List.mem_append_right _ (List.mem_singleton_self _), rfl⟩
  · intro r hr
    rcases List.mem_append.mp hr with hr | hr
    · obtain ⟨g, hg, heq⟩ := h.row r hr
      exact ⟨g, List.mem_append_left _ hg, heq⟩
    · obtain rfl := List.mem_singleton.mp hr
      exact ⟨(a, [b]), List.mem_append_right _ (List.mem_singleton_self _), rfl⟩
  · rw [List.getLast?_concat, List.getLast?_concat]
    rfl

/-- A row of the last group. -/
theorem Grouped.extend {init : List (α × List β)} {last : α × List β}
    (h : Grouped id rows (init ++ [last])) (hlast : id last.1 = id a) :
    Grouped id (rows ++ [(a, b)]) (init ++ [(last.1, last.2 ++ [b])]) := by
  -- The groups before the last have other ids.
  have hinit : ∀ g ∈ init, id a ≠ id g.1 := by
    intro g hg heq
    have hnodup := h.nodup
    rw [List.map_append, List.nodup_append] at hnodup
    exact hnodup.2.2 _ (List.mem_map_of_mem hg) _ (List.mem_singleton_self _)
      (heq.symm.trans hlast.symm)
  have hmem : last ∈ init ++ [last] := List.mem_append_right _ (List.mem_singleton_self _)
  refine ⟨?_, ?_, ?_, ?_, ?_⟩
  · have hnodup := h.nodup
    rw [List.map_append] at hnodup ⊢
    exact hnodup
  · intro g hg
    rcases List.mem_append.mp hg with hg | hg
    · rw [filter_concat_of_ne (hinit g hg)]
      exact h.values g (List.mem_append_left _ hg)
    · obtain rfl := List.mem_singleton.mp hg
      rw [filter_concat_of_eq hlast.symm, List.map_append, ← h.values last hmem]
      rfl
  · intro g hg
    -- The rows of the groups are still there.
    have hhead : ∀ g' ∈ init ++ [last], g'.1 = g.1 → ∃ r ∈ rows ++ [(a, b)], r.1 = g.1 := by
      intro g' hg' heq
      obtain ⟨r, hr, hr'⟩ := h.head g' hg'
      exact ⟨r, List.mem_append_left _ hr, hr'.trans heq⟩
    rcases List.mem_append.mp hg with hg | hg
    · exact hhead g (List.mem_append_left _ hg) rfl
    · obtain rfl := List.mem_singleton.mp hg
      exact hhead last hmem rfl
  -- So are the groups, the last with one more value.
  · have hin : ∀ g ∈ init ++ [last], ∃ g' ∈ init ++ [(last.1, last.2 ++ [b])], g'.1 = g.1 := by
      intro g hg
      rcases List.mem_append.mp hg with hg | hg
      · exact ⟨g, List.mem_append_left _ hg, rfl⟩
      · obtain rfl := List.mem_singleton.mp hg
        exact ⟨_, List.mem_append_right _ (List.mem_singleton_self _), rfl⟩
    intro r hr
    rcases List.mem_append.mp hr with hr | hr
    · obtain ⟨g, hg, heq⟩ := h.row r hr
      obtain ⟨g', hg', heq'⟩ := hin g hg
      exact ⟨g', hg', (congrArg id heq').trans heq⟩
    · obtain rfl := List.mem_singleton.mp hr
      exact ⟨_, List.mem_append_right _ (List.mem_singleton_self _), hlast⟩
  · rw [List.getLast?_concat, List.getLast?_concat]
    exact congrArg some hlast

/-- A round keeps the invariant if no row of the new one's group comes before a
    row of another. -/
theorem Grouped.push (h : Grouped id rows groups)
    (hlast : ∀ r ∈ rows, id r.1 = id a → rows.getLast?.map (fun r => id r.1) = some (id a)) :
    Grouped id (rows ++ [(a, b)]) (Tables.push id groups a b) := by
  -- The rows of a key stand together, so an older group has another.
  have hnew : groups.getLast?.map (fun g => id g.1) ≠ some (id a) →
      ∀ g ∈ groups, id g.1 ≠ id a := by
    intro hne g hg heq
    obtain ⟨r, hr, hhead⟩ := h.head g hg
    exact hne (h.last.trans (hlast r hr ((congrArg id hhead).trans heq)))
  unfold Tables.push
  cases hgroups : groups.getLast? with
  | none =>
      refine h.begin (hnew ?_)
      rw [hgroups]
      exact nofun
  | some last =>
      dsimp only
      split
      · next hne =>
          refine h.begin (hnew ?_)
          rw [hgroups]
          exact fun heq => hne (Option.some.inj heq)
      · next heq =>
          obtain ⟨init, rfl⟩ := List.getLast?_eq_some_iff.mp hgroups
          rw [List.dropLast_concat]
          exact h.extend (not_not.mp heq)

/-- What the loop computes for rows in an order that keeps groups together. -/
theorem grouped_group {le : α → α → Prop} (hrows : rows.Pairwise fun r r' => le r.1 r'.1)
    (hconvex : ∀ a b c, le a b → le b c → id a = id c → id b = id c) :
    Grouped id rows (group id rows) := by
  unfold group
  induction rows using List.reverseRecOn with
  | nil =>
      exact ⟨List.nodup_nil, nofun, nofun, nofun, rfl⟩
  | append_singleton rows row ih =>
      rcases row with ⟨a, b⟩
      obtain ⟨hbefore, _, hrow⟩ := List.pairwise_append.mp hrows
      rw [List.foldl_append]
      refine (ih hbefore).push fun r hr heq => ?_
      cases hlast : rows.getLast? with
      | none =>
          rw [List.getLast?_eq_none_iff.mp hlast] at hr
          cases hr
      | some l =>
          -- The last row lies between the other one of the group and the new one.
          obtain ⟨init, rfl⟩ := List.getLast?_eq_some_iff.mp hlast
          have hl : le l.1 a := hrow l (List.mem_append_right _ (List.mem_singleton_self _)) _
            (List.mem_singleton_self _)
          rcases List.mem_append.mp hr with hr | hr
          · have hrl := (List.pairwise_append.mp hbefore).2.2 r hr l (List.mem_singleton_self _)
            exact congrArg some (hconvex _ _ _ hrl hl heq)
          · obtain rfl := List.mem_singleton.mp hr
            exact congrArg some heq

end Tables
