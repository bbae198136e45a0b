import Sandbox.Interleave.Resource

/-!
# Groups That Do Not See Each Other

Some calls of a system belong to a group, which sees the store through a
view. The others interfere with the group if they change what it sees. They
do not if two things hold: whatever the others do leaves the view as it is,
and what the group does, and what it is answered, depends on the view alone.

The statement is about two runs. Both are schedules, and what a schedule says
of the group is left when the others' moves are crossed out (`ownMoves`): the
calls of the group, and which of its threads steps with which answer from
outside. Two schedules that agree there end with the same view and with the
same threads of the group, so with the same answers.

The programs of both runs have to take the same steps, so nothing is asked of
whether an action has an outcome: it may have one in one run and none in the
other, but then the other is no run.

## Main definitions

* `Confined`: A program for which only the view matters.
* `ownMoves`, `Pool.own`: A group's part of a schedule and of a pool.
* `Isolating`: A system in which the others do not interfere with a group.

## Theorems

* `confined_bind`, `confined_atomic`, `confined_read_bind` and the others of
  their form: The rules for building programs.
* `confined_step`: One step on two stores with the same view.
* `same_move`: The same move of a group in two pools.
* `isolated`: Runs that agree on a group's part of the schedule agree on what
  the group sees.
-/

namespace Interleave

variable {σ ω ε ρ τ ν : Type} {Ret : ρ → Type}

/-- On stores with the same view a program does the same. -/
def Confined (view : σ → ν) : {α : Type} → Prog σ ω ε α → Prop
  | _, .done _ => True
  | _, .act _ run next =>
      (∀ i s₁ s₂ b₁ b₂ s₁' s₂', view s₁ = view s₂ → run i s₁ = some (b₁, s₁') →
        run i s₂ = some (b₂, s₂') → b₁ = b₂ ∧ view s₁' = view s₂') ∧
      ∀ i s b s', run i s = some (b, s') → Confined view (next b)
  | _, .par left right next =>
      Confined view left ∧ Confined view right ∧ ∀ x, Confined view (next x)

section Rules

variable {view : σ → ν} {α β : Type}

theorem confined_pure (a : α) : Confined view (pure a : Prog σ ω ε α) := trivial

theorem confined_bind {p : Prog σ ω ε α} {f : α → Prog σ ω ε β} (hp : Confined view p)
    (hf : ∀ a, Confined view (f a)) : Confined view (p >>= f) := by
  induction p with
  | done a => exact hf a
  | act event run next ih =>
      exact ⟨hp.1, fun i s b s' hrun => ih b (hp.2 i s b s' hrun) hf⟩
  | par left right next _ _ ih => exact ⟨hp.1, hp.2.1, fun x => ih x (hp.2.2 x) hf⟩

theorem confined_act {event : β → Option ε} {run : ω → σ → Option (β × σ)}
    (h : ∀ i s₁ s₂ b₁ b₂ s₁' s₂', view s₁ = view s₂ → run i s₁ = some (b₁, s₁') →
      run i s₂ = some (b₂, s₂') → b₁ = b₂ ∧ view s₁' = view s₂') :
    Confined view (.act event run .done) :=
  ⟨h, fun _ _ _ _ _ => trivial⟩

theorem confined_ask {f : ω → σ → Option (β × σ)}
    (h : ∀ i s₁ s₂ b₁ b₂ s₁' s₂', view s₁ = view s₂ → f i s₁ = some (b₁, s₁') →
      f i s₂ = some (b₂, s₂') → b₁ = b₂ ∧ view s₁' = view s₂') :
    Confined (ε := ε) view (Prog.ask f) :=
  confined_act h

theorem confined_atomic {f : σ → β × σ}
    (h : ∀ s₁ s₂, view s₁ = view s₂ → (f s₁).1 = (f s₂).1 ∧ view (f s₁).2 = view (f s₂).2) :
    Confined (ω := ω) (ε := ε) view (Prog.atomic f) := by
  refine confined_act fun i s₁ s₂ b₁ b₂ s₁' s₂' hview h₁ h₂ => ?_
  have hf := h s₁ s₂ hview
  have hb₁ : f s₁ = (b₁, s₁') := Option.some.inj h₁
  have hb₂ : f s₂ = (b₂, s₂') := Option.some.inj h₂
  rw [hb₁, hb₂] at hf
  exact hf

theorem confined_read {f : σ → β} (h : ∀ s₁ s₂, view s₁ = view s₂ → f s₁ = f s₂) :
    Confined (ω := ω) (ε := ε) view (Prog.read f) :=
  confined_atomic fun s₁ s₂ hview => ⟨h s₁ s₂ hview, hview⟩

/-- What follows a look at the store has to do with what can be seen there
    only. -/
theorem confined_read_bind {f : σ → α} {g : α → Prog σ ω ε β}
    (h : ∀ s₁ s₂, view s₁ = view s₂ → f s₁ = f s₂) (hg : ∀ s, Confined view (g (f s))) :
    Confined view (Prog.read f >>= g) := by
  refine ⟨(confined_read (ω := ω) (ε := ε) h).1, fun i s b s' hrun => ?_⟩
  cases hrun
  exact hg s

/-- The same program steps on two stores with the same view: it goes on as
    the same program, and the view is still the same. -/
theorem confined_step {p : Prog σ ω ε α} (hp : Confined view p) {i : ω} {s₁ s₂ s₁' s₂' : σ}
    {e₁ e₂ : Option ε} {p₁ p₂ : Prog σ ω ε α} (hview : view s₁ = view s₂)
    (h₁ : p.stepLeft i s₁ = some (e₁, s₁', p₁)) (h₂ : p.stepLeft i s₂ = some (e₂, s₂', p₂)) :
    view s₁' = view s₂' ∧ p₁ = p₂ ∧ Confined view p₁ := by
  induction p generalizing e₁ e₂ with
  | done a => cases h₁
  | act event run next _ =>
      rcases Option.map_eq_some_iff.mp h₁ with ⟨⟨b₁, t₁⟩, hrun₁, heq₁⟩
      rcases Option.map_eq_some_iff.mp h₂ with ⟨⟨b₂, t₂⟩, hrun₂, heq₂⟩
      -- An action answers alike in both states, and leaves them alike.
      rcases hp.1 i s₁ s₂ b₁ b₂ t₁ t₂ hview hrun₁ hrun₂ with ⟨rfl, hview'⟩
      cases heq₁
      cases heq₂
      exact ⟨hview', rfl, hp.2 _ _ _ _ hrun₁⟩
  | par left right next ihl ihr _ =>
      -- Which side steps depends on the programs alone.
      rw [Prog.stepLeft] at h₁ h₂
      split at h₁
      · next b c hl hr =>
          rw [hl, hr] at h₂
          cases h₁
          cases h₂
          exact ⟨hview, rfl, hp.2.2 _⟩
      · next b hl hr =>
          rw [hl, hr] at h₂
          rcases Option.map_eq_some_iff.mp h₁ with ⟨⟨_, _, q₁⟩, hq₁, heq₁⟩
          rcases Option.map_eq_some_iff.mp h₂ with ⟨⟨_, _, q₂⟩, hq₂, heq₂⟩
          cases heq₁
          cases heq₂
          rcases ihr hp.2.1 hq₁ hq₂ with ⟨hview', rfl, hconf⟩
          exact ⟨hview', rfl, hp.1, hconf, hp.2.2⟩
      · next hl =>
          rw [hl] at h₂
          rcases Option.map_eq_some_iff.mp h₁ with ⟨⟨_, _, q₁⟩, hq₁, heq₁⟩
          rcases Option.map_eq_some_iff.mp h₂ with ⟨⟨_, _, q₂⟩, hq₂, heq₂⟩
          cases heq₁
          cases heq₂
          rcases ihl hp.1 hq₁ hq₂ with ⟨hview', rfl, hconf⟩
          exact ⟨hview', rfl, hconf, hp.2.1, hp.2.2⟩

end Rules

section Groups

variable (mine : ρ → Bool)

/-- What a move is for a group, given the calls that have arrived. Threads are
    counted within the group. -/
def ownMove (calls : List ρ) : Move ω ρ τ → Option (Move ω ρ τ)
  | .spawn c => if mine c then some (.spawn c) else none
  | .run index i =>
      match calls[index]? with
      | none => none
      | some c => if mine c then some (.run ((calls.take index).countP mine) i) else none
  | .env _ => none

/-- The call that arrives with a move, if any. -/
def Move.arrived : Move ω ρ τ → List ρ
  | .spawn c => [c]
  | .run _ _ | .env _ => []

/-- A group's part of a schedule, given the calls that have arrived. -/
def ownMoves : List ρ → List (Move ω ρ τ) → List (Move ω ρ τ)
  | _, [] => []
  | calls, m :: ms => (ownMove mine calls m).toList ++ ownMoves (calls ++ m.arrived) ms

/-- A group's threads. -/
def Pool.own (p : Pool σ ω ε ρ Ret) : List (Thread σ ω ε ρ Ret) :=
  p.threads.filter fun t => mine t.call

def Pool.calls (p : Pool σ ω ε ρ Ret) : List ρ := p.threads.map (·.call)

/-- What the group's program or another's has to be like. -/
def TameThread (view : σ → ν) (t : Thread σ ω ε ρ Ret) : Prop :=
  if mine t.call then Confined view t.prog
  else Within (fun s s' => view s' = view s) (fun _ => True) t.prog

/-- The group's threads depend on the view alone, and the others' leave it as
    it is. -/
def Tame (view : σ → ν) (p : Pool σ ω ε ρ Ret) : Prop :=
  ∀ t ∈ p.threads, TameThread mine view t

end Groups

section Schedules

variable {S : System σ ω ε ρ τ Ret} {mine : ρ → Bool} {view : σ → ν} {p q : Pool σ ω ε ρ Ret}
  {m m' : Move ω ρ τ}

/-- A thread that steps is in the middle of the others. -/
theorem run_cases {index : Nat} {i : ω} (h : p.move S anyStep (.run index i) = some q) :
    ∃ ts₁ t ts₂ x, p.threads = ts₁ ++ t :: ts₂ ∧ ts₁.length = index ∧
      t.prog.stepLeft i p.store = some x ∧ q.store = x.2.1 ∧
      q.threads = ts₁ ++ ⟨t.call, x.2.2⟩ :: ts₂ := by
  rw [Pool.move] at h
  split at h
  · cases h
  · next t ht =>
      rcases Option.bind_eq_some_iff.mp h with ⟨x, hstep, hif⟩
      rcases List.getElem?_eq_some_iff.mp ht with ⟨hlt, hget⟩
      split at hif
      · cases hif
        refine ⟨p.threads.take index, t, p.threads.drop (index + 1), x, ?_, ?_, hstep, rfl, ?_⟩
        · rw [← hget, List.getElem_cons_drop, List.take_append_drop]
        · exact List.length_take_of_le (Nat.le_of_lt hlt)
        · exact List.set_eq_take_append_cons_drop.trans (if_pos hlt)
      · cases hif

theorem calls_of_move (h : p.move S anyStep m = some q) : q.calls = p.calls ++ m.arrived := by
  cases m with
  | spawn c =>
      cases h
      exact List.map_append
  | run index i =>
      rcases run_cases h with ⟨ts₁, t, ts₂, x, hp, _, _, _, hq⟩
      simp only [Pool.calls, hp, hq, List.map_append, List.map_cons, Move.arrived,
        List.append_nil]
  | env t =>
      rcases Option.map_eq_some_iff.mp h with ⟨s', _, rfl⟩
      exact (List.append_nil _).symm

/-- The call of the thread that steps, and its number in the group. -/
theorem ownMove_run {ts₁ ts₂ : List (Thread σ ω ε ρ Ret)} {t : Thread σ ω ε ρ Ret} {i : ω}
    (h : p.threads = ts₁ ++ t :: ts₂) :
    ownMove (τ := τ) mine p.calls (.run ts₁.length i) =
      if mine t.call then
        some (.run (ts₁.filter fun t => mine t.call).length i)
      else none := by
  have hget : p.calls[ts₁.length]? = some t.call := by
    simp [Pool.calls, h]
  have htake : p.calls.take ts₁.length = ts₁.map (·.call) := by
    simp [Pool.calls, h]
  have hcount : (ts₁.map (·.call)).countP mine = (ts₁.filter fun t => mine t.call).length := by
    rw [List.countP_map, List.countP_eq_length_filter]
    rfl
  unfold ownMove
  dsimp only
  rw [hget, htake, hcount]

/-- A tame thread stays tame, and another's step leaves the view. -/
theorem tame_step {t : Thread σ ω ε ρ Ret} {i : ω} {s : σ}
    {x : Option ε × σ × Prog σ ω ε (Ret t.call)} (ht : TameThread mine view t)
    (hstep : t.prog.stepLeft i s = some x) :
    TameThread mine view (⟨t.call, x.2.2⟩ : Thread σ ω ε ρ Ret) ∧
      (mine t.call = false → view x.2.1 = view s) := by
  unfold TameThread at ht ⊢
  by_cases hmine : mine t.call = true
  · rw [if_pos hmine] at ht ⊢
    exact ⟨(confined_step ht rfl hstep hstep).2.2, fun hno => absurd hmine (by rw [hno]; nofun)⟩
  · rw [if_neg hmine] at ht ⊢
    rcases within_step (step_of_stepLeft _ _ _ _ _ _ hstep) ht with ⟨hG, _, hnext⟩
    refine ⟨hnext, fun _ => ?_⟩
    rcases hG with hG | heq
    · exact hG
    · rw [heq]

/-- What the calls' programs and the surroundings have to be like. -/
structure Isolating (S : System σ ω ε ρ τ Ret) (mine : ρ → Bool) (view : σ → ν) : Prop where
  confined : ∀ c, mine c = true → Confined view (S.body c)
  hidden : ∀ c, mine c = false →
    Within (fun s s' => view s' = view s) (fun _ => True) (S.body c)
  env : ∀ t s s', S.env t s = some s' → view s' = view s

theorem Isolating.tame_move (hS : Isolating S mine view) (hp : Tame mine view p)
    (h : p.move S anyStep m = some q) : Tame mine view q := by
  cases m with
  | spawn c =>
      cases h
      intro t ht
      rcases List.mem_append.mp ht with ht | ht
      · exact hp t ht
      · rw [List.mem_singleton.mp ht]
        unfold TameThread
        by_cases hc : mine c = true
        · rw [if_pos hc]
          exact hS.confined c hc
        · rw [if_neg hc]
          exact hS.hidden c (Bool.eq_false_iff.mpr hc)
  -- Only the call that steps changes, and a step keeps it tame.
  | run index i =>
      rcases run_cases h with ⟨ts₁, t, ts₂, x, hts, _, hstep, _, hq⟩
      intro t' ht'
      rw [hq] at ht'
      have hmem : ∀ u ∈ ts₁ ++ t :: ts₂, TameThread mine view u := hts ▸ hp
      rcases List.mem_append.mp ht' with ht' | ht'
      · exact hmem t' (List.mem_append_left _ ht')
      · rcases List.mem_cons.mp ht' with rfl | ht'
        · exact (tame_step (hmem t (by simp)) hstep).1
        · exact hmem t' (by simp [ht'])
  | env t =>
      rcases Option.map_eq_some_iff.mp h with ⟨s', _, rfl⟩
      exact hp

/-- Another's move changes nothing for the group. -/
theorem Isolating.other_move (hS : Isolating S mine view) (hp : Tame mine view p)
    (h : p.move S anyStep m = some q) (hother : ownMove mine p.calls m = none) :
    view q.store = view p.store ∧ q.own mine = p.own mine := by
  cases m with
  | spawn c =>
      cases h
      refine ⟨rfl, ?_⟩
      have hc : mine c = false := by
        by_contra hc
        rw [ownMove, if_pos (Bool.not_eq_false _ ▸ hc)] at hother
        cases hother
      simp [Pool.own, hc]
  | run index i =>
      rcases run_cases h with ⟨ts₁, t, ts₂, x, hts, rfl, hstep, hstore, hq⟩
      rw [ownMove_run hts] at hother
      -- The call that steps is of another party, so it is hidden.
      have hmine : mine t.call = false := by
        by_contra hc
        rw [if_pos (Bool.not_eq_false _ ▸ hc)] at hother
        cases hother
      have ht : TameThread mine view t := hp t (by simp [hts])
      refine ⟨?_, ?_⟩
      · rw [hstore]
        exact (tame_step ht hstep).2 hmine
      · simp [Pool.own, hts, hq, hmine]
  | env t =>
      rcases Option.map_eq_some_iff.mp h with ⟨s', henv, rfl⟩
      exact ⟨hS.env t p.store s' henv, rfl⟩

/-- What a move of the group does is said by the group's part of it. -/
theorem own_cases (h : p.move S anyStep m = some q) (hown : ownMove mine p.calls m = some m') :
    (∃ c, m' = .spawn c ∧ q.store = p.store ∧ q.own mine = p.own mine ++ [⟨c, S.body c⟩]) ∨
    ∃ k i t x, m' = .run k i ∧ (p.own mine)[k]? = some t ∧ t ∈ p.threads ∧ mine t.call = true ∧
      t.prog.stepLeft i p.store = some x ∧ q.store = x.2.1 ∧
      q.own mine = (p.own mine).set k ⟨t.call, x.2.2⟩ := by
  cases m with
  | spawn c =>
      cases h
      rw [ownMove] at hown
      split at hown
      · next hc =>
          cases hown
          refine .inl ⟨c, rfl, rfl, ?_⟩
          simp [Pool.own, hc]
      · cases hown
  | run index i =>
      -- A call of this party keeps its place among the own calls.
      rcases run_cases h with ⟨ts₁, t, ts₂, x, hts, rfl, hstep, hstore, hq⟩
      rw [ownMove_run hts] at hown
      split at hown
      · next hmine =>
          cases hown
          refine .inr ⟨_, i, t, x, rfl, ?_, by simp [hts], hmine, hstep, hstore, ?_⟩
          · simp [Pool.own, hts, hmine]
          · simp [Pool.own, hts, hq, hmine]
      · cases hown
  | env t => cases hown

/-- The same move of the group, in two pools that are the same for it. -/
theorem same_move {p₁ p₂ q₁ q₂ : Pool σ ω ε ρ Ret} {m₁ m₂ : Move ω ρ τ}
    (hp₁ : Tame mine view p₁) (hview : view p₁.store = view p₂.store)
    (hthreads : p₁.own mine = p₂.own mine) (h₁ : p₁.move S anyStep m₁ = some q₁)
    (h₂ : p₂.move S anyStep m₂ = some q₂) (hm₁ : ownMove mine p₁.calls m₁ = some m')
    (hm₂ : ownMove mine p₂.calls m₂ = some m') :
    view q₁.store = view q₂.store ∧ q₁.own mine = q₂.own mine := by
  rcases own_cases h₁ hm₁ with ⟨c, rfl, hs₁, ho₁⟩ |
      ⟨k, i, t, x₁, rfl, hk₁, hmem, hmine, hstep₁, hs₁, ho₁⟩
  -- Both moves spawn the same call.
  · rcases own_cases h₂ hm₂ with ⟨c', heq, hs₂, ho₂⟩ | ⟨_, _, _, _, heq, _⟩
    · cases heq
      rw [hs₁, hs₂, ho₁, ho₂, hthreads]
      exact ⟨hview, rfl⟩
    · cases heq
  -- Both moves run the same own thread, on states that look alike to it.
  · rcases own_cases h₂ hm₂ with ⟨c', heq, _⟩ | ⟨k', i', t', x₂, heq, hk₂, _, _, hstep₂, hs₂, ho₂⟩
    · cases heq
    · cases heq
      rw [hthreads] at hk₁
      cases Option.some.inj (hk₁.symm.trans hk₂)
      have ht : TameThread mine view t := hp₁ t hmem
      rw [TameThread, if_pos hmine] at ht
      rcases confined_step ht hview hstep₁ hstep₂ with ⟨hview', hprog, _⟩
      rw [hs₁, hs₂, ho₁, ho₂, hthreads, hprog]
      exact ⟨hview', rfl⟩

/-- Up to the group's first move nothing changes for it, and then it makes
    that move. -/
theorem Isolating.skip (hS : Isolating S mine view) {ms rest : List (Move ω ρ τ)}
    (hp : Tame mine view p) (h : p.play S anyStep ms = some q)
    (hms : ownMoves mine p.calls ms = m' :: rest) :
    ∃ p₁ m p₂ ms', Tame mine view p₁ ∧ view p₁.store = view p.store ∧ p₁.own mine = p.own mine ∧
      p₁.move S anyStep m = some p₂ ∧ ownMove mine p₁.calls m = some m' ∧
      p₂.play S anyStep ms' = some q ∧ ownMoves mine p₂.calls ms' = rest := by
  induction ms generalizing p with
  | nil => cases hms
  | cons m ms ih =>
      rcases Option.bind_eq_some_iff.mp h with ⟨p₁, hmove, hplay⟩
      -- By induction on the moves, until the first own one is found.
      rw [ownMoves, ← calls_of_move hmove] at hms
      cases hown : ownMove mine p.calls m with
      | none =>
          rw [hown] at hms
          -- Another's move changes neither the view nor the own threads.
          rcases hS.other_move hp hmove hown with ⟨hview, hthreads⟩
          rcases ih (hS.tame_move hp hmove) hplay hms with
            ⟨p', m₁, p₂, ms', htame, hview', hthreads', hrest⟩
          exact ⟨p', m₁, p₂, ms', htame, hview'.trans hview, hthreads'.trans hthreads, hrest⟩
      | some m₁ =>
          rw [hown] at hms
          cases hms
          exact ⟨p, m, p₁, ms, hp, rfl, rfl, hmove, hown, hplay, rfl⟩

/-- Without a move of the group nothing changes for it. -/
theorem Isolating.idle (hS : Isolating S mine view) {ms : List (Move ω ρ τ)}
    (hp : Tame mine view p) (h : p.play S anyStep ms = some q)
    (hms : ownMoves mine p.calls ms = []) :
    view q.store = view p.store ∧ q.own mine = p.own mine := by
  induction ms generalizing p with
  | nil =>
      cases h
      exact ⟨rfl, rfl⟩
  | cons m ms ih =>
      rcases Option.bind_eq_some_iff.mp h with ⟨p₁, hmove, hplay⟩
      rw [ownMoves, ← calls_of_move hmove, List.append_eq_nil_iff] at hms
      have hown : ownMove mine p.calls m = none := by
        cases hown : ownMove mine p.calls m with
        | none => rfl
        | some m₁ =>
            rw [hown] at hms
            cases hms.1
      -- No move is an own one, so none of them shows.
      rcases hS.other_move hp hmove hown with ⟨hview, hthreads⟩
      rcases ih (hS.tame_move hp hmove) hplay hms.2 with ⟨hview', hthreads'⟩
      exact ⟨hview'.trans hview, hthreads'.trans hthreads⟩

/-- Runs that agree on the group's part agree on what the group sees: on the
    view of the store, and on the group's threads with their answers. -/
theorem Isolating.same_end (hS : Isolating S mine view) {p₁ p₂ q₁ q₂ : Pool σ ω ε ρ Ret}
    {ms₁ ms₂ : List (Move ω ρ τ)} (hp₁ : Tame mine view p₁) (hp₂ : Tame mine view p₂)
    (hview : view p₁.store = view p₂.store) (hthreads : p₁.own mine = p₂.own mine)
    (h₁ : p₁.play S anyStep ms₁ = some q₁) (h₂ : p₂.play S anyStep ms₂ = some q₂)
    (hms : ownMoves mine p₁.calls ms₁ = ownMoves mine p₂.calls ms₂) :
    view q₁.store = view q₂.store ∧ q₁.own mine = q₂.own mine := by
  -- The induction is on the own moves that both runs have in common.
  generalize hls : ownMoves mine p₁.calls ms₁ = ls at hms
  induction ls generalizing p₁ p₂ ms₁ ms₂ with
  | nil =>
      rcases hS.idle hp₁ h₁ hls with ⟨hv₁, ho₁⟩
      rcases hS.idle hp₂ h₂ hms.symm with ⟨hv₂, ho₂⟩
      rw [hv₁, hv₂, ho₁, ho₂]
      exact ⟨hview, hthreads⟩
  | cons m ls ih =>
      rcases hS.skip hp₁ h₁ hls with ⟨a₁, m₁, b₁, ms₁', ha₁, hv₁, ho₁, hmove₁, hm₁, hplay₁, hrest₁⟩
      rcases hS.skip hp₂ h₂ hms.symm with
        ⟨a₂, m₂, b₂, ms₂', ha₂, hv₂, ho₂, hmove₂, hm₂, hplay₂, hrest₂⟩
      have hview' : view a₁.store = view a₂.store := by rw [hv₁, hv₂, hview]
      have hthreads' : a₁.own mine = a₂.own mine := by rw [ho₁, ho₂, hthreads]
      -- Both runs stand before the same own move and see the same.
      rcases same_move ha₁ hview' hthreads' hmove₁ hmove₂ hm₁ hm₂ with ⟨hvb, hob⟩
      exact ih (hS.tame_move ha₁ hmove₁) (hS.tame_move ha₂ hmove₂) hvb hob hplay₁ hplay₂ hrest₁
        hrest₂.symm

/-- The same for runs from the start. -/
theorem isolated (hS : Isolating S mine view) {init₁ init₂ : σ} {q₁ q₂ : Pool σ ω ε ρ Ret}
    {ms₁ ms₂ : List (Move ω ρ τ)} (hview : view init₁ = view init₂)
    (h₁ : Pool.play S anyStep ⟨init₁, [], []⟩ ms₁ = some q₁)
    (h₂ : Pool.play S anyStep ⟨init₂, [], []⟩ ms₂ = some q₂)
    (hms : ownMoves mine [] ms₁ = ownMoves mine [] ms₂) :
    view q₁.store = view q₂.store ∧ q₁.own mine = q₂.own mine := by
  have htame : ∀ init : σ, Tame mine view (⟨init, [], []⟩ : Pool σ ω ε ρ Ret) :=
    fun _ _ ht => absurd ht List.not_mem_nil
  exact hS.same_end (htame init₁) (htame init₂) hview rfl h₁ h₂ hms

end Schedules

end Interleave
