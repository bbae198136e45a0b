import Sandbox.Api.Defaults

/-!
# Removed Members

A removal deletes the member's row, and only an invitation should bring it
back. But a request of a user without a row makes the user a member by
default, and Access Tokens outlive the removal. A request that has found no
row before the removal, or a change of a role that has found one, writes the
row after it, too.

## Main definitions

* `Removed`: A user was removed and not invited since.
* `quietRemovals`: The condition that removed users send no requests, and that
  no request that would write the row is halfway through a removal.
* `Inv`: What requests between their two transactions may hold.

## Theorems

* `removed_has_no_row`: A removed user has no row.
* `removed_user_returns`: Why the condition is needed.
-/

namespace Sandbox.Api.Removal

open Interleave
open Defaults (Owed Settled Lends)

/-- The user was removed and not invited since. -/
def Removed (tenantId userId : String) : History → Prop
  | [] => False
  | (_, .memberRemoved tenant user) :: h =>
      (tenant = tenantId ∧ user = userId) ∨ Removed tenantId userId h
  | (_, .memberInvited tenant user _) :: h =>
      ¬(tenant = tenantId ∧ user = userId) ∧ Removed tenantId userId h
  | (_, .memberMissing ..) :: h | (_, .memberDefaulted ..) :: h | (_, .roleChanged ..) :: h =>
      Removed tenantId userId h

instance decidableRemoved (tenantId userId : String) :
    (h : History) → Decidable (Removed tenantId userId h)
  | [] => inferInstanceAs (Decidable False)
  | (_, .memberRemoved tenant user) :: h =>
      have := decidableRemoved tenantId userId h
      inferInstanceAs (Decidable ((tenant = tenantId ∧ user = userId) ∨ Removed tenantId userId h))
  | (_, .memberInvited tenant user _) :: h =>
      have := decidableRemoved tenantId userId h
      inferInstanceAs
        (Decidable (¬(tenant = tenantId ∧ user = userId) ∧ Removed tenantId userId h))
  | (_, .memberMissing ..) :: h | (_, .memberDefaulted ..) :: h | (_, .roleChanged ..) :: h =>
      decidableRemoved tenantId userId h

/-- A removal and no invitation after it. -/
theorem removed_append {tenantId userId : String} {call : ApiCall} {earlier : History} :
    ∀ later : History, (∀ e ∈ later, ∀ role, e.2 ≠ .memberInvited tenantId userId role) →
      Removed tenantId userId (later ++ (call, .memberRemoved tenantId userId) :: earlier) := by
  intro later
  induction later with
  | nil => exact fun _ => .inl ⟨rfl, rfl⟩
  | cons e later ih =>
      intro hno
      have hrest := ih fun e he => hno e (List.mem_cons_of_mem _ he)
      rcases e with ⟨c, x⟩
      cases x with
      | memberRemoved tenant user => exact .inr hrest
      | memberInvited tenant user role =>
          -- The one event that could undo the removal is not among the later ones.
          refine ⟨fun heq => ?_, hrest⟩
          exact hno _ List.mem_cons_self role (by rw [heq.1, heq.2])
      | memberMissing tenant user => exact hrest
      | memberDefaulted tenant user => exact hrest
      | roleChanged tenant user role => exact hrest

/-- No request of a removed user comes to its look-up. Nobody is removed between
    the two transactions in which a request of theirs makes them a member, or
    in which somebody changes their role. -/
def quietRemovals : Guard ApiState ApiEvent ApiCall
  | _, h, .memberMissing tenantId userId => ¬Removed tenantId userId h
  | _, h, .memberRemoved tenantId userId => Settled (tenantId, userId) h
  -- The row the change has looked up is still there.
  | s, _, .roleChanged tenantId userId _ => ∃ m ∈ s.members, m.key = (tenantId, userId)
  | _, _, .memberDefaulted .. | _, _, .memberInvited .. => True

instance (s : ApiState) (h : History) : (e : ApiEvent) → Decidable (quietRemovals s h e)
  | .memberMissing tenantId userId => inferInstanceAs (Decidable (¬Removed tenantId userId h))
  | .memberRemoved tenantId userId => inferInstanceAs (Decidable (Settled (tenantId, userId) h))
  | .roleChanged tenantId userId _ =>
      inferInstanceAs (Decidable (∃ m ∈ s.members, m.key = (tenantId, userId)))
  | .memberDefaulted .. | .memberInvited .. => inferInstanceAs (Decidable True)

section Invariant

variable {deps : ApiDeps} {r : Multiset (String × String)} {s s' : ApiState} {h : History}

/-- Removed users have no rows, and no request is about to insert one. -/
structure Inv (r : Multiset (String × String)) (s : ApiState) (h : History) : Prop where
  owed : Owed r h
  out : ∀ tenantId userId, Removed tenantId userId h →
    (tenantId, userId) ∉ r ∧ ∀ m ∈ s.members, m.key ≠ (tenantId, userId)

def removing : Protocol (Multiset (String × String)) ApiState ApiEvent ApiCall where
  guard := quietRemovals
  Inv := Inv

/-- A row that is written is not one of a removed user, so those still have
    none. -/
theorem Inv.stored (hi : Inv r s h) {member : Member} (hs : Stored member s s')
    {tenantId userId : String} (hremoved : Removed tenantId userId h)
    (hother : member.key ≠ (tenantId, userId)) : ∀ m ∈ s'.members, m.key ≠ (tenantId, userId) := by
  intro m hm
  rw [hs] at hm
  rcases mem_upsertRow hm with rfl | ⟨hold, _⟩
  · rw [(upsertRow_fst member s.members).1]
    exact hother
  · exact (hi.out tenantId userId hremoved).2 m hold

/-- A request that finds no row is not one of a removed user. -/
theorem Inv.take (hi : Inv r s h) {key : String × String} (c : ApiCall)
    (hguard : ¬Removed key.1 key.2 h) :
    Inv (key ::ₘ r) s ((c, .memberMissing key.1 key.2) :: h) := by
  refine ⟨hi.owed.take key c, fun tenantId userId hremoved => ?_⟩
  rcases hi.out tenantId userId hremoved with ⟨hr, hrows⟩
  refine ⟨fun hmem => ?_, hrows⟩
  rcases Multiset.mem_cons.mp hmem with heq | hmem
  · subst heq
    exact hguard hremoved
  · exact hr hmem

/-- The key it gives back is not a removed user's, since those are not held. -/
theorem Inv.giveBack {tenantId userId : String} (hi : Inv ((tenantId, userId) ::ₘ r) s h)
    (c : ApiCall) (hs : Stored (defaultMember deps tenantId userId) s s') :
    Inv r s' ((c, .memberDefaulted tenantId userId) :: h) := by
  refine ⟨hi.owed.giveBack c, fun tenant user hremoved => ?_⟩
  rcases hi.out tenant user hremoved with ⟨hr, _⟩
  refine ⟨fun hmem => hr (Multiset.mem_cons_of_mem hmem), hi.stored hs hremoved fun heq => hr ?_⟩
  have hkey : (tenantId, userId) = (tenant, user) := heq
  rw [hkey]
  exact Multiset.mem_cons_self _ _

theorem Inv.administered (hi : Inv r s h) {c : ApiCall} {e : Option ApiEvent}
    (hR : administers deps s e s') (hguard : ∀ x, e = some x → quietRemovals s h x) :
    Inv r s' (logEvent c e h) := by
  refine ⟨hi.owed.administered c hR, fun tenantId userId hremoved => ?_⟩
  cases e with
  | none =>
      have hsame : s'.members = s.members := hR.1
      rw [hsame]
      exact hi.out tenantId userId hremoved
  | some x =>
      have hallowed := hguard x rfl
      cases x with
      | memberMissing tenant user => exact absurd rfl (hR.2 tenant user).1
      | memberDefaulted tenant user => exact absurd rfl (hR.2 tenant user).2
      | memberInvited tenant user role =>
          rcases hR.1 with ⟨member, hkey, _, _, hs⟩
          refine ⟨(hi.out tenantId userId hremoved.2).1, hi.stored hs hremoved.2 fun heq => ?_⟩
          exact hremoved.1 (Prod.mk.inj (hkey.symm.trans heq))
      | roleChanged tenant user role =>
          rcases hR.1 with ⟨member, hkey, _, hs⟩
          have hout := hi.out tenantId userId hremoved
          refine ⟨hout.1, hi.stored hs hremoved fun heq => ?_⟩
          -- The row it has found is there, and those of removed users are not.
          rcases hallowed with ⟨m, hm, hmkey⟩
          exact hout.2 m hm (hmkey.trans (hkey.symm.trans heq))
      | memberRemoved tenant user =>
          have hleft : s'.members = s.members.filter fun m => m.key ≠ (tenant, user) := hR.1
          rw [hleft]
          rcases hremoved with ⟨rfl, rfl⟩ | hremoved
          · refine ⟨hi.owed.not_mem hallowed, fun m hm => ?_⟩
            exact of_decide_eq_true (List.mem_filter.mp hm).2
          · rcases hi.out tenantId userId hremoved with ⟨hr, hrows⟩
            exact ⟨hr, fun m hm => hrows m (List.mem_filter.mp hm).1⟩

theorem lends_removing : Lends deps removing where
  take _ _ _ c _ hi hguard _ := Inv.take hi c hguard
  giveBack _ _ _ _ c _ _ hi hs := Inv.giveBack hi c hs
  administered _ _ _ _ _ _ hi hR hguard := Inv.administered hi hR hguard

end Invariant

section Runs

variable {deps : ApiDeps} {init : ApiState}
  {p : Pool ApiState ApiOutside ApiEvent ApiCall fun _ => ApiResponse}

/-- The users of the authorization server are no members. -/
theorem inv_env {r : Multiset (String × String)} {s s' : ApiState} {h : History} {t : ApiChange}
    (ht : (apiSystem deps).env t s = some s') (hi : Inv r s h) : Inv r s' h := by
  cases t with
  | directory users =>
      cases ht
      exact ⟨hi.owed, hi.out⟩

theorem inv_of_reachable (h : Reachable (apiSystem deps) quietRemovals init p) :
    ∃ r, Inv r p.store p.trace := by
  have hstart : Inv 0 init [] := ⟨Defaults.owed_nil, fun _ _ hremoved => hremoved.elim⟩
  have hok : PoolOk removing (fun _ _ _ => True) p :=
    poolOk_of_reachable lends_removing.handle (fun _ _ _ _ _ ht hi => inv_env ht hi) hstart h
  rcases hok with ⟨rs, _, hinv⟩
  exact ⟨rs.sum, hinv⟩

/-- A removed member stays removed. In every run in which removed users send no
    requests, and in which nobody is removed while a request is about to make
    them a member or to change their role, a user who was removed and not
    invited since has no row. -/
theorem removed_has_no_row (deps : ApiDeps) (init : ApiState)
    (p : Pool ApiState ApiOutside ApiEvent ApiCall fun _ => ApiResponse)
    (h : Reachable (apiSystem deps) quietRemovals init p) (call : ApiCall)
    (tenantId userId : String) (later earlier : History)
    (htrace : p.trace = later ++ (call, .memberRemoved tenantId userId) :: earlier)
    (hno : ∀ e ∈ later, ∀ role, e.2 ≠ .memberInvited tenantId userId role) :
    ∀ m ∈ p.store.members, m.key ≠ (tenantId, userId) := by
  rcases inv_of_reachable h with ⟨r, hi⟩
  have hremoved : Removed tenantId userId p.trace := by
    rw [htrace]
    exact removed_append later hno
  exact (hi.out tenantId userId hremoved).2

end Runs

section Example

def bobAsks : ApiCall := ⟨⟨"bob", "acme", "acme", "crm"⟩, .me⟩

def aliceRemovesBob : ApiCall := ⟨⟨"alice", "acme", "acme", "crm"⟩, .removeMember "bob"⟩

/-- A tenant with an owner and a disabled member. -/
def acme : ApiState :=
  { members := [⟨"acme", "alice", none, none, "owner", .active⟩,
      ⟨"acme", "bob", none, none, "member", .disabled⟩]
    overrides := [], endUsers := [], directory := [] }

def removal : List (Move ApiOutside ApiCall ApiChange) :=
  [.spawn aliceRemovesBob, .run 0 (.id ""), .run 0 (.id ""), .run 0 (.revoked (.ok ())),
    .run 0 (.id "")]

/-- A request with a token from before the removal. -/
def returning : List (Move ApiOutside ApiCall ApiChange) :=
  removal ++ [.spawn bobAsks, .run 1 (.id ""), .run 1 (.id "")]

theorem bob_is_removed :
    ∃ p : Pool ApiState ApiOutside ApiEvent ApiCall fun _ => ApiResponse,
      Reachable (apiSystem crmDeps) quietRemovals acme p ∧
      p.trace = [(aliceRemovesBob, .memberRemoved "acme" "bob")] ∧
      ∀ m ∈ p.store.members, m.key ≠ ("acme", "bob") := by
  rcases reachable_of_play_any (apiSystem crmDeps) quietRemovals acme removal
    (fun p => decide (p.trace = [(aliceRemovesBob, .memberRemoved "acme" "bob")]))
    (by decide +kernel) with ⟨p, hp, htest⟩
  have htrace : p.trace = [(aliceRemovesBob, .memberRemoved "acme" "bob")] :=
    of_decide_eq_true htest
  exact ⟨p, hp, htrace, removed_has_no_row crmDeps acme p hp aliceRemovesBob "acme" "bob" [] []
    htrace nofun⟩

/-- A disabled member who was removed is back with the next request, as an
    active one. -/
theorem removed_user_returns :
    ∃ p : Pool ApiState ApiOutside ApiEvent ApiCall fun _ => ApiResponse,
      Reachable (apiSystem crmDeps) anyStep acme p ∧
      (∃ later earlier, p.trace =
          later ++ (aliceRemovesBob, .memberRemoved "acme" "bob") :: earlier ∧
        ∀ e ∈ later, ∀ role, e.2 ≠ .memberInvited "acme" "bob" role) ∧
      ∃ m ∈ p.store.members, m.key = ("acme", "bob") ∧ m.status = .active := by
  rcases reachable_of_play_any (apiSystem crmDeps) anyStep acme returning
    (fun p => decide (p.trace = [(bobAsks, .memberDefaulted "acme" "bob"),
        (bobAsks, .memberMissing "acme" "bob"),
        (aliceRemovesBob, .memberRemoved "acme" "bob")] ∧
      ∃ m ∈ p.store.members, m.key = ("acme", "bob") ∧ m.status = .active))
    (by decide +kernel) with ⟨p, hp, htest⟩
  rcases of_decide_eq_true htest with ⟨htrace, hrow⟩
  refine ⟨p, hp, ⟨[(bobAsks, .memberDefaulted "acme" "bob"),
    (bobAsks, .memberMissing "acme" "bob")], [], htrace, ?_⟩, hrow⟩
  intro e he role
  rcases List.mem_cons.mp he with rfl | he
  · nofun
  · rw [List.mem_singleton.mp he]
    nofun

end Example

end Sandbox.Api.Removal
