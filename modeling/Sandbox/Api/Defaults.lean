import Mathlib.Algebra.Order.Group.Multiset
import Sandbox.Api.Effects

/-!
# Members by Default

A user without a row becomes a member in the default role with the first
request. The request looks the row up in one transaction and inserts it in
another, and the insertion updates a row that is there by then. So somebody
who is invited in between loses the role of the invitation.

Nothing is lost in runs in which nobody is invited into another role, or
given another role, while a request of theirs is between the two.

## Main definitions

* `Settled`: No request of a user is between the two transactions.
* `settledWrites`: Only settled users are given other roles.
* `Owed`: The keys that requests between the two transactions hold.
* `Lends`: The protocols under which they may hold them.

## Theorems

* `default_keeps_role`: What a default insertion leaves of the rows.
* `invitation_is_overwritten`: Why the condition is needed.
-/

namespace Sandbox.Api.Defaults

open Interleave

/-- How often a request of a user found no row. -/
def missing (key : String × String) (h : History) : Nat :=
  h.countP fun e => e.2 = .memberMissing key.1 key.2

/-- How often a request of a user inserted one. -/
def defaulted (key : String × String) (h : History) : Nat :=
  h.countP fun e => e.2 = .memberDefaulted key.1 key.2

/-- Every request of the user that found no row has inserted one. -/
def Settled (key : String × String) (h : History) : Prop := missing key h = defaulted key h

instance (key : String × String) (h : History) : Decidable (Settled key h) :=
  inferInstanceAs (Decidable (missing key h = defaulted key h))

/-- Users are given other roles than the default one when they are settled. -/
def settledWrites (deps : ApiDeps) : Guard ApiState ApiEvent ApiCall
  | _, h, .memberInvited tenantId userId role =>
      role = deps.definition.defaultRole ∨ Settled (tenantId, userId) h
  | _, h, .roleChanged tenantId userId _ => Settled (tenantId, userId) h
  | _, _, .memberMissing .. | _, _, .memberDefaulted .. | _, _, .memberRemoved .. => True

instance (deps : ApiDeps) (s : ApiState) (h : History) :
    (e : ApiEvent) → Decidable (settledWrites deps s h e)
  | .memberInvited tenantId userId role =>
      inferInstanceAs (Decidable (role = _ ∨ Settled (tenantId, userId) h))
  | .roleChanged tenantId userId _ => inferInstanceAs (Decidable (Settled (tenantId, userId) h))
  | .memberMissing .. | .memberDefaulted .. | .memberRemoved .. =>
      inferInstanceAs (Decidable True)

section Owed

variable {deps : ApiDeps} {r : Multiset (String × String)} {s s' : ApiState} {h : History}

/-- Requests in progress hold the keys they found no row for. -/
def Owed (r : Multiset (String × String)) (h : History) : Prop :=
  ∀ key, r.count key + defaulted key h = missing key h

theorem owed_nil : Owed 0 [] := by
  intro key
  rw [Multiset.count_zero]
  rfl

/-- Nobody holds the key of a settled user. -/
theorem Owed.not_mem (howed : Owed r h) {key : String × String} (hsettled : Settled key h) :
    key ∉ r := by
  have howed := howed key
  unfold Settled at hsettled
  rw [← Multiset.count_eq_zero]
  omega

/-- The administration of members neither looks rows up for requests nor
    inserts default ones. -/
theorem Owed.administered (howed : Owed r h) {e : Option ApiEvent} (c : ApiCall)
    (hR : administers deps s e s') : Owed r (logEvent c e h) := by
  intro key
  have hcounts : missing key (logEvent c e h) = missing key h ∧
      defaulted key (logEvent c e h) = defaulted key h := by
    cases e with
    | none => exact ⟨rfl, rfl⟩
    | some x =>
        have hno := hR.2 key.1 key.2
        refine ⟨List.countP_cons_of_neg ?_, List.countP_cons_of_neg ?_⟩
        · exact fun hx => hno.1 (congrArg some (of_decide_eq_true hx))
        · exact fun hx => hno.2 (congrArg some (of_decide_eq_true hx))
  rw [hcounts.1, hcounts.2, howed key]

/-- A request that finds no row takes the key. -/
theorem Owed.take (howed : Owed r h) (key : String × String) (c : ApiCall) :
    Owed (key ::ₘ r) ((c, .memberMissing key.1 key.2) :: h) := by
  intro key'
  have howed := howed key'
  have hdefaulted : defaulted key' ((c, .memberMissing key.1 key.2) :: h) = defaulted key' h :=
    List.countP_cons_of_neg (by simp)
  rw [hdefaulted]
  by_cases heq : key' = key
  · subst heq
    have hmissing : missing key' ((c, .memberMissing key'.1 key'.2) :: h) = missing key' h + 1 :=
      List.countP_cons_of_pos (by simp)
    rw [hmissing, Multiset.count_cons_self]
    omega
  · have hmissing : missing key' ((c, .memberMissing key.1 key.2) :: h) = missing key' h := by
      refine List.countP_cons_of_neg fun hx => heq ?_
      rcases ApiEvent.memberMissing.inj (of_decide_eq_true hx) with ⟨h₁, h₂⟩
      exact Prod.ext h₁.symm h₂.symm
    rw [hmissing, Multiset.count_cons_of_ne heq, howed]

/-- It gives the key back when it inserts the row. -/
theorem Owed.giveBack {tenantId userId : String} (howed : Owed ((tenantId, userId) ::ₘ r) h)
    (c : ApiCall) : Owed r ((c, .memberDefaulted tenantId userId) :: h) := by
  intro key
  have howed := howed key
  have hmissing : missing key ((c, .memberDefaulted tenantId userId) :: h) = missing key h :=
    List.countP_cons_of_neg (by simp)
  rw [hmissing]
  by_cases heq : key = (tenantId, userId)
  · subst heq
    have hdefaulted : defaulted (tenantId, userId) ((c, .memberDefaulted tenantId userId) :: h) =
        defaulted (tenantId, userId) h + 1 := List.countP_cons_of_pos (by simp)
    rw [Multiset.count_cons_self] at howed
    rw [hdefaulted]
    omega
  -- The row of another user is owed as often as before.
  · have hdefaulted : defaulted key ((c, .memberDefaulted tenantId userId) :: h) =
        defaulted key h := by
      refine List.countP_cons_of_neg fun hx => heq ?_
      rcases ApiEvent.memberDefaulted.inj (of_decide_eq_true hx) with ⟨h₁, h₂⟩
      exact Prod.ext h₁.symm h₂.symm
    rw [Multiset.count_cons_of_ne heq] at howed
    rw [hdefaulted, howed]

/-- What a protocol about the members has to allow: a request takes a key in
    its first transaction and gives it back in its second, and the
    administration of members does neither. -/
structure Lends (deps : ApiDeps)
    (P : Protocol (Multiset (String × String)) ApiState ApiEvent ApiCall) : Prop where
  take : ∀ r s h c (key : String × String), P.Inv r s h →
    P.guard s h (.memberMissing key.1 key.2) → (∀ m ∈ s.members, m.key ≠ key) →
    P.Inv (key ::ₘ r) s ((c, .memberMissing key.1 key.2) :: h)
  giveBack : ∀ r s s' h c tenantId userId, P.Inv ((tenantId, userId) ::ₘ r) s h →
    Stored (defaultMember deps tenantId userId) s s' →
    P.Inv r s' ((c, .memberDefaulted tenantId userId) :: h)
  administered : ∀ r s s' h c e, P.Inv r s h → administers deps s e s' →
    (∀ x, e = some x → P.guard s h x) → P.Inv r s' (logEvent c e h)

variable {P : Protocol (Multiset (String × String)) ApiState ApiEvent ApiCall}

theorem Lends.requestMember (hP : Lends deps P) (c : ApiCall) (tenantId userId : String) :
    Safe P c (requestMember deps tenantId userId) 0 fun _ r => r = 0 := by
  refine safe_bind ?_
  intro F s h i found s' hinv hrun hguard
  cases hrun
  rw [zero_add] at hinv
  cases hfound : Members.lookup s (tenantId, userId) with
  | some found =>
      refine ⟨0, ?_, rfl⟩
      rw [zero_add]
      exact hinv
  | none =>
      -- A row is owed from the look-up in vain until the insert.
      refine ⟨{(tenantId, userId)}, ?_, ?_⟩
      · rw [hfound] at hguard
        refine hP.take F s h c (tenantId, userId) hinv (hguard _ rfl) fun m hm hkey => ?_
        rw [Members.lookup, Option.map_eq_none_iff] at hfound
        exact List.find?_eq_none.mp hfound m hm (decide_eq_true hkey)
      · refine safe_bind ?_
        intro F s h i member s' hinv hrun _
        cases hrun
        refine ⟨0, ?_, rfl⟩
        rw [zero_add]
        exact hP.giveBack F s _ h c tenantId userId hinv rfl

theorem Lends.handle (hP : Lends deps P) (call : ApiCall) :
    Safe P call (handle deps call) 0 fun _ _ => True := by
  rw [handle_eq]
  refine safe_seq (hP.requestMember call _ _) fun found r hr => ?_
  have hrest : Administers deps (afterMember deps call found) :=
    (blocks_of_administers (fun _ _ _ h => h) _).afterMember found
  have hkeeps : ∀ r s e s' h, administers deps s e s' →
      (∀ x, e = some x → P.guard s h x) → P.Inv r s h → P.Inv r s' (logEvent call e h) :=
    fun r s e s' h hR hguard hi => hP.administered r s s' h call e hi hR hguard
  exact safe_mono (safe_effects hrest hkeeps r) fun _ _ _ => trivial

end Owed

section Invariant

variable {deps : ApiDeps} {r : Multiset (String × String)} {s s' : ApiState} {h : History}

/-- A row as a default insertion leaves it. -/
def IsDefault (deps : ApiDeps) (m : Member) : Prop :=
  m.role = deps.definition.defaultRole ∧ m.status = .active

/-- Requests in progress hold the keys they found no row for. Until they have
    inserted one, others are only inserted in the same way. -/
structure Inv (deps : ApiDeps) (r : Multiset (String × String)) (s : ApiState) (h : History) :
    Prop where
  owed : Owed r h
  default : ∀ m ∈ s.members, m.key ∈ r → IsDefault deps m

def writing (deps : ApiDeps) : Protocol (Multiset (String × String)) ApiState ApiEvent ApiCall where
  guard := settledWrites deps
  Inv := Inv deps

/-- After an insertion or update that is allowed, rows under held keys are
    still default ones. -/
theorem Inv.stored (hi : Inv deps r s h) {member : Member} (hs : Stored member s s')
    (hmember : member.key ∈ r → IsDefault deps member) {m : Member} (hm : m ∈ s'.members)
    (hkey : m.key ∈ r) : IsDefault deps m := by
  rw [hs] at hm
  rcases mem_upsertRow hm with rfl | ⟨hold, _⟩
  · rcases upsertRow_fst member s.members with ⟨hkey', hrole, hstatus⟩
    rw [hkey'] at hkey
    unfold IsDefault
    rw [hrole, hstatus]
    exact hmember hkey
  · exact hi.default m hold hkey

theorem Inv.administered (hi : Inv deps r s h) {c : ApiCall} {e : Option ApiEvent}
    (hR : administers deps s e s') (hguard : ∀ x, e = some x → settledWrites deps s h x) :
    Inv deps r s' (logEvent c e h) := by
  refine ⟨hi.owed.administered c hR, fun m hm hkey => ?_⟩
  · cases e with
    | none =>
        have hsame : s'.members = s.members := hR.1
        exact hi.default m (hsame ▸ hm) hkey
    | some x =>
        have hallowed := hguard x rfl
        cases x with
        | memberMissing tenantId userId => exact absurd rfl (hR.2 tenantId userId).1
        | memberDefaulted tenantId userId => exact absurd rfl (hR.2 tenantId userId).2
        -- An invitation of another role awaits every pending insert.
        | memberInvited tenantId userId role =>
            rcases hR.1 with ⟨member, hmember, hrole, hstatus, hs⟩
            refine hi.stored hs (fun hheld => ?_) hm hkey
            rcases hallowed with hdefault | hsettled
            · exact ⟨hrole.trans hdefault, hstatus⟩
            · exact absurd (hmember ▸ hheld) (hi.owed.not_mem hsettled)
        -- So does a change of the role.
        | roleChanged tenantId userId role =>
            rcases hR.1 with ⟨member, hmember, _, hs⟩
            refine hi.stored hs (fun hheld => ?_) hm hkey
            exact absurd (hmember ▸ hheld) (hi.owed.not_mem hallowed)
        | memberRemoved tenantId userId =>
            have hleft : s'.members = _ := hR.1
            rw [hleft] at hm
            exact hi.default m (List.mem_filter.mp hm).1 hkey

/-- There is no row yet when a request takes the key. -/
theorem Inv.take (hi : Inv deps r s h) {key : String × String} (c : ApiCall)
    (hnone : ∀ m ∈ s.members, m.key ≠ key) :
    Inv deps (key ::ₘ r) s ((c, .memberMissing key.1 key.2) :: h) := by
  refine ⟨hi.owed.take key c, fun m hm hkey => ?_⟩
  rcases Multiset.mem_cons.mp hkey with hkey | hkey
  · exact absurd hkey (hnone m hm)
  · exact hi.default m hm hkey

/-- It inserts a default row when it gives the key back. -/
theorem Inv.giveBack {tenantId userId : String} (hi : Inv deps ((tenantId, userId) ::ₘ r) s h)
    (c : ApiCall) (hs : Stored (defaultMember deps tenantId userId) s s') :
    Inv deps r s' ((c, .memberDefaulted tenantId userId) :: h) :=
  ⟨hi.owed.giveBack c, fun _ hm hkey =>
    hi.stored hs (fun _ => ⟨rfl, rfl⟩) hm (Multiset.mem_cons_of_mem hkey)⟩

theorem lends_writing : Lends deps (writing deps) where
  take _ _ _ c _ hi _ hnone := Inv.take hi c hnone
  giveBack _ _ _ _ c _ _ hi hs := Inv.giveBack hi c hs
  administered _ _ _ _ _ _ hi hR hguard := Inv.administered hi hR hguard

end Invariant

section Runs

variable {deps : ApiDeps} {init : ApiState}
  {p q : Pool ApiState ApiOutside ApiEvent ApiCall fun _ => ApiResponse}

theorem inv_start (init : ApiState) : Inv deps 0 init [] where
  owed := owed_nil
  default _ _ hkey := absurd hkey (Multiset.notMem_zero _)

/-- The users of the authorization server are no members. -/
theorem inv_env {r : Multiset (String × String)} {s s' : ApiState} {h : History} {t : ApiChange}
    (ht : (apiSystem deps).env t s = some s') (hi : Inv deps r s h) : Inv deps r s' h := by
  cases t with
  | directory users =>
      cases ht
      exact ⟨hi.owed, hi.default⟩

theorem inv_of_reachable (h : Reachable (apiSystem deps) (settledWrites deps) init p) :
    ∃ r, Inv deps r p.store p.trace := by
  have hok : PoolOk (writing deps) (fun _ _ _ => True) p :=
    poolOk_of_reachable lends_writing.handle (fun _ _ _ _ _ ht hi => inv_env ht hi)
      (inv_start init) h
  rcases hok with ⟨rs, _, hinv⟩
  exact ⟨rs.sum, hinv⟩

/-- Becoming a member by default takes nothing away. In every run in which
    users are given other roles than the default one only while none of their
    requests is between finding no row and inserting one, an insertion of a
    default row leaves every row that there is, in its role and with its
    status. -/
theorem default_keeps_role (deps : ApiDeps) (init : ApiState)
    (p q : Pool ApiState ApiOutside ApiEvent ApiCall fun _ => ApiResponse)
    (hp : Reachable (apiSystem deps) (settledWrites deps) init p)
    (hstep : PoolStep (apiSystem deps) (settledWrites deps) p q)
    (call : ApiCall) (tenantId userId : String)
    (hevent : q.trace = (call, .memberDefaulted tenantId userId) :: p.trace) :
    ∀ m ∈ p.store.members, ∃ m' ∈ q.store.members,
      m'.key = m.key ∧ m'.role = m.role ∧ m'.status = m.status := by
  rcases inv_of_reachable hp with ⟨r, hi⟩
  rcases inv_of_reachable (.tail hp hstep) with ⟨r', hi'⟩
  -- One default insertion more is one key less, so the key was held.
  have hheld : (tenantId, userId) ∈ r := by
    have howed := hi.owed (tenantId, userId)
    have howed' := hi'.owed (tenantId, userId)
    have hmissing : missing (tenantId, userId) q.trace = missing (tenantId, userId) p.trace := by
      rw [hevent]
      exact List.countP_cons_of_neg (by simp)
    have hdefaulted : defaulted (tenantId, userId) q.trace =
        defaulted (tenantId, userId) p.trace + 1 := by
      rw [hevent]
      exact List.countP_cons_of_pos (by simp)
    rw [← Multiset.one_le_count_iff_mem]
    omega
  have hstored : Stored (defaultMember deps tenantId userId) p.store q.store := by
    rcases poolStep_effects (effects_of_reachable effects_handle hp) hstep with
      ⟨hsame, _⟩ | ⟨c, x, hlog, _, hR⟩
    · rw [hevent] at hsame
      exact absurd (congrArg List.length hsame) (by simp)
    · rw [hevent] at hlog
      cases hlog
      exact hR
  intro m hm
  by_cases hkey : m.key = (tenantId, userId)
  · rcases hi.default m hm (hkey ▸ hheld) with ⟨hrole, hstatus⟩
    rcases upsertRow_fst (defaultMember deps tenantId userId) p.store.members with
      ⟨hkey', hrole', hstatus'⟩
    refine ⟨_, hstored ▸ mem_upsertRow_self _ _, ?_, ?_, ?_⟩
    · rw [hkey', hkey]
      rfl
    · rw [hrole', hrole]
      rfl
    · rw [hstatus', hstatus]
      rfl
  · exact ⟨m, hstored ▸ mem_upsertRow_of_ne hm hkey, rfl, rfl, rfl⟩

end Runs

section Example

def bobAsks : ApiCall := ⟨⟨"bob", "acme", "acme", "crm"⟩, .me⟩

def aliceInvitesBob : ApiCall :=
  ⟨⟨"alice", "acme", "acme", "crm"⟩, .inviteMember ⟨"bob@example.com", none, "admin"⟩⟩

/-- A tenant with an owner. -/
def acme : ApiState :=
  { members := [⟨"acme", "alice", none, none, "owner", .active⟩], overrides := [], endUsers := []
    directory := [⟨"bob", "bob@example.com", none, true⟩] }

/-- A request of somebody who is no member yet, up to its insertion. -/
def firstRequest : List (Move ApiOutside ApiCall ApiChange) :=
  [.spawn bobAsks, .run 0 (.id "")]

/-- Somebody is invited as an administrator in the middle of a request. -/
def invitedMeanwhile : List (Move ApiOutside ApiCall ApiChange) :=
  firstRequest ++ [.spawn aliceInvitesBob, .run 1 (.id ""),
    .run 1 (.invited (.ok ⟨"bob", "bob@example.com", none, true⟩)), .run 1 (.id "")]

/-- The owner's row is left as it is. -/
theorem alice_stays_owner :
    ∃ p q : Pool ApiState ApiOutside ApiEvent ApiCall fun _ => ApiResponse,
      Reachable (apiSystem crmDeps) (settledWrites crmDeps) acme p ∧
      q.trace = (bobAsks, .memberDefaulted "acme" "bob") :: p.trace ∧
      ∀ m ∈ p.store.members, ∃ m' ∈ q.store.members,
        m'.key = m.key ∧ m'.role = m.role ∧ m'.status = m.status := by
  rcases poolStep_of_play_any (apiSystem crmDeps) (settledWrites crmDeps) acme firstRequest
    (.run 0 (.id ""))
    (fun p q => decide (q.trace = (bobAsks, .memberDefaulted "acme" "bob") :: p.trace))
    (by decide +kernel) with ⟨p, q, hp, hstep, htest⟩
  have hevent : q.trace = (bobAsks, .memberDefaulted "acme" "bob") :: p.trace :=
    of_decide_eq_true htest
  exact ⟨p, q, hp, hevent, default_keeps_role crmDeps acme p q hp hstep bobAsks "acme" "bob" hevent⟩

/-- Whoever is invited in between loses the role of the invitation. -/
theorem invitation_is_overwritten :
    ∃ p q : Pool ApiState ApiOutside ApiEvent ApiCall fun _ => ApiResponse,
      Reachable (apiSystem crmDeps) anyStep acme p ∧
      PoolStep (apiSystem crmDeps) anyStep p q ∧
      q.trace = (bobAsks, .memberDefaulted "acme" "bob") :: p.trace ∧
      ∃ m ∈ p.store.members, ∀ m' ∈ q.store.members, m'.key = m.key → m'.role ≠ m.role := by
  rcases poolStep_of_play_any (apiSystem crmDeps) anyStep acme invitedMeanwhile
    (.run 0 (.id ""))
    (fun p q => decide (q.trace = (bobAsks, .memberDefaulted "acme" "bob") :: p.trace ∧
      ∃ m ∈ p.store.members, ∀ m' ∈ q.store.members, m'.key = m.key → m'.role ≠ m.role))
    (by decide +kernel) with ⟨p, q, hp, hstep, htest⟩
  exact ⟨p, q, hp, hstep, of_decide_eq_true htest⟩

end Example

end Sandbox.Api.Defaults
