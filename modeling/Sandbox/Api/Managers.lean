import Sandbox.Api.Alone

/-!
# The Managers of a Tenant

Who may administer the members of a tenant is decided by the role and the
overrides in their rows. A tenant without such a member is locked out: nobody
can give the permission back.

Nobody can remove themselves, so a removal always leaves a manager, the one
who asked for it. Nothing of the kind is checked for a change of a role, a
replacement of overrides, or an invitation of a member, which gives the role
of the invitation. They leave a manager if there is another one, or if the
permission is among those they leave.

## Main definitions

* `IsManager`, `HasManager`: The members who may administer the members.
* `sparesManagers`: The condition on a request.

## Theorems

* `manager_remains`: A tenant that has a manager keeps one.
* `owner_locks_out`: Why the condition is needed.
-/

namespace Sandbox.Api.Managers

open Interleave

abbrev manage : String := "members:manage"

section Managers

/-- An active member whose role and overrides permit to administer the
    members. -/
def IsManager (deps : ApiDeps) (s : ApiState) (m : Member) : Prop :=
  m.status = .active ∧
    manage ∈ resolvePermissions deps.definition m.role (Members.overridesOf s m.key)

def HasManager (deps : ApiDeps) (s : ApiState) (tenantId : String) : Prop :=
  ∃ m ∈ s.members, m.tenantId = tenantId ∧ IsManager deps s m

/-- There is a manager besides a user. -/
def HasOther (deps : ApiDeps) (s : ApiState) (tenantId userId : String) : Prop :=
  ∃ m ∈ s.members, m.tenantId = tenantId ∧ m.userId ≠ userId ∧ IsManager deps s m

/-- A user is left with the permission, or there is another manager. -/
def Spares (deps : ApiDeps) (s : ApiState) (tenantId userId role : String)
    (overrides : List PermissionOverride) : Prop :=
  manage ∈ resolvePermissions deps.definition role overrides ∨
    HasOther deps s tenantId userId

/-- What a request of a tenant asks for leaves a manager. -/
def sparesManagers (deps : ApiDeps) (tenantId : String) (s : ApiState) :
    Happening ApiEvent ApiCall ApiChange (fun _ => ApiResponse) → Prop
  | .call c _ es => c.claims.tenantId = tenantId →
      match c.operation with
      | .inviteMember input => ∀ userId, .memberInvited tenantId userId input.role ∈ es →
          Spares deps s tenantId userId input.role (Members.overridesOf s (tenantId, userId))
      | .changeRole userId role =>
          Spares deps s tenantId userId role (Members.overridesOf s (tenantId, userId))
      | .replaceOverrides userId overrides => ∀ m ∈ s.members, m.key = (tenantId, userId) →
          Spares deps s tenantId userId m.role overrides
      | _ => True
  | .env _ => True

instance (deps : ApiDeps) (s : ApiState) (m : Member) : Decidable (IsManager deps s m) :=
  inferInstanceAs (Decidable (_ ∧ _))

instance (deps : ApiDeps) (s : ApiState) (tenantId : String) :
    Decidable (HasManager deps s tenantId) :=
  inferInstanceAs (Decidable (∃ m ∈ s.members, m.tenantId = tenantId ∧ IsManager deps s m))

instance (deps : ApiDeps) (s : ApiState) (tenantId userId : String) :
    Decidable (HasOther deps s tenantId userId) :=
  inferInstanceAs
    (Decidable (∃ m ∈ s.members, m.tenantId = tenantId ∧ m.userId ≠ userId ∧ IsManager deps s m))

variable {deps : ApiDeps} {s s' : ApiState} {tenantId userId : String} {m member : Member}

/-- A manager whose overrides are left is still one. -/
theorem IsManager.of_overrides (h : IsManager deps s m)
    (ho : s'.overrides.filter (·.key = m.key) = s.overrides.filter (·.key = m.key)) :
    IsManager deps s' m := by
  refine ⟨h.1, ?_⟩
  rw [overridesOf_congr ho]
  exact h.2

/-- A row is written. Managers under other keys stay, so only the row's own
    matters. -/
theorem hasManager_stored (hm : HasManager deps s tenantId) (hs : Stored member s s')
    (ho : s'.overrides = s.overrides)
    (hself : ∀ m ∈ s.members, m.key = member.key → m.tenantId = tenantId →
      IsManager deps s m → member.status = .active ∧
        Spares deps s tenantId member.userId member.role
          (Members.overridesOf s member.key)) :
    HasManager deps s' tenantId := by
  have hstays : ∀ m ∈ s.members, m.key ≠ member.key → m.tenantId = tenantId →
      IsManager deps s m → HasManager deps s' tenantId := by
    intro m hm hne htenant hmanager
    exact ⟨m, hs ▸ mem_upsertRow_of_ne hm hne, htenant, hmanager.of_overrides (by rw [ho])⟩
  -- The manager is the row that is stored, or one it leaves alone.
  rcases hm with ⟨m, hm, htenant, hmanager⟩
  by_cases hkey : m.key = member.key
  · rcases hself m hm hkey htenant hmanager with ⟨hactive, hgranted | hother⟩
    · -- The row itself is a manager's now.
      rcases upsertRow_fst member s.members with ⟨hkey', hrole, hstatus⟩
      refine ⟨_, hs ▸ mem_upsertRow_self member s.members, ?_, hstatus.trans hactive, ?_⟩
      · exact (Prod.mk.inj (hkey'.trans hkey.symm)).1.trans htenant
      · rw [hkey', hrole, overridesOf_eq ho]
        exact hgranted
    · rcases hother with ⟨other, hmem, htenant', huser, hmanager'⟩
      exact hstays other hmem (fun heq => huser (Prod.mk.inj heq).2) htenant' hmanager'
  · exact hstays m hm hkey htenant hmanager

end Managers

section Steps

variable {deps : ApiDeps} {s s' : ApiState} {tenantId userId : String} {es : List ApiEvent}
  {found : MemberWithOverrides}

theorem HasManager.afterFound (hm : HasManager deps s tenantId) {tenant : String}
    (h : FoundBy deps s tenant userId found es s') : HasManager deps s' tenantId := by
  cases h with
  | there _ => exact hm
  | inserted hnone =>
      refine hasManager_stored hm (stored_default hnone) rfl fun m hm hkey _ _ => ?_
      exact absurd hkey (hnone m hm)

theorem HasOther.afterFound (hm : HasOther deps s tenantId userId) {tenant user : String}
    (h : FoundBy deps s tenant user found es s') : HasOther deps s' tenantId userId := by
  cases h with
  | there _ => exact hm
  | inserted hnone =>
      rcases hm with ⟨m, hmem, htenant, huser, hmanager⟩
      exact ⟨m, List.mem_append_left _ hmem, htenant, huser, hmanager.of_overrides rfl⟩

/-- A request's member that may administer members is a manager. -/
theorem isManager_of_found (hs : Consistent s) {user : String}
    (h : FoundBy deps s tenantId user found es s') (hactive : found.member.status = .active)
    (hmay : manage ∈ resolvePermissions deps.definition found.member.role found.overrides) :
    ∃ m ∈ s'.members, m.key = (tenantId, user) ∧ IsManager deps s' m := by
  cases h with
  | there hlookup =>
      rcases Option.map_eq_some_iff.mp hlookup with ⟨m, hfind, rfl⟩
      have hkey : m.key = (tenantId, user) := key_of_found hfind
      refine ⟨m, List.mem_of_find?_eq_some hfind, hkey, hactive, ?_⟩
      rw [hkey]
      exact hmay
  | inserted hnone =>
      refine ⟨_, List.mem_append_right _ (List.mem_singleton.mpr rfl), rfl, rfl, ?_⟩
      -- A user without a row has no overrides either, so the default role decides.
      have hnil : Members.overridesOf s (tenantId, user) = [] := hs.overridesOf_eq_nil hnone
      have hsame : ∀ members : List Member,
          Members.overridesOf { s with members := members } (tenantId, user) =
            Members.overridesOf s (tenantId, user) := fun _ => rfl
      rw [show (defaultMember deps tenantId user).key = (tenantId, user) from rfl, hsame, hnil]
      exact hmay

/-- The condition on an operation in the state in which it is done. -/
def SparesIn (deps : ApiDeps) (s : ApiState) (tenantId : String) (es : List ApiEvent) :
    Operation → Prop
  | .inviteMember input => ∀ userId, .memberInvited tenantId userId input.role ∈ es →
      Spares deps s tenantId userId input.role (Members.overridesOf s (tenantId, userId))
  | .changeRole userId role =>
      Spares deps s tenantId userId role (Members.overridesOf s (tenantId, userId))
  | .replaceOverrides userId overrides => ∀ m ∈ s.members, m.key = (tenantId, userId) →
      Spares deps s tenantId userId m.role overrides
  | _ => True

/-- An operation leaves a manager. One that removes a member is asked for by
    somebody else, who is a manager. -/
theorem HasManager.afterOperation {ctx : TenantContext} {operation : Operation}
    (hm : HasManager deps s tenantId) (hs : Consistent s)
    (h : Administered s ctx operation es s')
    (hactor : operation.permission = some manage →
      ∃ m ∈ s.members, m.key = (ctx.tenantId, ctx.userId) ∧ IsManager deps s m)
    (hspares : ctx.tenantId = tenantId → SparesIn deps s tenantId es operation) :
    HasManager deps s' tenantId := by
  cases h with
  | nothing hmem ho =>
      rcases hm with ⟨m, hm, htenant, hmanager⟩
      exact ⟨m, hmem ▸ hm, htenant, hmanager.of_overrides (by rw [ho])⟩
  | invited user hstored ho =>
      refine hasManager_stored hm hstored ho fun m _ hkey htenant _ => ⟨rfl, ?_⟩
      have hctx : ctx.tenantId = tenantId := (Prod.mk.inj hkey).1.symm.trans htenant
      subst hctx
      exact hspares rfl user.userId List.mem_cons_self
  | @roleChanged userId role _ existing hfound hstored ho =>
      have hkey : existing.key = (ctx.tenantId, userId) := key_of_found hfound
      refine hasManager_stored hm hstored ho fun m hmem hsame htenant hmanager => ?_
      -- The row that is written back is the manager's own.
      have heq : m = existing := Tables.unique_row hs.keys hmem
        (List.mem_of_find?_eq_some hfound) (congrArg some hsame) rfl
      subst heq
      have hctx : ctx.tenantId = tenantId := (Prod.mk.inj hkey).1.symm.trans htenant
      subst hctx
      have huser : m.userId = userId := (Prod.mk.inj hkey).2
      subst huser
      refine ⟨hmanager.1, ?_⟩
      have hspared : Spares deps s ctx.tenantId m.userId role
          (Members.overridesOf s (ctx.tenantId, m.userId)) := hspares rfl
      have hwritten : ({ m with role := role } : Member).key = (ctx.tenantId, m.userId) := hkey
      rw [hwritten]
      exact hspared
  | @replaced userId overrides rows existing hfound hrows =>
      have hstays : ∀ m ∈ s.members, m.key ≠ (ctx.tenantId, userId) → m.tenantId = tenantId →
          IsManager deps s m → HasManager deps { s with overrides := rows } tenantId := by
        intro m hm hne htenant hmanager
        refine ⟨m, hm, htenant, hmanager.of_overrides ?_⟩
        refine Members.filter_replaceRows hrows fun row hkey => decide_eq_false fun heq => ?_
        exact hne (heq.symm.trans hkey)
      rcases hm with ⟨m, hm, htenant, hmanager⟩
      by_cases hkey : m.key = (ctx.tenantId, userId)
      · have hctx : ctx.tenantId = tenantId := (Prod.mk.inj hkey).1.symm.trans htenant
        subst hctx
        rcases hspares rfl m hm hkey with hgranted | ⟨other, hmem, htenant', huser, hmanager'⟩
        · refine ⟨m, hm, htenant, hmanager.1, ?_⟩
          rw [hkey, resolvePermissions_congr (mem_overridesOf_replaced hrows)]
          exact hgranted
        · exact hstays other hmem (fun heq => huser (Prod.mk.inj heq).2) htenant' hmanager'
      · exact hstays m hm hkey htenant hmanager
  | @removed userId hother =>
      have hstays : ∀ m ∈ s.members, m.key ≠ (ctx.tenantId, userId) → m.tenantId = tenantId →
          IsManager deps s m → HasManager deps { s with
            members := s.members.filter fun m => m.key ≠ (ctx.tenantId, userId)
            overrides := s.overrides.filter fun row => row.key ≠ (ctx.tenantId, userId) }
            tenantId := by
        intro m hm hne htenant hmanager
        refine ⟨m, List.mem_filter.mpr ⟨hm, decide_eq_true hne⟩, htenant,
          hmanager.of_overrides ?_⟩
        rw [List.filter_filter]
        refine List.filter_congr fun row _ => ?_
        by_cases hrow : row.key = m.key
        · rw [decide_eq_true hrow, decide_eq_true (hrow ▸ hne), Bool.and_self]
        · rw [decide_eq_false hrow, Bool.false_and]
      rcases hm with ⟨m, hm, htenant, hmanager⟩
      by_cases hkey : m.key = (ctx.tenantId, userId)
      · rcases hactor rfl with ⟨actor, hmem, hactorKey, hmanager'⟩
        have htenant' : actor.tenantId = tenantId :=
          ((Prod.mk.inj hactorKey).1.trans (Prod.mk.inj hkey).1.symm).trans htenant
        refine hstays actor hmem (fun heq => hother ?_) htenant' hmanager'
        exact (Prod.mk.inj (heq.symm.trans hactorKey)).2
      · exact hstays m hm hkey htenant hmanager

/-- The condition on a request holds in the state in which its operation is
    done. -/
theorem sparesIn_of_found {call : ApiCall} {a : ApiResponse} {es₁ es₂ : List ApiEvent}
    (hm : HasManager deps s tenantId)
    (hfound : FoundBy deps s tenantId call.claims.userId found es₁ s')
    (htenant : call.claims.tenantId = tenantId)
    (hok : sparesManagers deps tenantId s (.call call a (es₂ ++ es₁))) :
    SparesIn deps s' tenantId es₂ call.operation := by
  -- Another manager is still one after the member of the request is resolved.
  have hspares : ∀ {user role : String} {overrides : List PermissionOverride},
      Spares deps s tenantId user role overrides → Spares deps s' tenantId user role overrides :=
    fun h => h.imp_right fun hother => hother.afterFound hfound
  have hrequest := hok htenant
  -- Invitation, role change and overrides each ask for a manager beside theirs.
  unfold SparesIn
  split
  · next input hop =>
      rw [hop] at hrequest
      intro userId he
      have h := hrequest userId (List.mem_append_left _ he)
      rw [← overridesOf_eq hfound.overrides] at h
      exact hspares h
  · next userId role hop =>
      rw [hop] at hrequest
      rw [overridesOf_eq hfound.overrides]
      exact hspares hrequest
  · next userId overrides hop =>
      rw [hop] at hrequest
      intro m hmem hkey
      cases hfound with
      | there _ => exact hrequest m hmem hkey
      | inserted hnone =>
          rcases List.mem_append.mp hmem with hmem | hmem
          · exact hspares (hrequest m hmem hkey)
          · -- The user is new, so the manager there was is another.
            rcases hm with ⟨manager, hold, htenant', hmanager⟩
            rw [List.mem_singleton.mp hmem] at hkey
            refine .inr ⟨manager, List.mem_append_left _ hold, htenant', fun huser => ?_,
              hmanager.of_overrides rfl⟩
            exact hnone manager hold ((Prod.ext htenant' huser).trans hkey.symm)
  · trivial

end Steps

section Runs

variable {deps : ApiDeps}

/-- A tenant does not lock itself out. In every run of requests, one at a time
    and from a consistent database, in which what each request of the tenant
    asks for leaves the permission with its target or another manager, a tenant
    that had a manager has one. -/
theorem manager_remains (deps : ApiDeps) (tenantId : String) (init s : ApiState)
    (ls : List (Happening ApiEvent ApiCall ApiChange fun _ => ApiResponse))
    (hinit : Consistent init)
    (h : RunsWhile (apiSystem deps) (sparesManagers deps tenantId) init ls s)
    (hm : HasManager deps init tenantId) : HasManager deps s tenantId := by
  have hboth : Consistent s ∧ HasManager deps s tenantId := by
    refine h.induct (I := fun s => Consistent s ∧ HasManager deps s tenantId) ?_ ?_ ⟨hinit, hm⟩
    -- A request keeps the tables consistent and spares a manager.
    · rintro call a es s s' hok ⟨hs, hm⟩ hexec
      refine ⟨consistent_handle hexec hs, ?_⟩
      rcases exec_handle hexec with
          ⟨found, s₁, es₁, es₂, hfound, rfl, hsame | ⟨hactive, hpermits, hdone⟩⟩
      · rw [hsame.2]
        exact hm.afterFound hfound
      · refine (hm.afterFound hfound).afterOperation (hfound.consistent hs) hdone ?_ ?_
        · intro hmanage
          refine isManager_of_found hs hfound hactive ?_
          unfold TenantContext.permits at hpermits
          rw [hmanage] at hpermits
          exact of_decide_eq_true hpermits
        · intro htenant
          have htenant' : call.claims.tenantId = tenantId := htenant
          exact sparesIn_of_found hm (htenant' ▸ hfound) htenant' hok
    -- A change of the directory touches neither members nor overrides.
    · rintro t s s' _ ⟨hs, hm⟩ henv
      cases t with
      | directory users =>
          cases henv
          exact ⟨⟨hs.keys, hs.referenced⟩, hm⟩
  exact hboth.2

end Runs

section Example

/-- A tenant with an owner, and with others. -/
def acme (others : List Member) : ApiState :=
  { members := ⟨"acme", "alice", none, none, "owner", .active⟩ :: others
    overrides := [], endUsers := [], directory := [] }

def bob : Member := ⟨"acme", "bob", none, none, "owner", .active⟩

/-- The owner steps down. -/
def aliceStepsDown : ApiCall :=
  ⟨⟨"alice", "acme", "acme", "crm"⟩, .changeRole "alice" "viewer"⟩

/-- With a second owner the tenant keeps a manager. -/
theorem bob_remains :
    ∃ ls s, RunsWhile (apiSystem crmDeps) (sparesManagers crmDeps "acme") (acme [bob]) ls s ∧
      ls.length = 1 ∧ HasManager crmDeps s "acme" := by
  have hruns : ((handle crmDeps aliceStepsDown).runAlone (ApiOutside.id "") 10 []
        (acme [bob])).isSome =
      true := by decide +kernel
  rcases Option.isSome_iff_exists.mp hruns with ⟨⟨es, a, s⟩, hrun⟩
  have hexec := exec_of_runAlone (ApiOutside.id "") 10 [] (acme [bob]) _ es a s hrun
  have hrun' : RunsWhile (apiSystem crmDeps) (sparesManagers crmDeps "acme") (acme [bob])
      [.call aliceStepsDown a es] s :=
    .call .nil hexec fun _ => .inr (by decide +kernel)
  have hinit : Consistent (acme [bob]) := ⟨by decide +kernel, nofun⟩
  exact ⟨_, s, hrun', rfl, manager_remains crmDeps "acme" (acme [bob]) s _ hinit hrun'
    (by decide +kernel)⟩

/-- The only owner steps down, and nobody is left who could undo it. -/
theorem owner_locks_out :
    Consistent (acme []) ∧ HasManager crmDeps (acme []) "acme" ∧
      ∃ ls s, Runs (apiSystem crmDeps) (acme []) ls s ∧ ¬HasManager crmDeps s "acme" := by
  refine ⟨⟨by decide +kernel, nofun⟩, by decide +kernel, ?_⟩
  rcases exists_runs (apiSystem crmDeps) (ApiOutside.id "") 10 (acme []) [.call aliceStepsDown []]
    (fun r => decide (¬HasManager crmDeps r.2 "acme")) (by decide +kernel) with
    ⟨ls, s, hruns, htest⟩
  exact ⟨ls, s, hruns, of_decide_eq_true htest⟩

end Example

end Sandbox.Api.Managers
