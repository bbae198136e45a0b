import Sandbox.Api.Alone

/-!
# Permission Overrides

A replacement of overrides answers with the permissions that the overrides of
the request give. Every later request computes them from the rows that were
inserted. The two agree because the permissions depend only on which overrides
there are, and not on their order or number.

The rows have the permission in their primary key, and the check on the body
does not look for repetitions. So a list with a permission twice is accepted,
fails in the database, and ends with an error of the server. The overrides from
before are still there then, as the deletion is in the same transaction.

## Main definitions

* `Unchanged`: A member's row and overrides are as they were.
* `Reads`: What later requests find out about a member.
* `Changes`: Requests that are about a member.

## Theorems

* `exec_replace`: What a replacement does.
* `reads_of_unchanged`: Later requests find the same permissions.
* `unchanged_runs`: Requests about other members change nothing.
* `overrides_roundTrip`: A replacement succeeds and lasts exactly if no
  permission is in it twice.
-/

namespace Sandbox.Api.Overrides

open Interleave

variable {deps : ApiDeps} {s s' s'' : ApiState} {key : String × String} {es : List ApiEvent}

/-- A member's row and overrides are as they were. -/
structure Unchanged (key : String × String) (s s' : ApiState) : Prop where
  members : s'.members.filter (·.key = key) = s.members.filter (·.key = key)
  overrides : s'.overrides.filter (·.key = key) = s.overrides.filter (·.key = key)

theorem Unchanged.refl (key : String × String) (s : ApiState) : Unchanged key s s := ⟨rfl, rfl⟩

theorem Unchanged.trans (h : Unchanged key s s') (h' : Unchanged key s' s'') :
    Unchanged key s s'' :=
  ⟨h'.members.trans h.members, h'.overrides.trans h.overrides⟩

theorem Unchanged.find (h : Unchanged key s s') :
    s'.members.find? (·.key = key) = s.members.find? (·.key = key) := by
  rw [← List.head?_filter, h.members, List.head?_filter]

/-- A row under another key is inserted or updated. -/
theorem Unchanged.stored {member : Member} (hs : Stored member s s')
    (ho : s'.overrides = s.overrides) (hne : member.key ≠ key) : Unchanged key s s' := by
  refine ⟨?_, by rw [ho]⟩
  rw [hs]
  unfold Members.upsertRow
  split
  · have hnew : [member].filter (·.key = key) = [] :=
      List.filter_eq_nil_iff.mpr fun m hm hkey =>
        hne (List.mem_singleton.mp hm ▸ of_decide_eq_true hkey)
    rw [List.filter_append, hnew, List.append_nil]
  · next old hold =>
      rw [Tables.filter_update]
      · exact if_neg fun hkey => hne (of_decide_eq_true hkey)
      · intro m _ hkey
        rw [hkey]

section Runs

/-- A replacement is a look at the member and a transaction. -/
theorem perform_replace (deps : ApiDeps) (ctx : TenantContext) (userId : String)
    (overrides : List PermissionOverride) :
    perform deps ctx (.replaceOverrides userId overrides) =
      (Members.find ctx.tenantId userId >>= fun existing =>
        match existing with
        | none => pure (.error (.member .notFound))
        | some existing =>
            Members.replaceOverrides ctx.tenantId existing.userId overrides >>= fun replaced =>
              pure (if replaced then .overrides overrides
                (resolvePermissions deps.definition existing.role overrides)
              else .error .serverError)) := by
  refine congrArg (Prog.act _ _) (funext fun existing => ?_)
  cases existing with
  | none => rfl
  | some existing =>
      refine congrArg (Prog.act _ _) (funext fun replaced => ?_)
      cases replaced <;> rfl

/-- What a replacement does to a member that is there. -/
theorem exec_replace {ctx : TenantContext} {userId : String} {existing : Member}
    (hfound : s.members.find? (·.key = (ctx.tenantId, userId)) = some existing)
    {overrides : List PermissionOverride} {a : ApiResponse} :
    Exec s (perform deps ctx (.replaceOverrides userId overrides)) es a s' ↔
      es = [] ∧
        match Members.replaceRows ctx.tenantId userId overrides s with
        | none => a = .error .serverError ∧ s' = s
        | some rows =>
            a = .overrides overrides (resolvePermissions deps.definition existing.role overrides) ∧
              s' = { s with overrides := rows } := by
  have huser : existing.userId = userId := (Prod.mk.inj (key_of_found hfound)).2
  rw [perform_replace]
  refine (exec_act_bind (.id "") rfl).trans ?_
  dsimp only
  rw [hfound]
  refine (exec_act_bind (.id "") rfl).trans ?_
  rw [huser]
  -- A repeated permission breaks the table's constraint, and nothing is written.
  cases Members.replaceRows ctx.tenantId userId overrides s with
  | none => exact exec_done_iff
  | some rows => exact exec_done_iff

/-- The repetition of a permission is all that a replacement can fail at. -/
theorem replaceRows_eq_none {tenantId userId : String} {overrides : List PermissionOverride}
    (hthere : s.members.any (·.key = (tenantId, userId)) = true) :
    Members.replaceRows tenantId userId overrides s = none ↔
      ¬ (overrides.map (·.permission)).Nodup := by
  unfold Members.replaceRows
  dsimp only
  split_ifs with hempty hrows
  · rw [hempty]
    simp
  · simp [hrows.2]
  · simp only [hthere, true_and] at hrows
    simp [hrows]

/-- What later requests find out about a member. -/
structure Reads (deps : ApiDeps) (existing : Member) (permissions : Finset String)
    (s : ApiState) : Prop where
  detail : ∀ ctx : TenantContext, ctx.tenantId = existing.tenantId → ∀ es a s',
    Exec s (perform deps ctx (.getMember existing.userId)) es a s' ↔
      es = [] ∧ a = .memberDetail existing (Members.overridesOf s existing.key) permissions ∧
        s' = s
  context : ∀ claims : AccessTokenClaims, claims.tenantId = existing.tenantId →
    claims.userId = existing.userId → ∀ es a s',
      Exec s (resolveTenantContext deps claims) es a s' ↔
        es = [] ∧ a = (if existing.status = .active then
          some { contextOf deps claims ⟨existing, Members.overridesOf s existing.key⟩ with
            permissions := permissions } else none) ∧ s' = s

theorem exec_findWithOverrides {α : Type} {missing : Option ApiEvent} {tenantId userId : String}
    {found : MemberWithOverrides} (hfound : Members.lookup s (tenantId, userId) = some found)
    {g : Option MemberWithOverrides → ApiProg α} {a : α} :
    Exec s (Members.findWithOverrides missing tenantId userId >>= g) es a s' ↔
      Exec s (g (some found)) es a s' := by
  have hevent :
        (if (Members.lookup s (tenantId, userId)).isNone then missing else none) = none := by
    rw [hfound]
    rfl
  refine (exec_act_bind (.id "") hevent).trans ?_
  dsimp only
  rw [hfound]

/-- Later requests find the permissions that the rows give. -/
theorem reads_of_find {existing : Member}
    (hfound : s.members.find? (·.key = existing.key) = some existing) :
    Reads deps existing (resolvePermissions deps.definition existing.role
      (Members.overridesOf s existing.key)) s := by
  have hlookup : Members.lookup s (existing.tenantId, existing.userId) =
      some ⟨existing, Members.overridesOf s existing.key⟩ := by
    unfold Members.lookup
    rw [show (existing.tenantId, existing.userId) = existing.key from rfl, hfound]
    rfl
  constructor
  -- The detail of the member shows what the row and its overrides resolve to.
  · intro ctx htenant es a s'
    have hperform : perform deps ctx (.getMember existing.userId) =
        (getMemberDetail ctx.tenantId existing.userId >>= fun result =>
          pure (respond (fun found => .memberDetail found.member found.overrides
            (resolvePermissions deps.definition found.member.role found.overrides)) result)) := rfl
    unfold getMemberDetail at hperform
    rw [hperform, htenant, Prog.bind_assoc]
    exact (exec_findWithOverrides hlookup).trans exec_done_iff
  -- The context of the member's own request resolves the same.
  · intro claims htenant huser es a s'
    have hlookup' : Members.lookup s (claims.tenantId, claims.userId) =
        some ⟨existing, Members.overridesOf s existing.key⟩ := by rw [htenant, huser, hlookup]
    unfold resolveTenantContext requestMember
    rw [Prog.bind_assoc]
    refine (exec_findWithOverrides hlookup').trans ?_
    change Exec s (if existing.status ≠ .active then .done none
      else .done (some (contextOf deps claims ⟨existing, Members.overridesOf s existing.key⟩)))
        es a s' ↔ _
    by_cases hactive : existing.status = .active
    · rw [if_neg (not_not.mpr hactive), if_pos hactive]
      exact exec_done_iff
    · rw [if_pos hactive, if_neg hactive]
      exact exec_done_iff

theorem Reads.unchanged {existing : Member} {permissions : Finset String}
    (hfound : s.members.find? (·.key = existing.key) = some existing)
    (hpermissions : resolvePermissions deps.definition existing.role
      (Members.overridesOf s existing.key) = permissions)
    (h : Unchanged existing.key s s') : Reads deps existing permissions s' := by
  rw [← hpermissions, ← overridesOf_congr h.overrides]
  exact reads_of_find (h.find.trans hfound)

/-- A request about a member, or a change of the database by it. -/
def Changes (key : String × String) :
    Happening ApiEvent ApiCall ApiChange (fun _ => ApiResponse) → Prop
  | .call c _ es =>
      match c.operation with
      | .changeRole userId _ | .replaceOverrides userId _ | .removeMember userId =>
          (c.claims.tenantId, userId) = key
      | .inviteMember _ => ∃ role, .memberInvited key.1 key.2 role ∈ es
      | _ => False
  | .env _ => False

/-- A user who becomes a member does not change the members that are there. -/
theorem FoundBy.unchanged {tenantId userId : String} {found : MemberWithOverrides}
    (h : FoundBy deps s tenantId userId found es s') (hthere : ∃ m ∈ s.members, m.key = key) :
    Unchanged key s s' := by
  cases h with
  | there _ => exact .refl key s
  | inserted hnone =>
      rcases hthere with ⟨m, hm, rfl⟩
      exact .stored (stored_default hnone) rfl fun hkey => hnone m hm hkey.symm

/-- An operation changes only the member it is about. -/
theorem Administered.unchanged {call : ApiCall} {found : MemberWithOverrides} {a : ApiResponse}
    {es₁ : List ApiEvent}
    (h : Administered s (contextOf deps call.claims found) call.operation es s')
    (hother : ¬ Changes key (.call call a (es ++ es₁))) : Unchanged key s s' := by
  rcases call with ⟨claims, operation⟩
  cases h with
  | nothing hm ho => exact ⟨by rw [hm], by rw [ho]⟩
  | invited user hs ho =>
      refine .stored hs ho ?_
      rintro rfl
      exact hother ⟨_, List.mem_cons_self⟩
  | roleChanged existing hfound hs ho =>
      refine .stored hs ho fun hkey => hother ?_
      exact (key_of_found hfound).symm.trans hkey
  | replaced existing hfound hrows =>
      refine ⟨rfl, Members.filter_replaceRows hrows fun row hrow => ?_⟩
      exact decide_eq_false fun hkey => hother (hrow.symm.trans hkey)
  | removed _ => exact ⟨Tables.filter_filter_ne hother _, Tables.filter_filter_ne hother _⟩

/-- Requests that are not about a member, one after the other, leave it as it is. -/
theorem unchanged_runs {ls : List (Happening ApiEvent ApiCall ApiChange fun _ => ApiResponse)}
    (h : Runs (apiSystem deps) s ls s') (hthere : ∃ m ∈ s.members, m.key = key)
    (hothers : ∀ l ∈ ls, ¬ Changes key l) : Unchanged key s s' := by
  refine h.induct (I := fun s' => Unchanged key s s') ?_ ?_ hothers (.refl key s)
  · intro call a es s₁ s₂ hother hbefore hexec
    have hthere₁ : ∃ m ∈ s₁.members, m.key = key := by
      rcases hthere with ⟨m, hm, hkey⟩
      have hmem : m ∈ s₁.members.filter (·.key = key) :=
        hbefore.members ▸ List.mem_filter.mpr ⟨hm, decide_eq_true hkey⟩
      exact ⟨m, (List.mem_filter.mp hmem).1, hkey⟩
    rcases exec_handle hexec with ⟨found, s₃, es₁, es₂, hfound, rfl, ⟨_, rfl⟩ | ⟨_, _, hdone⟩⟩
    · exact hbefore.trans (FoundBy.unchanged hfound hthere₁)
    · exact (hbefore.trans (FoundBy.unchanged hfound hthere₁)).trans
        (Administered.unchanged hdone hother)
  · rintro ⟨users⟩ s₁ s₂ _ hbefore henv
    cases henv
    exact ⟨hbefore.members, hbefore.overrides⟩

/-- The permissions that a replacement answers with, and that last. -/
structure Lasts (deps : ApiDeps) (existing : Member) (overrides : List PermissionOverride)
    (permissions : Finset String) (s : ApiState) : Prop where
  /-- What happens in between may overlap in any way. -/
  unchanged : ∀ s', Unchanged existing.key s s' → Reads deps existing permissions s'
  requests : ∀ ls s', Runs (apiSystem deps) s ls s' → (∀ l ∈ ls, ¬ Changes existing.key l) →
    Reads deps existing permissions s'
  mem_iff : ∀ permission, permission ∈ permissions ↔
    (permission ∈ deps.definition.rolePermissions existing.role ∨
      isPermission deps.definition permission = true ∧ ⟨permission, .allow⟩ ∈ overrides) ∧
    ⟨permission, .deny⟩ ∉ overrides
  perm : ∀ overrides' : List PermissionOverride, overrides'.Perm overrides →
    resolvePermissions deps.definition existing.role overrides' = permissions

theorem lasts_of_rows {existing : Member}
    (hfound : s.members.find? (·.key = existing.key) = some existing)
    {overrides : List PermissionOverride}
    (hrows : ∀ o, o ∈ Members.overridesOf s existing.key ↔ o ∈ overrides) :
    Lasts deps existing overrides
        (resolvePermissions deps.definition existing.role overrides) s := by
  have hpermissions : resolvePermissions deps.definition existing.role
      (Members.overridesOf s existing.key) =
        resolvePermissions deps.definition existing.role overrides :=
    Finset.ext fun _ => resolvePermissions_congr hrows
  refine ⟨fun s' h => .unchanged hfound hpermissions h, fun ls s' hruns hothers => ?_,
    fun _ => mem_resolvePermissions, fun _ hperm =>
      Finset.ext fun _ => resolvePermissions_congr fun _ => hperm.mem_iff⟩
  exact .unchanged hfound hpermissions
    (unchanged_runs hruns ⟨existing, List.mem_of_find?_eq_some hfound, rfl⟩ hothers)

/-- A replacement succeeds, and later requests find the permissions it answered
    with until the member is changed, exactly if no permission is in it twice. -/
theorem overrides_roundTrip (deps : ApiDeps) (ctx : TenantContext) (s : ApiState)
    (existing : Member) (htenant : ctx.tenantId = existing.tenantId)
    (hfound : s.members.find? (·.key = existing.key) = some existing)
    (overrides : List PermissionOverride) :
    (∃ es a s', Exec s (perform deps ctx (.replaceOverrides existing.userId overrides)) es a s') ∧
      ((∀ es a s', Exec s (perform deps ctx (.replaceOverrides existing.userId overrides)) es a s' →
        ∃ permissions, a = .overrides overrides permissions ∧
          Lasts deps existing overrides permissions s') ↔
        (overrides.map (·.permission)).Nodup) ∧
      (¬ (overrides.map (·.permission)).Nodup → ∀ es a s',
        Exec s (perform deps ctx (.replaceOverrides existing.userId overrides)) es a s' →
          a = .error .serverError ∧ s' = s) := by
  have hfound' : s.members.find? (·.key = (ctx.tenantId, existing.userId)) = some existing := by
    rw [htenant]
    exact hfound
  have hthere : s.members.any (·.key = (existing.tenantId, existing.userId)) = true :=
    List.any_eq_true.mpr ⟨existing, List.mem_of_find?_eq_some hfound, decide_eq_true rfl⟩
  -- The insert fails on the primary key exactly if a permission is repeated.
  have hfails : Members.replaceRows existing.tenantId existing.userId overrides s = none ↔
      ¬ (overrides.map (·.permission)).Nodup := replaceRows_eq_none hthere
  have hexec : ∀ es a s',
      Exec s (perform deps ctx (.replaceOverrides existing.userId overrides)) es a s' ↔ _ :=
    fun es a s' => exec_replace hfound'
  rw [htenant] at hexec
  cases hrows : Members.replaceRows existing.tenantId existing.userId overrides s with
  | none =>
      rw [hrows] at hexec
      -- The transaction is rolled back, and the answer is an error.
      have hdup := hfails.mp hrows
      have hfailed := (hexec [] _ s).mpr ⟨rfl, rfl, rfl⟩
      refine ⟨⟨_, _, _, hfailed⟩, ⟨fun h => ?_, fun hnodup => absurd hnodup hdup⟩, ?_⟩
      · obtain ⟨permissions, hanswer, _⟩ := h _ _ _ hfailed
        cases hanswer
      · intro _ es a s' h
        exact ((hexec es a s').mp h).2
  | some rows =>
      rw [hrows] at hexec
      have hnodup : (overrides.map (·.permission)).Nodup := by
        by_contra hdup
        rw [hfails.mpr hdup] at hrows
        cases hrows
      -- The rows that are inserted are those of the request.
      refine ⟨⟨_, _, _, (hexec [] _ _).mpr ⟨rfl, rfl, rfl⟩⟩, ⟨fun _ => hnodup, fun _ => ?_⟩,
        fun hdup => absurd hnodup hdup⟩
      intro es a s' h
      obtain ⟨_, rfl, rfl⟩ := (hexec es a s').mp h
      exact ⟨_, rfl, lasts_of_rows (s := { s with overrides := rows }) hfound
        (mem_overridesOf_replaced hrows)⟩

end Runs

section Example

def alice : Member := ⟨"acme", "alice", none, none, "owner", .active⟩

def bob : Member := ⟨"acme", "bob", none, none, "viewer", .active⟩

/-- A tenant with an owner and a viewer. -/
def acme : ApiState := ⟨[alice, bob], [], [], []⟩

def aliceClaims : AccessTokenClaims := ⟨"alice", "acme", "acme", "crm"⟩

/-- A permission is granted and one of the role is denied. -/
def oneOfEach : List PermissionOverride :=
  [⟨"members:read", .deny⟩, ⟨"end_users:unmask", .allow⟩]

/-- The same permission, granted twice. -/
def twice : List PermissionOverride :=
  [⟨"end_users:unmask", .allow⟩, ⟨"end_users:unmask", .allow⟩]

/-- Overrides without a repetition are answered with, and last. -/
theorem overrides_roundTrip_bob :
    (∃ es a s', Exec acme (perform crmDeps (contextOf crmDeps aliceClaims ⟨alice, []⟩)
      (.replaceOverrides "bob" oneOfEach)) es a s') ∧
    ∀ es a s', Exec acme (perform crmDeps (contextOf crmDeps aliceClaims ⟨alice, []⟩)
      (.replaceOverrides "bob" oneOfEach)) es a s' →
      ∃ permissions, a = .overrides oneOfEach permissions ∧
        Lasts crmDeps bob oneOfEach permissions s' := by
  have hbob := overrides_roundTrip crmDeps (contextOf crmDeps aliceClaims ⟨alice, []⟩) acme bob rfl
    (by decide +kernel) oneOfEach
  exact ⟨hbob.1, hbob.2.1.mpr (by decide +kernel)⟩

/-- The body passes the checks, and the request fails in the database. -/
theorem repeated_override_fails :
    (Operation.replaceOverrides "bob" twice).isValid crm = true ∧
      Exec acme (handle crmDeps ⟨aliceClaims, .replaceOverrides "bob" twice⟩) []
        (.error .serverError) acme :=
  ⟨by decide +kernel, exec_of_runAlone (ApiOutside.id "") 10 [] acme _ _ _ _ (by decide +kernel)⟩

end Example

end Sandbox.Api.Overrides
