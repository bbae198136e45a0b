import Sandbox.Api.Blocks
import Sandbox.Interleave.Isolation

/-!
# Tenants of a Service's API

The requests of a tenant see the tenant's rows and nothing else of the
database. Every query has the tenant of the token in its condition, and new
rows get new identifiers, so what other tenants do changes neither these rows
nor an answer.

The exception is the authorization server. Its users are shared, and whoever
registers an address first decides the name that all others are answered.

## Main definitions

* `TenantView`, `tenantView`: The rows of a tenant.
* `actsFor`: The requests of a tenant.

## Theorems

* `confined_handle`: A tenant's request depends on the tenant's rows only.
* `beside_handle`: Another tenant's request leaves them as they are.
* `tenant_isolated`: What a tenant sees in two runs.
* `invited_name_shows`: What it sees of the authorization server's users.
-/

namespace Sandbox.Api.Tenants

open Interleave

/-- The rows of a tenant. -/
structure TenantView where
  members : List Member
  overrides : List OverrideRow
  endUsers : List EndUser

def tenantView (tenantId : String) (s : ApiState) : TenantView where
  members := s.members.filter (·.tenantId = tenantId)
  overrides := s.overrides.filter (·.tenantId = tenantId)
  endUsers := s.endUsers.filter (·.tenantId = tenantId)

/-- The requests of a tenant. -/
def actsFor (tenantId : String) (call : ApiCall) : Bool := call.claims.tenantId = tenantId

section Rows

variable {tenantId userId : String} {rows : List Member}

/-- A condition that only a tenant's rows meet needs no others. -/
theorem filter_own {α : Type} {tenant : α → String} {p : α → Bool} (rows : List α)
    (h : ∀ r, p r = true → tenant r = tenantId) :
    (rows.filter fun r => tenant r = tenantId).filter p = rows.filter p := by
  rw [List.filter_filter]
  refine List.filter_congr fun r _ => ?_
  cases hp : p r with
  | false => exact Bool.false_and _
  | true => exact decide_eq_true (h r hp)

/-- A search for a row of one tenant may be made among the rows of that tenant. -/
theorem find_own {α : Type} {tenant : α → String} {p : α → Bool} (rows : List α)
    (h : ∀ r, p r = true → tenant r = tenantId) :
    (rows.filter fun r => tenant r = tenantId).find? p = rows.find? p := by
  rw [← List.head?_filter, ← List.head?_filter, filter_own rows h]

theorem tenant_of_key {m : Member} (h : decide (m.key = (tenantId, userId)) = true) :
    m.tenantId = tenantId :=
  (Prod.mk.inj (of_decide_eq_true h)).1

theorem tenant_of_overrideKey {row : OverrideRow}
    (h : decide (row.key = (tenantId, userId)) = true) : row.tenantId = tenantId :=
  (Prod.mk.inj (of_decide_eq_true h)).1

theorem tenant_of_isFor {id : String} {row : EndUser} (h : EndUsers.isFor tenantId id row = true) :
    row.tenantId = tenantId :=
  (of_decide_eq_true h).1

/-- An insertion or update of a row of the tenant is one among its rows. -/
theorem upsertRow_own {member : Member} (h : member.tenantId = tenantId) :
    (Members.upsertRow member (rows.filter (·.tenantId = tenantId))).1 =
        (Members.upsertRow member rows).1 ∧
      (Members.upsertRow member rows).2.filter (·.tenantId = tenantId) =
        (Members.upsertRow member (rows.filter (·.tenantId = tenantId))).2 := by
  have hkey : member.key = (tenantId, member.userId) := by rw [← h]; rfl
  unfold Members.upsertRow
  rw [hkey, find_own rows fun m => tenant_of_key]
  cases rows.find? (·.key = (tenantId, member.userId)) with
  | none =>
      refine ⟨rfl, ?_⟩
      have hsingle : [member].filter (·.tenantId = tenantId) = [member] := by simp [h]
      dsimp only
      rw [List.filter_append, hsingle]
  -- The row that is replaced is the tenant's own.
  | some old =>
      refine ⟨rfl, ?_⟩
      dsimp only
      rw [Tables.filter_update, if_pos (decide_eq_true h)]
      intro r _ hr
      exact decide_eq_decide.mpr (by rw [(Prod.mk.inj hr).1])

/-- A row of another tenant does not show. -/
theorem upsertRow_other {member : Member} (h : member.tenantId ≠ tenantId) :
    (Members.upsertRow member rows).2.filter (·.tenantId = tenantId) =
      rows.filter (·.tenantId = tenantId) := by
  unfold Members.upsertRow
  cases rows.find? (·.key = member.key) with
  | none =>
      have hsingle : [member].filter (·.tenantId = tenantId) = [] := by simp [h]
      dsimp only
      rw [List.filter_append, hsingle, List.append_nil]
  | some old =>
      dsimp only
      rw [Tables.filter_update, if_neg (by rw [decide_eq_true_eq]; exact h)]
      intro r _ hr
      exact decide_eq_decide.mpr (by rw [(Prod.mk.inj hr).1])

end Rows

section Own

variable {tenantId : String} {deps : ApiDeps}

abbrev Own (tenantId : String) {α : Type} (p : ApiProg α) : Prop :=
  Confined (tenantView tenantId) p

/-- Equal views have the same members of the tenant. -/
theorem members_of_view {s₁ s₂ : ApiState} (h : tenantView tenantId s₁ = tenantView tenantId s₂) :
    s₁.members.filter (·.tenantId = tenantId) = s₂.members.filter (·.tenantId = tenantId) :=
  congrArg TenantView.members h

/-- Equal views have the same overrides of the tenant. -/
theorem overrides_of_view {s₁ s₂ : ApiState}
    (h : tenantView tenantId s₁ = tenantView tenantId s₂) :
    s₁.overrides.filter (·.tenantId = tenantId) = s₂.overrides.filter (·.tenantId = tenantId) :=
  congrArg TenantView.overrides h

/-- Equal views have the same end users of the tenant. -/
theorem endUsers_of_view {s₁ s₂ : ApiState}
    (h : tenantView tenantId s₁ = tenantView tenantId s₂) :
    s₁.endUsers.filter (·.tenantId = tenantId) = s₂.endUsers.filter (·.tenantId = tenantId) :=
  congrArg TenantView.endUsers h

theorem find_of_view {s₁ s₂ : ApiState} (h : tenantView tenantId s₁ = tenantView tenantId s₂)
    (userId : String) :
    s₁.members.find? (·.key = (tenantId, userId)) =
      s₂.members.find? (·.key = (tenantId, userId)) := by
  rw [← find_own s₁.members fun m => tenant_of_key, members_of_view h,
    find_own s₂.members fun m => tenant_of_key]

theorem findEndUser_of_view {s₁ s₂ : ApiState}
    (h : tenantView tenantId s₁ = tenantView tenantId s₂) (id : String) :
    s₁.endUsers.find? (EndUsers.isFor tenantId id) =
      s₂.endUsers.find? (EndUsers.isFor tenantId id) := by
  rw [← find_own s₁.endUsers fun row => tenant_of_isFor, endUsers_of_view h,
    find_own s₂.endUsers fun row => tenant_of_isFor]

/-- The overrides of a member are alike in equal views. -/
theorem overridesOf_of_view {s₁ s₂ : ApiState}
    (h : tenantView tenantId s₁ = tenantView tenantId s₂) (userId : String) :
    Members.overridesOf s₁ (tenantId, userId) = Members.overridesOf s₂ (tenantId, userId) := by
  unfold Members.overridesOf
  rw [← filter_own s₁.overrides fun row => tenant_of_overrideKey, overrides_of_view h,
    filter_own s₂.overrides fun row => tenant_of_overrideKey]

theorem own_find (userId : String) : Own tenantId (Members.find tenantId userId) :=
  confined_read fun _ _ h => find_of_view h userId

/-- Finding a member with its overrides reads its own tenant alone. -/
theorem own_findWithOverrides (missing : Option ApiEvent) (userId : String) :
    Own tenantId (Members.findWithOverrides missing tenantId userId) := by
  refine confined_act fun i s₁ s₂ b₁ b₂ s₁' s₂' hview h₁ h₂ => ?_
  cases h₁
  cases h₂
  refine ⟨?_, hview⟩
  unfold Members.lookup
  rw [find_of_view hview, overridesOf_of_view hview]

theorem own_list : Own tenantId (Members.list tenantId) :=
  confined_read fun _ _ h => members_of_view h

/-- A member row that is written is of its own tenant. -/
theorem own_upsert {event : ApiEvent} {member : Member} (h : member.tenantId = tenantId) :
    Own tenantId (Members.upsert event member) := by
  refine confined_act fun i s₁ s₂ b₁ b₂ s₁' s₂' hview h₁ h₂ => ?_
  cases h₁
  cases h₂
  have hrows := members_of_view hview
  refine ⟨?_, ?_⟩
  · rw [← (upsertRow_own h).1, hrows, (upsertRow_own h).1]
  · unfold tenantView
    dsimp only
    rw [(upsertRow_own h).2, (upsertRow_own h).2, hrows, overrides_of_view hview,
      endUsers_of_view hview]

/-- Removing a member removes rows of its own tenant. -/
theorem own_remove (userId : String) : Own tenantId (Members.remove tenantId userId) := by
  refine confined_act fun i s₁ s₂ b₁ b₂ s₁' s₂' hview h₁ h₂ => ?_
  cases h₁
  cases h₂
  refine ⟨rfl, ?_⟩
  unfold tenantView
  dsimp only
  -- The two conditions change places, and the outer one is about the view.
  rw [List.filter_comm, List.filter_comm (l := s₂.members), members_of_view hview,
    List.filter_comm (l := s₁.overrides), List.filter_comm (l := s₂.overrides),
    overrides_of_view hview, endUsers_of_view hview]

/-- Whether a member row exists is the same in equal views. -/
theorem any_key_of_view {s₁ s₂ : ApiState} (h : tenantView tenantId s₁ = tenantView tenantId s₂)
    (userId : String) :
    s₁.members.any (·.key = (tenantId, userId)) = s₂.members.any (·.key = (tenantId, userId)) := by
  rw [← List.isSome_find?, ← List.isSome_find?, find_of_view h]

/-- The rows of the tenant that a replacement leaves and inserts. -/
theorem replaceRows_own (userId : String) (overrides : List PermissionOverride) (s : ApiState) :
    (Members.replaceRows tenantId userId overrides s).map
        (List.filter fun row => row.tenantId = tenantId) =
      Members.replaceRows tenantId userId overrides
        { s with overrides := s.overrides.filter (·.tenantId = tenantId) } := by
  -- The rows that stay are filtered in either order, the new ones are all the tenant's.
  have hkept := List.filter_comm (fun row => decide (row.tenantId = tenantId))
    (fun row => decide (row.key ≠ (tenantId, userId))) s.overrides
  have hnew : (overrides.map fun override => (⟨tenantId, userId, override⟩ : OverrideRow)).filter
      (fun row => row.tenantId = tenantId) =
        overrides.map fun override => (⟨tenantId, userId, override⟩ : OverrideRow) := by
    rw [List.filter_eq_self]
    intro row hrow
    rcases List.mem_map.mp hrow with ⟨_, _, rfl⟩
    exact decide_eq_true rfl
  unfold Members.replaceRows
  dsimp only
  split_ifs
  · exact congrArg some hkept
  · rw [Option.map_some, List.filter_append, hkept, hnew]
  · rfl

/-- Replacing the overrides of a member agrees in equal views, failure included. -/
theorem replaceRows_of_view {s₁ s₂ : ApiState}
    (h : tenantView tenantId s₁ = tenantView tenantId s₂) (userId : String)
    (overrides : List PermissionOverride) :
    (Members.replaceRows tenantId userId overrides s₁).map
        (List.filter fun row => row.tenantId = tenantId) =
      (Members.replaceRows tenantId userId overrides s₂).map
        (List.filter fun row => row.tenantId = tenantId) := by
  rw [replaceRows_own, replaceRows_own, overrides_of_view h]
  unfold Members.replaceRows
  dsimp only
  rw [any_key_of_view h]

/-- Replacing the overrides of a member stays within its tenant. -/
theorem own_replaceOverrides (userId : String) (overrides : List PermissionOverride) :
    Own tenantId (Members.replaceOverrides tenantId userId overrides) := by
  refine confined_atomic fun s₁ s₂ hview => ?_
  have hrows := replaceRows_of_view hview userId overrides
  cases h₁ : Members.replaceRows tenantId userId overrides s₁ with
  | none =>
      rw [h₁] at hrows
      rw [Option.map_eq_none_iff.mp hrows.symm]
      exact ⟨rfl, hview⟩
  | some rows₁ =>
      rw [h₁] at hrows
      rcases Option.map_eq_some_iff.mp hrows.symm with ⟨rows₂, h₂, heq⟩
      rw [h₂]
      refine ⟨rfl, ?_⟩
      unfold tenantView
      dsimp only
      rw [members_of_view hview, endUsers_of_view hview, heq]

theorem own_endUsersList : Own tenantId (EndUsers.list tenantId) :=
  confined_read fun _ _ h => endUsers_of_view h

theorem own_findById (id : String) : Own tenantId (EndUsers.findById tenantId id) :=
  confined_read fun _ _ h => findEndUser_of_view h id

/-- Which identifiers are taken does not show: a run names one that is not. -/
theorem own_create (input : EndUserInput) : Own tenantId (EndUsers.create tenantId input) := by
  refine confined_ask fun i s₁ s₂ b₁ b₂ s₁' s₂' hview h₁ h₂ => ?_
  cases i with
  | id id =>
      dsimp only at h₁ h₂
      split at h₁
      · cases h₁
      · split at h₂
        · cases h₂
        · cases h₁
          cases h₂
          refine ⟨rfl, ?_⟩
          unfold tenantView
          dsimp only
          rw [List.filter_append, List.filter_append, members_of_view hview,
            overrides_of_view hview, endUsers_of_view hview]
  | invited reply => cases h₁
  | revoked reply => cases h₁

/-- A patch never moves an end user to another tenant. -/
theorem applyPatch_tenantId (patch : EndUserInputPatch) (row : EndUser) :
    (EndUsers.applyPatch patch row).tenantId = row.tenantId := rfl

/-- A change of the rows for one identifier is one among the tenant's rows. -/
theorem filter_patch (tenant id : String) (patch : EndUserInputPatch) (rows : List EndUser) :
    (rows.map fun row =>
        if EndUsers.isFor tenant id row then EndUsers.applyPatch patch row else row).filter
        (·.tenantId = tenantId) =
      (rows.filter (·.tenantId = tenantId)).map fun row =>
        if EndUsers.isFor tenant id row then EndUsers.applyPatch patch row else row := by
  rw [List.filter_map]
  congr 1
  refine List.filter_congr fun row _ => ?_
  rw [Function.comp_apply]
  split_ifs
  · rw [applyPatch_tenantId]
  · rfl

theorem own_update (id : String) (patch : EndUserInputPatch) :
    Own tenantId (EndUsers.update tenantId id patch) := by
  refine confined_atomic fun s₁ s₂ hview => ⟨?_, ?_⟩
  · dsimp only
    rw [findEndUser_of_view hview]
  · unfold tenantView
    dsimp only
    rw [filter_patch, filter_patch, members_of_view hview, overrides_of_view hview,
      endUsers_of_view hview]

theorem own_removeEndUser (id : String) : Own tenantId (EndUsers.remove tenantId id) := by
  refine confined_atomic fun s₁ s₂ hview => ⟨?_, ?_⟩
  · dsimp only
    rw [← List.isSome_find?, ← List.isSome_find?, findEndUser_of_view hview]
  · unfold tenantView
    dsimp only
    rw [List.filter_comm, List.filter_comm (l := s₂.endUsers), endUsers_of_view hview,
      members_of_view hview, overrides_of_view hview]

/-- The directory answers an invitation without the rows of any tenant. -/
theorem own_invite (email : String) (name : Option String) :
    Own tenantId (invite deps email name) := by
  rcases invite_eq deps email name with ⟨f, hinvite, hf⟩
  rw [hinvite]
  refine confined_ask fun i s₁ s₂ b₁ b₂ s₁' s₂' hview h₁ h₂ => ?_
  rcases hf _ _ _ _ h₁ with ⟨rfl, d₁, rfl⟩
  rcases hf _ _ _ _ h₂ with ⟨hi, d₂, rfl⟩
  cases hi
  exact ⟨rfl, hview⟩

theorem own_revoke (tenant userId : String) : Own tenantId (revoke tenant userId) := by
  refine confined_ask fun i s₁ s₂ b₁ b₂ s₁' s₂' hview h₁ h₂ => ?_
  cases i with
  | revoked reply =>
      cases h₁
      cases h₂
      exact ⟨rfl, hview⟩
  | id id => cases h₁
  | invited reply => cases h₁

/-- A row that was found under a key of the tenant is one of its rows. -/
theorem tenant_of_found {s : ApiState} {userId : String} {m : Member}
    (h : s.members.find? (·.key = (tenantId, userId)) = some m) : m.tenantId = tenantId := by
  have hkey := List.find?_some (p := fun m : Member => m.key = (tenantId, userId)) h
  exact tenant_of_key hkey

/-- The member of a request is resolved within the tenant of the token. -/
theorem own_requestMember (userId : String) :
    Own tenantId (requestMember deps tenantId userId) := by
  refine confined_bind (own_findWithOverrides _ _) fun found => ?_
  cases found with
  | none => exact confined_bind (own_upsert rfl) fun _ => confined_pure _
  | some found => exact confined_pure _

theorem own_changeMemberRole (userId role : String) :
    Own tenantId (changeMemberRole tenantId userId role) := by
  refine confined_read_bind (fun _ _ h => find_of_view h userId) fun s => ?_
  cases hfound : s.members.find? (·.key = (tenantId, userId)) with
  | none => exact confined_pure _
  | some existing =>
      have htenant : existing.tenantId = tenantId := tenant_of_found hfound
      exact confined_bind (own_upsert htenant) fun _ => confined_pure _

/-- Every block of a request stays within the tenant of its token. -/
theorem own_blocks (tenantId : String) : Blocks deps tenantId fun _ p => Own tenantId p where
  pure := confined_pure
  bind := confined_bind
  find := own_find
  findWithOverrides := own_findWithOverrides none
  list := own_list
  upsertInvited _ _ _ _ := own_upsert rfl
  changeRole := own_changeMemberRole
  replaceOverrides := own_replaceOverrides
  remove := own_remove
  listEndUsers := own_endUsersList
  findEndUser := own_findById
  createEndUser := own_create
  updateEndUser := own_update
  removeEndUser := own_removeEndUser
  invite := own_invite
  revoke := own_revoke tenantId

/-- A tenant's request depends on the tenant's rows only. -/
theorem confined_handle {call : ApiCall} (h : actsFor tenantId call = true) :
    Own tenantId (handle deps call) := by
  have htenant : call.claims.tenantId = tenantId := of_decide_eq_true h
  subst htenant
  exact (own_blocks _).handle (own_requestMember _)

end Own

section Others

variable {tenantId other : String} {deps : ApiDeps}

/-- A program that leaves a tenant's rows as they are. -/
abbrev Beside (tenantId : String) {α : Type} (p : ApiProg α) : Prop :=
  Within (fun s s' => tenantView tenantId s' = tenantView tenantId s) (fun _ => True) p

theorem view_eq {s s' : ApiState}
    (hm : s'.members.filter (·.tenantId = tenantId) = s.members.filter (·.tenantId = tenantId))
    (ho : s'.overrides.filter (·.tenantId = tenantId) =
      s.overrides.filter (·.tenantId = tenantId))
    (he : s'.endUsers.filter (·.tenantId = tenantId) =
      s.endUsers.filter (·.tenantId = tenantId)) :
    tenantView tenantId s' = tenantView tenantId s := by
  unfold tenantView
  rw [hm, ho, he]

/-- A condition that all rows of a tenant meet selects them all. -/
theorem filter_beside {α : Type} {tenant : α → String} {p : α → Bool} (rows : List α)
    (h : ∀ r, tenant r = tenantId → p r = true) :
    (rows.filter p).filter (fun r => tenant r = tenantId) =
      rows.filter fun r => tenant r = tenantId := by
  rw [List.filter_filter]
  refine List.filter_congr fun r _ => ?_
  by_cases hr : tenant r = tenantId
  · rw [h r hr, Bool.and_true]
  · rw [decide_eq_false hr, Bool.false_and]

theorem beside_find (userId : String) : Beside tenantId (Members.find other userId) :=
  within_read fun _ => rfl

theorem beside_findWithOverrides (missing : Option ApiEvent) (userId : String) :
    Beside tenantId (Members.findWithOverrides missing other userId) := by
  refine within_act (fun i s b s' hrun => ?_) fun _ _ _ => trivial
  cases hrun
  rfl

/-- A member row of one tenant leaves the view of another. -/
theorem beside_upsert {event : ApiEvent} {member : Member} (h : member.tenantId ≠ tenantId) :
    Beside tenantId (Members.upsert event member) :=
  within_logged (fun _ => view_eq (upsertRow_other h) rfl rfl) fun _ => trivial

/-- A member removed from one tenant leaves the view of another. -/
theorem beside_remove (hne : other ≠ tenantId) (userId : String) :
    Beside tenantId (Members.remove other userId) := by
  refine within_logged (fun s => view_eq ?_ ?_ rfl) fun _ => trivial
  · refine filter_beside s.members fun m hm => decide_eq_true fun hkey => ?_
    exact hne ((Prod.mk.inj hkey).1.symm.trans hm)
  · refine filter_beside s.overrides fun row hrow => decide_eq_true fun hkey => ?_
    exact hne ((Prod.mk.inj hkey).1.symm.trans hrow)

/-- Overrides replaced in one tenant leave the view of another. -/
theorem beside_replaceOverrides (hne : other ≠ tenantId) (userId : String)
    (overrides : List PermissionOverride) :
    Beside tenantId (Members.replaceOverrides other userId overrides) := by
  refine within_atomic fun s => ?_
  split
  · rfl
  · next rows h =>
      refine view_eq rfl (Members.filter_replaceRows h fun row hkey => ?_) rfl
      exact decide_eq_false fun hmine => hne ((Prod.mk.inj hkey).1.symm.trans hmine)

/-- An end user of one tenant leaves the view of another. -/
theorem beside_create (hne : other ≠ tenantId) (input : EndUserInput) :
    Beside tenantId (EndUsers.create other input) := by
  refine within_ask fun i s b s' h => ?_
  cases i with
  | id id =>
      dsimp only at h
      split at h
      · cases h
      · cases h
        have hsingle : [(⟨id, other, input.name, input.email, input.phone, input.note⟩ :
            EndUser)].filter (·.tenantId = tenantId) = [] := by simp [hne]
        refine view_eq rfl rfl ?_
        rw [List.filter_append, hsingle, List.append_nil]
  | invited reply => cases h
  | revoked reply => cases h

/-- An end user updated in one tenant leaves the view of another. -/
theorem beside_update (hne : other ≠ tenantId) (id : String) (patch : EndUserInputPatch) :
    Beside tenantId (EndUsers.update other id patch) := by
  refine within_atomic fun s => view_eq rfl rfl ?_
  rw [filter_patch]
  conv_rhs => rw [← List.map_id (s.endUsers.filter _)]
  refine List.map_congr_left fun row hrow => ?_
  have hmine : row.tenantId = tenantId := of_decide_eq_true (List.mem_filter.mp hrow).2
  exact if_neg fun hfor => hne ((tenant_of_isFor hfor).symm.trans hmine)

/-- An end user removed from one tenant leaves the view of another. -/
theorem beside_removeEndUser (hne : other ≠ tenantId) (id : String) :
    Beside tenantId (EndUsers.remove other id) := by
  refine within_atomic fun s => view_eq rfl rfl ?_
  refine filter_beside s.endUsers fun row hrow => ?_
  rw [Bool.not_eq_true', Bool.eq_false_iff]
  exact fun hfor => hne ((tenant_of_isFor hfor).symm.trans hrow)

theorem beside_invite (email : String) (name : Option String) :
    Beside tenantId (invite deps email name) := by
  rcases invite_eq deps email name with ⟨f, hinvite, hf⟩
  rw [hinvite]
  refine within_ask fun i s b s' h => ?_
  rcases hf i s b s' h with ⟨_, _, rfl⟩
  rfl

theorem beside_revoke (userId : String) : Beside tenantId (revoke other userId) := by
  refine within_ask fun i s b s' h => ?_
  cases i with
  | revoked reply =>
      cases h
      rfl
  | id id => cases h
  | invited reply => cases h

/-- Resolving the member of a request leaves the view of another tenant. -/
theorem beside_requestMember (hne : other ≠ tenantId) (userId : String) :
    Beside tenantId (requestMember deps other userId) := by
  refine within_bind (beside_findWithOverrides _ _) fun found => ?_
  cases found with
  | none => exact within_bind (beside_upsert hne) fun _ => within_pure _
  | some found => exact within_pure _

/-- A role change in one tenant leaves the view of another. -/
theorem beside_changeMemberRole (hne : other ≠ tenantId) (userId role : String) :
    Beside tenantId (changeMemberRole other userId role) := by
  refine within_read_bind (fun _ => rfl) fun s => ?_
  cases hfound : s.members.find? (·.key = (other, userId)) with
  | none => exact within_pure _
  | some existing =>
      have htenant : existing.tenantId ≠ tenantId := tenant_of_found hfound ▸ hne
      exact within_bind (beside_upsert htenant) fun _ => within_pure _

/-- Every block of a request leaves the view of another tenant. -/
theorem beside_blocks (hne : other ≠ tenantId) :
    Blocks deps other fun _ p => Beside tenantId p where
  pure := within_pure
  bind := within_bind
  find := beside_find
  findWithOverrides := beside_findWithOverrides none
  list := within_read fun _ => rfl
  upsertInvited _ _ _ _ := beside_upsert hne
  changeRole := beside_changeMemberRole hne
  replaceOverrides := beside_replaceOverrides hne
  remove := beside_remove hne
  listEndUsers := within_read fun _ => rfl
  findEndUser _ := within_read fun _ => rfl
  createEndUser := beside_create hne
  updateEndUser := beside_update hne
  removeEndUser := beside_removeEndUser hne
  invite := beside_invite
  revoke := beside_revoke

/-- Another tenant's request leaves the tenant's rows as they are. -/
theorem beside_handle {call : ApiCall} (h : actsFor tenantId call = false) :
    Beside tenantId (handle deps call) := by
  have hne : call.claims.tenantId ≠ tenantId := of_decide_eq_false h
  exact (beside_blocks hne).handle (beside_requestMember hne _)

end Others

section Runs

variable {deps : ApiDeps}

/-- The other tenants do not interfere with a tenant. -/
theorem tenants_isolating (tenantId : String) :
    Isolating (apiSystem deps) (actsFor tenantId) (tenantView tenantId) where
  confined _ h := confined_handle h
  hidden _ h := beside_handle h
  env t s s' h := by
    cases t with
    | directory users =>
        cases h
        rfl

/-- What other tenants do does not show. Two runs with the same rows of a
    tenant at the start, the same requests of the tenant, the same new
    identifiers for them and the same answers of the authorization server to
    them end with the same rows and the same answers, whatever the other
    tenants' requests are and however all of them interleave. -/
theorem tenant_isolated (deps : ApiDeps) (tenantId : String) (init₁ init₂ : ApiState)
    (ms₁ ms₂ : List (Move ApiOutside ApiCall ApiChange))
    (q₁ q₂ : Pool ApiState ApiOutside ApiEvent ApiCall fun _ => ApiResponse)
    (hrows : tenantView tenantId init₁ = tenantView tenantId init₂)
    (h₁ : Pool.play (apiSystem deps) anyStep ⟨init₁, [], []⟩ ms₁ = some q₁)
    (h₂ : Pool.play (apiSystem deps) anyStep ⟨init₂, [], []⟩ ms₂ = some q₂)
    (hms : ownMoves (actsFor tenantId) [] ms₁ = ownMoves (actsFor tenantId) [] ms₂) :
    tenantView tenantId q₁.store = tenantView tenantId q₂.store ∧
      q₁.own (actsFor tenantId) = q₂.own (actsFor tenantId) :=
  isolated (tenants_isolating tenantId) hrows h₁ h₂ hms

end Runs

section Example

def owner (tenantId userId : String) : Member :=
  ⟨tenantId, userId, none, none, "owner", .active⟩

/-- Two tenants with an owner each. -/
def twoTenants : ApiState :=
  { members := [owner "acme" "alice", owner "globex" "bea"], overrides := [], endUsers := []
    directory := [⟨"alice", "alice@example.com", none, true⟩,
      ⟨"bea", "bea@example.com", none, true⟩] }

def invitation (tenantId actor name : String) : ApiCall :=
  ⟨⟨actor, tenantId, tenantId, "crm"⟩, .inviteMember ⟨"carol@example.com", some name, "member"⟩⟩

/-- A thread that is answered an invitation in the middle. -/
def invited (index : Nat) (name : String) : List (Move ApiOutside ApiCall ApiChange) :=
  [.run index (.id ""),
    .run index (.invited (.ok ⟨"carol", "carol@example.com", some name, false⟩)),
    .run index (.id "")]

/-- The tenant's invitation alone. -/
def aloneMoves : List (Move ApiOutside ApiCall ApiChange) :=
  [.spawn (invitation "acme" "alice" "Carol")] ++ invited 0 "Carol"

/-- The same after another tenant's, which comes with another name. -/
def afterOtherMoves : List (Move ApiOutside ApiCall ApiChange) :=
  [.spawn (invitation "globex" "bea" "Caroline")] ++ invited 0 "Caroline" ++
  [.spawn (invitation "acme" "alice" "Carol")] ++ invited 1 "Caroline"

/-- The same in between another tenant's request about a user that is not its
    own, and one that creates an end user. -/
def besideOthersMoves : List (Move ApiOutside ApiCall ApiChange) :=
  [.spawn ⟨⟨"bea", "globex", "globex", "crm"⟩, .removeMember "alice"⟩, .run 0 (.id ""),
    .spawn (invitation "acme" "alice" "Carol"), .run 0 (.id ""),
    .spawn ⟨⟨"bea", "globex", "globex", "crm"⟩, .createEndUser ⟨"Dan", "d@example.com", "", ""⟩⟩,
    .run 2 (.id "")] ++ invited 1 "Carol" ++ [.run 2 (.id "end-user")]

/-- Both runs of the tenant's invitation end in the same way for it. -/
theorem acme_is_isolated :
    ∃ q₁ q₂ : Pool ApiState ApiOutside ApiEvent ApiCall fun _ => ApiResponse,
      Pool.play (apiSystem crmDeps) anyStep ⟨twoTenants, [], []⟩ aloneMoves = some q₁ ∧
      Pool.play (apiSystem crmDeps) anyStep ⟨twoTenants, [], []⟩ besideOthersMoves = some q₂ ∧
      tenantView "acme" q₁.store = tenantView "acme" q₂.store ∧
      q₁.own (actsFor "acme") = q₂.own (actsFor "acme") := by
  have hone : (Pool.play (apiSystem crmDeps) anyStep ⟨twoTenants, [], []⟩ aloneMoves).any
      (fun q => decide (q.store.members.length = 3)) = true := by decide +kernel
  have htwo : (Pool.play (apiSystem crmDeps) anyStep ⟨twoTenants, [], []⟩ besideOthersMoves).any
      (fun q => decide (q.store.endUsers.length = 1 ∧ q.store.members.length = 3)) = true := by
    decide +kernel
  rcases (Option.any_eq_true _ _).mp hone with ⟨q₁, hq₁, _⟩
  rcases (Option.any_eq_true _ _).mp htwo with ⟨q₂, hq₂, _⟩
  exact ⟨q₁, q₂, hq₁, hq₂, tenant_isolated crmDeps "acme" twoTenants twoTenants aloneMoves
    besideOthersMoves q₁ q₂ rfl hq₁ hq₂ rfl⟩

/-- A move without the authorization server's answer to it. -/
def withoutReply : Move ApiOutside ApiCall ApiChange → Move ApiOutside ApiCall ApiChange
  | .run index (.invited _) => .run index (.id "")
  | .run index (.revoked _) => .run index (.id "")
  | m => m

/-- The authorization server's users are shared: of two runs with the same
    requests of a tenant, another tenant's invitation of the same address
    makes a difference to the tenant's rows. -/
theorem invited_name_shows :
    ∃ q₁ q₂ : Pool ApiState ApiOutside ApiEvent ApiCall fun _ => ApiResponse,
      Pool.play (apiSystem crmDeps) anyStep ⟨twoTenants, [], []⟩ aloneMoves = some q₁ ∧
      Pool.play (apiSystem crmDeps) anyStep ⟨twoTenants, [], []⟩ afterOtherMoves = some q₂ ∧
      (ownMoves (actsFor "acme") [] aloneMoves).map withoutReply =
        (ownMoves (actsFor "acme") [] afterOtherMoves).map withoutReply ∧
      (tenantView "acme" q₁.store).members ≠ (tenantView "acme" q₂.store).members := by
  have hone : (Pool.play (apiSystem crmDeps) anyStep ⟨twoTenants, [], []⟩ aloneMoves).any
      (fun q => (tenantView "acme" q.store).members.any (·.name = some "Carol")) = true := by
    decide +kernel
  have htwo : (Pool.play (apiSystem crmDeps) anyStep ⟨twoTenants, [], []⟩ afterOtherMoves).any
      (fun q => !(tenantView "acme" q.store).members.any (·.name = some "Carol")) = true := by
    decide +kernel
  rcases (Option.any_eq_true _ _).mp hone with ⟨q₁, hq₁, hname₁⟩
  rcases (Option.any_eq_true _ _).mp htwo with ⟨q₂, hq₂, hname₂⟩
  refine ⟨q₁, q₂, hq₁, hq₂, rfl, fun heq => ?_⟩
  rw [← heq, hname₁] at hname₂
  cases hname₂

end Example

end Sandbox.Api.Tenants
