import Sandbox.Api.Blocks
import Sandbox.Interleave.Effects

/-!
# What Requests Do to the Members

The rows of the members change in four ways: a request's user becomes a
member, a user is invited, a member gets another role, a member is removed.
Each leaves its event, and no other action touches the rows.

The first three are one insertion or update, so what is left of a row, and
what of the other rows, is said once.

## Main definitions

* `Stored`: The table after an insertion or update.
* `memberEffect`, `administers`: What each event stands for.

## Theorems

* `mem_upsertRow`, `mem_upsertRow_self`, `mem_upsertRow_of_ne`: The rows after
  an insertion or update.
* `effects_handle`: What requests do.
-/

namespace Sandbox.Api

open Interleave

section Rows

variable {member m : Member} {rows : List Member}

/-- The row that an insertion or update leaves has what it asked for. -/
theorem upsertRow_fst (member : Member) (rows : List Member) :
    (Members.upsertRow member rows).1.key = member.key ∧
      (Members.upsertRow member rows).1.role = member.role ∧
      (Members.upsertRow member rows).1.status = member.status := by
  unfold Members.upsertRow
  split
  · exact ⟨rfl, rfl, rfl⟩
  · exact ⟨rfl, rfl, rfl⟩

/-- Every row is the new one or was there under another key. -/
theorem mem_upsertRow (h : m ∈ (Members.upsertRow member rows).2) :
    m = (Members.upsertRow member rows).1 ∨ m ∈ rows ∧ m.key ≠ member.key := by
  unfold Members.upsertRow at h ⊢
  split at h
  · next hnone =>
      rcases List.mem_append.mp h with h | h
      · refine .inr ⟨h, fun hkey => ?_⟩
        exact List.find?_eq_none.mp hnone m h (decide_eq_true hkey)
      · exact .inl (List.mem_singleton.mp h)
  · exact Tables.mem_update h

theorem mem_upsertRow_self (member : Member) (rows : List Member) :
    (Members.upsertRow member rows).1 ∈ (Members.upsertRow member rows).2 := by
  unfold Members.upsertRow
  split
  · exact List.mem_append_right _ (List.mem_singleton.mpr rfl)
  · next old hfound =>
      have hkey := List.find?_some (p := fun m : Member => m.key = member.key) hfound
      exact Tables.mem_update_self (List.mem_of_find?_eq_some hfound) (of_decide_eq_true hkey)

/-- The rows under other keys stay. -/
theorem mem_upsertRow_of_ne (hm : m ∈ rows) (hne : m.key ≠ member.key) :
    m ∈ (Members.upsertRow member rows).2 := by
  unfold Members.upsertRow
  split
  · exact List.mem_append_left _ hm
  · exact Tables.mem_update_of_ne hm hne

end Rows

section Effects

variable {deps : ApiDeps}

/-- The row of a user who becomes a member with the first request. -/
def defaultMember (deps : ApiDeps) (tenantId userId : String) : Member :=
  { tenantId, userId, email := none, name := none, role := deps.definition.defaultRole
    status := .active }

/-- The table after a row was inserted or updated. -/
def Stored (member : Member) (s s' : ApiState) : Prop :=
  s'.members = (Members.upsertRow member s.members).2

/-- What each event stands for. -/
def memberEffect (deps : ApiDeps) (s : ApiState) : Option ApiEvent → ApiState → Prop
  | none, s' => s'.members = s.members
  | some (.memberMissing tenantId userId), s' =>
      s'.members = s.members ∧ ∀ m ∈ s.members, m.key ≠ (tenantId, userId)
  | some (.memberDefaulted tenantId userId), s' => Stored (defaultMember deps tenantId userId) s s'
  | some (.memberInvited tenantId userId role), s' =>
      ∃ member, member.key = (tenantId, userId) ∧ member.role = role ∧
        member.status = .active ∧ Stored member s s'
  | some (.roleChanged tenantId userId role), s' =>
      ∃ member, member.key = (tenantId, userId) ∧ member.role = role ∧ Stored member s s'
  | some (.memberRemoved tenantId userId), s' =>
      s'.members = s.members.filter fun m => m.key ≠ (tenantId, userId)

/-- What the administration of members does, which is the part of a request
    that follows once its own member is found. -/
def administers (deps : ApiDeps) (s : ApiState) (e : Option ApiEvent) (s' : ApiState) : Prop :=
  memberEffect deps s e s' ∧ ∀ tenantId userId,
    e ≠ some (.memberMissing tenantId userId) ∧ e ≠ some (.memberDefaulted tenantId userId)

abbrev Administers (deps : ApiDeps) {α : Type} (p : ApiProg α) : Prop :=
  Effects (administers deps) p

/-- An action that leaves the members alone and no event. -/
theorem administers_none {s s' : ApiState} (h : s'.members = s.members) :
    administers deps s none s' :=
  ⟨h, fun _ _ => ⟨nofun, nofun⟩⟩

theorem administers_read {β : Type} (f : ApiState → β) : Administers deps (Prog.read f) :=
  effects_read fun _ => administers_none rfl

theorem administers_findWithOverrides (tenantId userId : String) :
    Administers deps (Members.findWithOverrides none tenantId userId) := by
  refine effects_act fun i s b s' hrun => ?_
  cases hrun
  split
  · exact administers_none rfl
  · exact administers_none rfl

theorem administers_invited {tenantId : String} (userId : String) (email name : Option String)
    (role : String) :
    Administers deps (Members.upsert (.memberInvited tenantId userId role)
      ⟨tenantId, userId, email, name, role, .active⟩) :=
  effects_logged fun _ => ⟨⟨_, rfl, rfl, rfl, rfl⟩, fun _ _ => ⟨nofun, nofun⟩⟩

theorem administers_remove (tenantId userId : String) :
    Administers deps (Members.remove tenantId userId) :=
  effects_logged fun _ => ⟨rfl, fun _ _ => ⟨nofun, nofun⟩⟩

/-- Replacing overrides changes those of one member. -/
theorem administers_replaceOverrides (tenantId userId : String)
    (overrides : List PermissionOverride) :
    Administers deps (Members.replaceOverrides tenantId userId overrides) := by
  refine effects_atomic fun s => ?_
  split
  · exact administers_none rfl
  · exact administers_none rfl

/-- A new end user changes neither members nor overrides. -/
theorem administers_create (tenantId : String) (input : EndUserInput) :
    Administers deps (EndUsers.create tenantId input) := by
  refine effects_ask fun i s b s' h => ?_
  split at h
  · split at h
    · cases h
    · cases h
      exact administers_none rfl
  · cases h

theorem administers_invite (email : String) (name : Option String) :
    Administers deps (invite deps email name) := by
  rcases invite_eq deps email name with ⟨f, hinvite, hf⟩
  rw [hinvite]
  refine effects_ask fun i s b s' h => ?_
  rcases hf i s b s' h with ⟨_, _, rfl⟩
  exact administers_none rfl

theorem administers_revoke (tenantId userId : String) :
    Administers deps (revoke tenantId userId) := by
  refine effects_ask fun i s b s' h => ?_
  split at h
  · cases h
    exact administers_none rfl
  · cases h

/-- A member that is found has the key that was asked for. -/
theorem key_of_found {key : String × String} {rows : List Member} {m : Member}
    (h : rows.find? (·.key = key) = some m) : m.key = key :=
  of_decide_eq_true (List.find?_some (p := fun m : Member => m.key = key) h)

/-- The row that was looked up is the user's, so the one that is written is. -/
theorem administers_changeMemberRole (tenantId userId role : String) :
    Administers deps (changeMemberRole tenantId userId role) := by
  refine effects_read_bind (fun _ => administers_none rfl) fun s => ?_
  cases hfound : s.members.find? (·.key = (tenantId, userId)) with
  | none => exact effects_pure _
  | some existing =>
      have hkey : existing.key = (tenantId, userId) := key_of_found hfound
      refine effects_bind (effects_logged fun s => ?_) fun _ => effects_pure _
      exact ⟨⟨{ existing with role := role }, hkey, rfl, rfl⟩, fun _ _ => ⟨nofun, nofun⟩⟩

/-- The blocks of requests administer members. -/
theorem blocks_of_administers {R : ApiState → Option ApiEvent → ApiState → Prop}
    (hR : ∀ s e s', administers deps s e s' → R s e s') (tenantId : String) :
    Blocks deps tenantId fun _ p => Effects R p where
  pure := effects_pure
  bind := effects_bind
  find _ := effects_mono (administers_read _) hR
  findWithOverrides _ := effects_mono (administers_findWithOverrides tenantId _) hR
  list := effects_mono (administers_read _) hR
  upsertInvited _ _ _ _ := effects_mono (administers_invited _ _ _ _) hR
  changeRole _ _ := effects_mono (administers_changeMemberRole tenantId _ _) hR
  replaceOverrides _ _ := effects_mono (administers_replaceOverrides tenantId _ _) hR
  remove _ := effects_mono (administers_remove tenantId _) hR
  listEndUsers := effects_mono (administers_read _) hR
  findEndUser _ := effects_mono (administers_read _) hR
  createEndUser _ := effects_mono (administers_create tenantId _) hR
  updateEndUser _ _ := effects_atomic fun _ => hR _ _ _ (administers_none rfl)
  removeEndUser _ := effects_atomic fun _ => hR _ _ _ (administers_none rfl)
  invite _ _ := effects_mono (administers_invite _ _) hR
  revoke _ := effects_mono (administers_revoke tenantId _) hR

/-- Whoever is missing has no row. -/
theorem effects_findMissing (tenantId userId : String) :
    Effects (memberEffect deps)
      (Members.findWithOverrides (some (.memberMissing tenantId userId)) tenantId userId) := by
  refine effects_act fun i s b s' hrun => ?_
  cases hrun
  split
  · next hnone =>
      refine ⟨rfl, fun m hm hkey => ?_⟩
      rw [Option.isNone_iff_eq_none, Members.lookup, Option.map_eq_none_iff] at hnone
      exact List.find?_eq_none.mp hnone m hm (decide_eq_true hkey)
  · exact rfl

/-- Resolving the member of a request has an effect of its own kind. -/
theorem effects_requestMember (tenantId userId : String) :
    Effects (memberEffect deps) (requestMember deps tenantId userId) := by
  refine effects_bind (effects_findMissing _ _) fun found => ?_
  cases found with
  | none => exact effects_bind (effects_logged fun _ => rfl) fun _ => effects_pure _
  | some found => exact effects_pure _

/-- What requests do to the members. -/
theorem effects_handle (call : ApiCall) : Effects (memberEffect deps) (handle deps call) :=
  (blocks_of_administers (fun _ _ _ h => h.1) _).handle (effects_requestMember _ _)

end Effects

end Sandbox.Api
