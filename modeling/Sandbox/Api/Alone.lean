import Sandbox.Api.Effects
import Sandbox.Interleave.Sequential

/-!
# Requests One at a Time

A request that runs alone finds its member or inserts one, and then does one
of five things to the members and their overrides: nothing, an invitation, a
change of a role, a replacement of overrides, or a removal. `Administered`
lists them, and `exec_handle` says that there are no others.

The overrides of a member refer to the row, which the database checks. In a
database where they do, a user without a row has no overrides.

## Main definitions

* `Consistent`: What the database checks.
* `FoundBy`: What a request's member is, and what finding it has done.
* `Administered`: What an operation has done.

## Theorems

* `exec_handle`: A request that ran alone.
* `consistent_handle`: The database stays consistent.
-/

namespace Sandbox.Api

open Interleave

section Tables

variable {s s' : ApiState} {key : String × String} {member : Member}

/-- What the database checks: a member has one row, and every override is a
    member's. -/
structure Consistent (s : ApiState) : Prop where
  keys : Tables.Unique (fun m => some m.key) s.members
  referenced : ∀ row ∈ s.overrides, ∃ m ∈ s.members, m.key = row.key

/-- Without a row there are no overrides. -/
theorem Consistent.overridesOf_eq_nil (h : Consistent s)
    (hnone : ∀ m ∈ s.members, m.key ≠ key) : Members.overridesOf s key = [] := by
  have hempty : s.overrides.filter (·.key = key) = [] := by
    rw [List.filter_eq_nil_iff]
    intro row hrow hkey
    rcases h.referenced row hrow with ⟨m, hm, heq⟩
    exact hnone m hm (heq.trans (of_decide_eq_true hkey))
  unfold Members.overridesOf
  rw [hempty]
  rfl

/-- The overrides of a member depend on the member's rows only. -/
theorem overridesOf_congr
    (h : s'.overrides.filter (·.key = key) = s.overrides.filter (·.key = key)) :
    Members.overridesOf s' key = Members.overridesOf s key := by
  unfold Members.overridesOf
  rw [h]

/-- The overrides of a member depend on the overrides alone. -/
theorem overridesOf_eq (h : s'.overrides = s.overrides) (key : String × String) :
    Members.overridesOf s' key = Members.overridesOf s key :=
  overridesOf_congr (by rw [h])

/-- A member row that is stored keeps the tables consistent. -/
theorem Consistent.stored (h : Consistent s) (hs : Stored member s s')
    (ho : s'.overrides = s.overrides) : Consistent s' := by
  refine ⟨?_, fun row hrow => ?_⟩
  · rw [hs]
    unfold Members.upsertRow
    split
    · next hnone =>
        refine Tables.unique_append h.keys fun m hm k hk hk' => ?_
        have hkey : m.key = member.key := Option.some.inj (hk.trans hk'.symm)
        exact List.find?_eq_none.mp hnone m hm (decide_eq_true hkey)
    · refine Tables.unique_update h.keys h.keys fun k hk m hm hk' => ?_
      exact Option.some.inj (hk'.trans hk.symm)
  · rw [ho] at hrow
    rcases h.referenced row hrow with ⟨m, hm, hkey⟩
    by_cases heq : m.key = member.key
    · refine ⟨_, hs ▸ mem_upsertRow_self member s.members, ?_⟩
      rw [(upsertRow_fst member s.members).1, ← heq, hkey]
    · exact ⟨m, hs ▸ mem_upsertRow_of_ne hm heq, hkey⟩

/-- With a member the overrides go. -/
theorem Consistent.removed (h : Consistent s) (key : String × String) :
    Consistent { s with
      members := s.members.filter fun m => m.key ≠ key
      overrides := s.overrides.filter fun row => row.key ≠ key } := by
  refine ⟨Tables.unique_filter _ h.keys, fun row hrow => ?_⟩
  rcases List.mem_filter.mp hrow with ⟨hrow, hne⟩
  rcases h.referenced row hrow with ⟨m, hm, hkey⟩
  refine ⟨m, List.mem_filter.mpr ⟨hm, decide_eq_true ?_⟩, hkey⟩
  rw [hkey]
  exact of_decide_eq_true hne

/-- Overrides that are replaced keep the tables consistent. -/
theorem Consistent.replaced (h : Consistent s) {tenantId userId : String}
    {overrides : List PermissionOverride} {rows : List OverrideRow}
    (hrows : Members.replaceRows tenantId userId overrides s = some rows) :
    Consistent { s with overrides := rows } := by
  refine ⟨h.keys, fun row hrow => ?_⟩
  unfold Members.replaceRows at hrows
  dsimp only at hrows
  split_ifs at hrows with _ hmember
  · rw [← Option.some.inj hrows] at hrow
    exact h.referenced row (List.mem_filter.mp hrow).1
  · rw [← Option.some.inj hrows] at hrow
    rcases List.mem_append.mp hrow with hrow | hrow
    · exact h.referenced row (List.mem_filter.mp hrow).1
    · rcases List.mem_map.mp hrow with ⟨override, _, rfl⟩
      rcases List.any_eq_true.mp hmember.1 with ⟨m, hm, hkey⟩
      exact ⟨m, hm, of_decide_eq_true hkey⟩

/-- The overrides that a replacement asks for are there afterwards, in some
    order. -/
theorem mem_overridesOf_replaced {tenant user : String} {overrides : List PermissionOverride}
    {rows : List OverrideRow} (h : Members.replaceRows tenant user overrides s = some rows)
    (override : PermissionOverride) :
    override ∈ Members.overridesOf { s with overrides := rows } (tenant, user) ↔
      override ∈ overrides := by
  -- The rows that stay are of other members, and the new ones of this.
  have hkept : (s.overrides.filter fun row => row.key ≠ (tenant, user)).filter
      (·.key = (tenant, user)) = [] := by
    rw [List.filter_eq_nil_iff]
    intro row hrow hkey
    exact of_decide_eq_true (List.mem_filter.mp hrow).2 (of_decide_eq_true hkey)
  have hnew : (overrides.map fun override => (⟨tenant, user, override⟩ : OverrideRow)).filter
      (·.key = (tenant, user)) =
        overrides.map fun override => (⟨tenant, user, override⟩ : OverrideRow) := by
    rw [List.filter_eq_self]
    intro row hrow
    rcases List.mem_map.mp hrow with ⟨_, _, rfl⟩
    exact decide_eq_true rfl
  have hrows : (rows.filter (·.key = (tenant, user))).map (·.override) = overrides := by
    unfold Members.replaceRows at h
    dsimp only at h
    split_ifs at h with hempty
    · rw [← Option.some.inj h, hkept, hempty, List.map_nil]
    · rw [← Option.some.inj h, List.filter_append, hkept, hnew, List.nil_append, List.map_map]
      exact List.map_id _
  unfold Members.overridesOf
  rw [List.mem_insertionSort]
  dsimp only
  rw [hrows]

end Tables

section Operations

variable {deps : ApiDeps} {s s' : ApiState} {ctx : TenantContext} {es : List ApiEvent}

/-- The member of a request, the events and the state after it was found. -/
inductive FoundBy (deps : ApiDeps) (s : ApiState) (tenantId userId : String) :
    MemberWithOverrides → List ApiEvent → ApiState → Prop
  | there {found : MemberWithOverrides}
      (h : Members.lookup s (tenantId, userId) = some found) :
      FoundBy deps s tenantId userId found [] s
  | inserted (h : ∀ m ∈ s.members, m.key ≠ (tenantId, userId)) :
      FoundBy deps s tenantId userId ⟨defaultMember deps tenantId userId, []⟩
        [.memberDefaulted tenantId userId, .memberMissing tenantId userId]
        { s with members := s.members ++ [defaultMember deps tenantId userId] }

/-- What an operation has done to the members and the overrides. -/
inductive Administered (s : ApiState) (ctx : TenantContext) :
    Operation → List ApiEvent → ApiState → Prop
  | nothing {operation : Operation} {s' : ApiState} (hm : s'.members = s.members)
      (ho : s'.overrides = s.overrides) : Administered s ctx operation [] s'
  | invited {input : InviteMemberInput} {s' : ApiState} (user : InvitedUser)
      (hs : Stored ⟨ctx.tenantId, user.userId, some user.email, user.name, input.role, .active⟩
        s s')
      (ho : s'.overrides = s.overrides) :
      Administered s ctx (.inviteMember input)
        [.memberInvited ctx.tenantId user.userId input.role] s'
  | roleChanged {userId role : String} {s' : ApiState} (existing : Member)
      (hfound : s.members.find? (·.key = (ctx.tenantId, userId)) = some existing)
      (hs : Stored { existing with role := role } s s') (ho : s'.overrides = s.overrides) :
      Administered s ctx (.changeRole userId role) [.roleChanged ctx.tenantId userId role] s'
  | replaced {userId : String} {overrides : List PermissionOverride} {rows : List OverrideRow}
      (existing : Member)
      (hfound : s.members.find? (·.key = (ctx.tenantId, userId)) = some existing)
      (hrows : Members.replaceRows ctx.tenantId userId overrides s = some rows) :
      Administered s ctx (.replaceOverrides userId overrides) [] { s with overrides := rows }
  | removed {userId : String} (hother : userId ≠ ctx.userId) :
      Administered s ctx (.removeMember userId) [.memberRemoved ctx.tenantId userId]
        { s with
          members := s.members.filter fun m => m.key ≠ (ctx.tenantId, userId)
          overrides := s.overrides.filter fun row => row.key ≠ (ctx.tenantId, userId) }

/-- The request's member is found, or inserted where there is none. -/
theorem exec_requestMember {tenantId userId : String} {found : MemberWithOverrides}
    (h : Exec s (requestMember deps tenantId userId) es found s') :
    FoundBy deps s tenantId userId found es s' := by
  rcases exec_bind h with ⟨looked, s₁, es₁, es₂, hlook, hrest, rfl⟩
  rcases exec_act hlook with ⟨_, looked', s₂, es₃, hrun, hdone, rfl⟩
  cases hrun
  rcases exec_done hdone with ⟨hes₃, hlooked, hs₁⟩
  subst hes₃ hlooked
  rw [hs₁] at hrest
  cases hlookup : Members.lookup s (tenantId, userId) with
  | some member =>
      rw [hlookup] at hrest
      rcases exec_done hrest with ⟨rfl, rfl, rfl⟩
      exact .there hlookup
  | none =>
      rw [hlookup] at hrest
      rcases exec_bind hrest with ⟨member, s₂, es₄, es₅, hupsert, hdone, rfl⟩
      rcases exec_done hdone with ⟨rfl, rfl, rfl⟩
      rcases exec_logged hupsert with ⟨rfl, hmember, hs⟩
      -- Nobody came between, so the upsert appends a row.
      rw [Members.lookup, Option.map_eq_none_iff] at hlookup
      have hfind : s.members.find? (·.key = (defaultMember deps tenantId userId).key) = none :=
        hlookup
      have hrow : Members.upsertRow (defaultMember deps tenantId userId) s.members =
          (defaultMember deps tenantId userId,
            s.members ++ [defaultMember deps tenantId userId]) := by
        unfold Members.upsertRow
        rw [hfind]
      have hmember' : member = defaultMember deps tenantId userId :=
        hmember.trans (congrArg Prod.fst hrow)
      have hs' : s' = { s with members := s.members ++ [defaultMember deps tenantId userId] } :=
        hs.trans (congrArg (fun r => { s with members := r.2 }) hrow)
      rw [hmember', hs']
      exact .inserted fun m hm hkey => List.find?_eq_none.mp hlookup m hm (decide_eq_true hkey)

/-- An action that does nothing to the members and overrides, and leaves no
    event. -/
abbrev Untouching {α : Type} (p : ApiProg α) : Prop :=
  Within (fun s s' : ApiState => s'.members = s.members ∧ s'.overrides = s.overrides)
    (fun _ => False) p

theorem untouching_read {β : Type} (f : ApiState → β) : Untouching (Prog.read f) :=
  within_read fun _ => ⟨rfl, rfl⟩

theorem untouching_ask {β : Type} {f : ApiOutside → ApiState → Option (β × ApiState)}
    (h : ∀ i s b s', f i s = some (b, s') →
      s'.members = s.members ∧ s'.overrides = s.overrides) : Untouching (Prog.ask f) :=
  within_ask h

/-- An operation that leaves members and overrides administers nothing. -/
theorem administered_of_untouching {α : Type} {p : ApiProg α} {a : α} {operation : Operation}
    (hp : Untouching p) (h : Exec s p es a s') : Administered s ctx operation es s' := by
  rcases exec_within (fun _ => ⟨rfl, rfl⟩)
    (fun _ _ _ h₁ h₂ => ⟨h₂.1.trans h₁.1, h₂.2.trans h₁.2⟩) h hp with ⟨⟨hm, ho⟩, hno⟩
  have hes : es = [] := List.eq_nil_iff_forall_not_mem.mpr hno
  subst hes
  exact .nothing hm ho

theorem untouching_getMemberDetail (tenantId userId : String) :
    Untouching (getMemberDetail tenantId userId) := by
  refine within_bind (within_act (fun i s b s' hrun => ?_) fun b x hx => ?_) fun found => ?_
  · cases hrun
    exact ⟨rfl, rfl⟩
  · split at hx
    · cases hx
    · cases hx
  · cases found with
    | none => exact within_pure _
    | some found => exact within_pure _

theorem untouching_create (tenantId : String) (input : EndUserInput) :
    Untouching (EndUsers.create tenantId input) := by
  refine untouching_ask fun i s b s' h => ?_
  split at h
  · split at h
    · cases h
    · cases h
      exact ⟨rfl, rfl⟩
  · cases h

/-- An invitation that runs alone stores at most the invited row. -/
theorem exec_inviteMember {input : InviteMemberInput} {a : Except MemberError (Member × Bool)}
    (h : Exec s (inviteMember deps ctx.tenantId input) es a s') :
    Administered s ctx (.inviteMember input) es s' := by
  rcases exec_bind h with ⟨invited, s₁, es₁, es₂, hinvite, hrest, rfl⟩
  rcases invite_eq deps input.email input.name with ⟨f, heq, hf⟩
  rw [heq] at hinvite
  rcases exec_act hinvite with ⟨i, b, s₂, es₃, hrun, hdone, rfl⟩
  rcases exec_done hdone with ⟨rfl, rfl, rfl⟩
  rcases hf i s _ _ hrun with ⟨_, directory, rfl⟩
  cases invited with
  | error e =>
      rcases exec_done hrest with ⟨rfl, _, rfl⟩
      exact .nothing rfl rfl
  | ok user =>
      rcases exec_bind hrest with ⟨member, s₂, es₄, es₅, hupsert, hdone, rfl⟩
      rcases exec_done hdone with ⟨rfl, _, rfl⟩
      rcases exec_logged hupsert with ⟨rfl, _, rfl⟩
      exact .invited user rfl rfl

/-- A role change that runs alone stores the row with the new role. -/
theorem exec_changeMemberRole {userId role : String} {a : Except MemberError Member}
    (h : Exec s (changeMemberRole ctx.tenantId userId role) es a s') :
    Administered s ctx (.changeRole userId role) es s' := by
  rcases exec_bind h with ⟨existing, s₁, es₁, es₂, hfind, hrest, rfl⟩
  rcases exec_read hfind with ⟨rfl, hexisting, rfl⟩
  cases existing with
  | none =>
      rcases exec_done hrest with ⟨rfl, _, rfl⟩
      exact .nothing rfl rfl
  | some existing =>
      rcases exec_bind hrest with ⟨member, s₂, es₄, es₅, hupsert, hdone, rfl⟩
      rcases exec_done hdone with ⟨rfl, _, rfl⟩
      rcases exec_logged hupsert with ⟨rfl, _, rfl⟩
      exact .roleChanged existing hexisting.symm rfl rfl

/-- Overrides replaced alone are those of the request. -/
theorem exec_replaceMemberOverrides {userId : String} {overrides : List PermissionOverride}
    {a : Option (Except MemberError (Finset String))}
    (h : Exec s (replaceMemberOverrides deps ctx.tenantId userId overrides) es a s') :
    Administered s ctx (.replaceOverrides userId overrides) es s' := by
  rcases exec_bind h with ⟨existing, s₁, es₁, es₂, hfind, hrest, rfl⟩
  rcases exec_read hfind with ⟨rfl, hexisting, rfl⟩
  cases existing with
  | none =>
      rcases exec_done hrest with ⟨rfl, _, rfl⟩
      exact .nothing rfl rfl
  | some existing =>
      have hkey : existing.key = (ctx.tenantId, userId) := key_of_found hexisting.symm
      have huser : existing.userId = userId := (Prod.mk.inj hkey).2
      rcases exec_bind hrest with ⟨replaced, s₂, es₄, es₅, hreplace, hdone, rfl⟩
      -- The answer is computed without a further step.
      have hend : es₅ = [] ∧ s' = s₂ := by
        split at hdone
        · rcases exec_done hdone with ⟨rfl, _, rfl⟩
          exact ⟨rfl, rfl⟩
        · rcases exec_done hdone with ⟨rfl, _, rfl⟩
          exact ⟨rfl, rfl⟩
      rcases hend with ⟨rfl, rfl⟩
      rcases exec_atomic hreplace with ⟨rfl, _, hs⟩
      rw [huser] at hs
      -- A repeated permission rolls the transaction back.
      cases hrows : Members.replaceRows ctx.tenantId userId overrides s₁ with
      | none =>
          rw [hrows] at hs
          rw [hs]
          exact .nothing rfl rfl
      | some rows =>
          rw [hrows] at hs
          rw [hs]
          exact .replaced existing hexisting.symm hrows

/-- A removal that runs alone removes one row with its overrides. -/
theorem exec_removeMember {userId : String} {a : Except MemberError Unit}
    (h : Exec s (removeMember ctx.tenantId ctx.userId userId) es a s') :
    Administered s ctx (.removeMember userId) es s' := by
  -- Nobody may remove themselves.
  unfold removeMember at h
  split at h
  · rcases exec_done h with ⟨rfl, _, rfl⟩
    exact .nothing rfl rfl
  · next hother =>
      rcases exec_bind h with ⟨existing, s₁, es₁, es₂, hfind, hrest, rfl⟩
      rcases exec_read hfind with ⟨rfl, hexisting, rfl⟩
      cases existing with
      | none =>
          rcases exec_done hrest with ⟨rfl, _, rfl⟩
          exact .nothing rfl rfl
      | some existing =>
          rcases exec_bind hrest with ⟨revoked, s₂, es₄, es₅, hrevoke, hend, rfl⟩
          -- Asking the directory changes no table.
          have hsame : s₂ = s₁ ∧ es₄ = [] := by
            rcases exec_act hrevoke with ⟨i, b, s₃, es₆, hrun, hdone, rfl⟩
            rcases exec_done hdone with ⟨rfl, _, rfl⟩
            split at hrun
            · cases hrun
              exact ⟨rfl, rfl⟩
            · cases hrun
          rcases hsame with ⟨rfl, rfl⟩
          -- Whatever the answer, the row goes unless the directory failed.
          have hremove : ∀ {b : Except MemberError Unit} {es : List ApiEvent} {s' : ApiState},
              Exec s₂ (do
                Members.remove ctx.tenantId userId
                (pure b : ApiProg _)) es a s' →
              Administered s₂ ctx (.removeMember userId) es s' := by
            intro b es s' hexec
            rcases exec_bind hexec with ⟨_, s₃, es₇, es₈, hremove, hdone, rfl⟩
            rcases exec_done hdone with ⟨rfl, _, rfl⟩
            rcases exec_logged hremove with ⟨rfl, _, rfl⟩
            exact .removed hother
          rw [List.append_nil, List.append_nil]
          split at hend
          · exact hremove hend
          · exact hremove hend
          · rcases exec_done hend with ⟨rfl, _, rfl⟩
            exact .nothing rfl rfl

/-- What follows an operation is put into the response and does nothing. -/
theorem exec_respond {α β : Type} {p : ApiProg α} {f : α → ApiProg β} {b : β}
    (h : Exec s (p >>= f) es b s') (hf : ∀ a, ∃ b, f a = pure b) :
    ∃ a, Exec s p es a s' := by
  rcases exec_bind h with ⟨a, s₁, es₁, es₂, hhead, htail, rfl⟩
  rcases hf a with ⟨b', hb'⟩
  rw [hb'] at htail
  rcases exec_done htail with ⟨rfl, _, rfl⟩
  exact ⟨a, hhead⟩

/-- What an operation does alone. -/
theorem exec_perform {operation : Operation} {a : ApiResponse}
    (h : Exec s (perform deps ctx operation) es a s') :
    Administered s ctx operation es s' := by
  -- Four operations change members, the others leave them alone.
  cases operation with
  | me => exact administered_of_untouching (within_pure _) h
  | listMembers =>
      exact administered_of_untouching (within_bind (untouching_read _) fun _ => within_pure _) h
  | getMember userId =>
      exact administered_of_untouching
        (within_bind (untouching_getMemberDetail _ userId) fun _ => within_pure _) h
  | inviteMember input =>
      rcases exec_respond h fun _ => ⟨_, rfl⟩ with ⟨_, h⟩
      exact exec_inviteMember h
  | changeRole userId role =>
      rcases exec_respond h fun _ => ⟨_, rfl⟩ with ⟨_, h⟩
      exact exec_changeMemberRole h
  | replaceOverrides userId overrides =>
      rcases exec_respond h (by rintro (_ | result) <;> exact ⟨_, rfl⟩) with ⟨_, h⟩
      exact exec_replaceMemberOverrides h
  | removeMember userId =>
      rcases exec_respond h fun _ => ⟨_, rfl⟩ with ⟨_, h⟩
      exact exec_removeMember h
  | listEndUsers =>
      exact administered_of_untouching
        (within_bind (within_bind (untouching_read _) fun _ => within_pure _)
          fun _ => within_pure _) h
  | getEndUser id =>
      refine administered_of_untouching
        (within_bind (within_bind (untouching_read _) fun _ => within_pure _) fun result => ?_) h
      cases result with
      | none => exact within_pure _
      | some user => exact within_pure _
  | createEndUser input =>
      exact administered_of_untouching
        (within_bind (within_bind (untouching_create _ input) fun _ => within_pure _)
          fun _ => within_pure _) h
  | updateEndUser id patch =>
      refine administered_of_untouching
        (within_bind (within_bind (within_atomic fun _ => ⟨rfl, rfl⟩) fun _ => within_pure _)
          fun result => ?_) h
      cases result with
      | none => exact within_pure _
      | some user => exact within_pure _
  | deleteEndUser id =>
      refine administered_of_untouching
        (within_bind (within_atomic fun _ => ⟨rfl, rfl⟩) fun removed => ?_) h
      cases removed with
      | false => exact within_pure _
      | true => exact within_pure _

/-- A request that ran alone: its member was found, and if it is active and
    may do so, the operation was done. -/
theorem exec_handle {call : ApiCall} {a : ApiResponse} (h : Exec s (handle deps call) es a s') :
    ∃ found s₁ es₁ es₂, FoundBy deps s call.claims.tenantId call.claims.userId found es₁ s₁ ∧
      es = es₂ ++ es₁ ∧
      (es₂ = [] ∧ s' = s₁ ∨
        found.member.status = .active ∧
          (contextOf deps call.claims found).permits call.operation = true ∧
          Administered s₁ (contextOf deps call.claims found) call.operation es₂ s') := by
  rw [handle_eq] at h
  rcases exec_bind h with ⟨found, s₁, es₁, es₂, hmember, hrest, rfl⟩
  refine ⟨found, s₁, es₁, es₂, exec_requestMember hmember, rfl, ?_⟩
  -- Inactive members, missing permissions and bad bodies end the request.
  unfold afterMember at hrest
  split at hrest
  · rcases exec_done hrest with ⟨rfl, _, rfl⟩
    exact .inl ⟨rfl, rfl⟩
  · next hactive =>
      unfold route at hrest
      split at hrest
      · rcases exec_done hrest with ⟨rfl, _, rfl⟩
        exact .inl ⟨rfl, rfl⟩
      · next hpermits =>
          split at hrest
          · rcases exec_done hrest with ⟨rfl, _, rfl⟩
            exact .inl ⟨rfl, rfl⟩
          · refine .inr ⟨not_not.mp hactive, ?_, exec_perform hrest⟩
            rw [Bool.not_eq_true', Bool.not_eq_false] at hpermits
            exact hpermits

/-- A member that was inserted was stored. -/
theorem stored_default {tenantId userId : String}
    (h : ∀ m ∈ s.members, m.key ≠ (tenantId, userId)) :
    Stored (defaultMember deps tenantId userId) s
      { s with members := s.members ++ [defaultMember deps tenantId userId] } := by
  have hnone : s.members.find? (·.key = (defaultMember deps tenantId userId).key) = none :=
    List.find?_eq_none.mpr fun m hm hkey => h m hm (of_decide_eq_true hkey)
  unfold Stored Members.upsertRow
  rw [hnone]

/-- Resolving the member of a request leaves the overrides. -/
theorem FoundBy.overrides {tenantId userId : String} {found : MemberWithOverrides}
    (h : FoundBy deps s tenantId userId found es s') :
    s'.overrides = s.overrides := by
  cases h with
  | there _ => rfl
  | inserted _ => rfl

/-- Resolving the member of a request keeps the tables consistent. -/
theorem FoundBy.consistent {tenantId userId : String} {found : MemberWithOverrides}
    (h : FoundBy deps s tenantId userId found es s') (hs : Consistent s) : Consistent s' := by
  cases h with
  | there _ => exact hs
  | inserted hnone => exact hs.stored (stored_default hnone) rfl

/-- Every operation that runs alone keeps the tables consistent. -/
theorem Administered.consistent {operation : Operation}
    (h : Administered s ctx operation es s') (hs : Consistent s) : Consistent s' := by
  cases h with
  | nothing hm ho =>
      refine ⟨?_, ?_⟩
      · rw [hm]
        exact hs.keys
      · rw [hm, ho]
        exact hs.referenced
  | invited user hstored ho => exact hs.stored hstored ho
  | roleChanged existing _ hstored ho => exact hs.stored hstored ho
  | replaced existing _ hrows => exact hs.replaced hrows
  | removed _ => exact hs.removed _

/-- The database stays consistent. -/
theorem consistent_handle {call : ApiCall} {a : ApiResponse}
    (h : Exec s (handle deps call) es a s') (hs : Consistent s) : Consistent s' := by
  rcases exec_handle h with ⟨found, s₁, es₁, es₂, hfound, _, hsame | ⟨_, _, hdone⟩⟩
  · rw [hsame.2]
    exact hfound.consistent hs
  · exact hdone.consistent (hfound.consistent hs)

end Operations

end Sandbox.Api
