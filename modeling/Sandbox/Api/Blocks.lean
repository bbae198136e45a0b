import Sandbox.Api.Calls

/-!
# The Building Blocks of Requests

A request acts on the tenant of its token through the repositories and the
authorization server, and through nothing else. A class of programs that is
closed under sequences and contains these blocks contains the requests.

A change of a role writes back the row that it has looked up, so the two are
one block.

## Main definitions

* `afterMember`: What follows once a request's member is found.
* `Blocks`: A class that contains the blocks of a tenant.

## Theorems

* `handle_eq`: A request is these two parts.
* `Blocks.perform`, `Blocks.handle`: The class contains the requests.
-/

namespace Sandbox.Api

open Interleave

/-- What a request's member is, once found, to the rest of the request. -/
def contextOf (deps : ApiDeps) (claims : AccessTokenClaims) (found : MemberWithOverrides) :
    TenantContext :=
  { tenantId := claims.tenantId
    tenantSlug := claims.tenantSlug
    userId := claims.userId
    clientId := claims.clientId
    member := found.member
    permissions := resolvePermissions deps.definition found.member.role found.overrides }

/-- The part of a request that follows once its member is found. -/
def afterMember (deps : ApiDeps) (call : ApiCall) (found : MemberWithOverrides) :
    ApiProg ApiResponse :=
  if found.member.status ≠ .active then pure (.error .forbidden)
  else route deps (contextOf deps call.claims found) call.operation

theorem handle_eq (deps : ApiDeps) (call : ApiCall) :
    handle deps call =
      (requestMember deps call.claims.tenantId call.claims.userId >>= afterMember deps call) := by
  unfold handle resolveTenantContext
  rw [Prog.bind_assoc]
  refine congrArg (Bind.bind _) (funext fun found => ?_)
  unfold afterMember
  split
  · rfl
  · rfl

/-- The blocks that requests of a tenant are built from belong to a class. -/
structure Blocks (deps : ApiDeps) (tenantId : String) (C : (α : Type) → ApiProg α → Prop) :
    Prop where
  pure : ∀ {α : Type} (a : α), C α (pure a)
  bind : ∀ {α β : Type} {p : ApiProg α} {f : α → ApiProg β}, C α p → (∀ a, C β (f a)) →
    C β (p >>= f)
  find : ∀ userId, C _ (Members.find tenantId userId)
  findWithOverrides : ∀ userId, C _ (Members.findWithOverrides none tenantId userId)
  list : C _ (Members.list tenantId)
  upsertInvited : ∀ userId email name role,
    C _ (Members.upsert (.memberInvited tenantId userId role)
      ⟨tenantId, userId, email, name, role, .active⟩)
  changeRole : ∀ userId role, C _ (changeMemberRole tenantId userId role)
  replaceOverrides : ∀ userId overrides, C _ (Members.replaceOverrides tenantId userId overrides)
  remove : ∀ userId, C _ (Members.remove tenantId userId)
  listEndUsers : C _ (EndUsers.list tenantId)
  findEndUser : ∀ id, C _ (EndUsers.findById tenantId id)
  createEndUser : ∀ input, C _ (EndUsers.create tenantId input)
  updateEndUser : ∀ id patch, C _ (EndUsers.update tenantId id patch)
  removeEndUser : ∀ id, C _ (EndUsers.remove tenantId id)
  invite : ∀ email name, C _ (invite deps email name)
  revoke : ∀ userId, C _ (revoke tenantId userId)

namespace Blocks

variable {deps : ApiDeps} {tenantId : String} {C : (α : Type) → ApiProg α → Prop}

theorem inviteMember (h : Blocks deps tenantId C) (input : InviteMemberInput) :
    C _ (inviteMember deps tenantId input) := by
  refine h.bind (h.invite _ _) fun invited => ?_
  cases invited with
  | error e => exact h.pure _
  | ok user => exact h.bind (h.upsertInvited _ _ _ _) fun _ => h.pure _

theorem getMemberDetail (h : Blocks deps tenantId C) (userId : String) :
    C _ (getMemberDetail tenantId userId) := by
  refine h.bind (h.findWithOverrides _) fun found => ?_
  cases found with
  | none => exact h.pure _
  | some found => exact h.pure _

theorem replaceMemberOverrides (h : Blocks deps tenantId C) (userId : String)
    (overrides : List PermissionOverride) :
    C _ (replaceMemberOverrides deps tenantId userId overrides) := by
  refine h.bind (h.find userId) fun existing => ?_
  cases existing with
  | none => exact h.pure _
  | some existing =>
      refine h.bind (h.replaceOverrides _ _) fun replaced => ?_
      split
      · exact h.pure _
      · exact h.pure _

theorem removeMember (h : Blocks deps tenantId C) (actorUserId userId : String) :
    C _ (removeMember tenantId actorUserId userId) := by
  unfold Api.removeMember
  split
  · exact h.pure _
  · refine h.bind (h.find userId) fun existing => ?_
    cases existing with
    | none => exact h.pure _
    | some existing =>
        refine h.bind (h.revoke _) fun revoked => ?_
        split
        · exact h.bind (h.remove userId) fun _ => h.pure _
        · exact h.bind (h.remove userId) fun _ => h.pure _
        · exact h.pure _

theorem perform {ctx : TenantContext} (h : Blocks deps ctx.tenantId C) (operation : Operation) :
    C _ (perform deps ctx operation) := by
  cases operation with
  | me => exact h.pure _
  | listMembers => exact h.bind h.list fun _ => h.pure _
  | getMember userId => exact h.bind (h.getMemberDetail userId) fun _ => h.pure _
  | inviteMember input => exact h.bind (h.inviteMember input) fun _ => h.pure _
  | changeRole userId role => exact h.bind (h.changeRole userId role) fun _ => h.pure _
  | replaceOverrides userId overrides =>
      refine h.bind (h.replaceMemberOverrides userId overrides) fun result => ?_
      cases result with
      | none => exact h.pure _
      | some result => exact h.pure _
  | removeMember userId => exact h.bind (h.removeMember ctx.userId userId) fun _ => h.pure _
  | listEndUsers => exact h.bind (h.bind h.listEndUsers fun _ => h.pure _) fun _ => h.pure _
  | getEndUser id =>
      refine h.bind (h.bind (h.findEndUser id) fun _ => h.pure _) fun result => ?_
      cases result with
      | none => exact h.pure _
      | some user => exact h.pure _
  | createEndUser input =>
      exact h.bind (h.bind (h.createEndUser input) fun _ => h.pure _) fun _ => h.pure _
  | updateEndUser id patch =>
      refine h.bind (h.bind (h.updateEndUser id patch) fun _ => h.pure _) fun result => ?_
      cases result with
      | none => exact h.pure _
      | some user => exact h.pure _
  | deleteEndUser id =>
      refine h.bind (h.removeEndUser id) fun removed => ?_
      cases removed with
      | false => exact h.pure _
      | true => exact h.pure _

theorem route {ctx : TenantContext} (h : Blocks deps ctx.tenantId C) (operation : Operation) :
    C _ (route deps ctx operation) := by
  unfold Api.route
  split
  · exact h.pure _
  · split
    · exact h.pure _
    · exact h.perform operation

theorem afterMember {call : ApiCall} (h : Blocks deps call.claims.tenantId C)
    (found : MemberWithOverrides) : C _ (afterMember deps call found) := by
  unfold Api.afterMember
  split
  · exact h.pure _
  · exact Blocks.route (h : Blocks deps (contextOf deps call.claims found).tenantId C) _

/-- The request's member is found or becomes one, and the rest is built from
    the blocks. -/
theorem handle {call : ApiCall} (h : Blocks deps call.claims.tenantId C)
    (hmember : C _ (requestMember deps call.claims.tenantId call.claims.userId)) :
    C _ (handle deps call) := by
  rw [handle_eq]
  exact h.bind hmember h.afterMember

end Blocks

end Sandbox.Api
