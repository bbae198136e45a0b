import Sandbox.Api.Alone

/-!
# Invitations and Privileges

Somebody may be permitted to invite members but not to administer them. The
roles, the status and the overrides of the members there are should be out of
reach then. But an invitation of somebody who is a member already writes the
row again, with the role of the invitation: a member who may invite can give
any role to anybody, and to themselves.

Nothing there is changes in runs in which members are only invited into the
role they have.

## Main definitions

* `actorPermissions`: What a request's user is permitted.
* `Unprivileged`: A request of somebody who may not administer the members.
* `invitesNewcomers`: The condition on invitations.
* `Kept`: What two tables have in common.

## Theorems

* `members_kept`: Such requests leave the members as they are.
* `invitation_escalates`: Why the condition is needed.
-/

namespace Sandbox.Api.Invitations

open Interleave

section Conditions

/-- What a request's user is permitted, with the default role if there is no
    row. -/
def actorPermissions (deps : ApiDeps) (s : ApiState) (claims : AccessTokenClaims) :
    Finset String :=
  match Members.lookup s (claims.tenantId, claims.userId) with
  | some found => resolvePermissions deps.definition found.member.role found.overrides
  | none => resolvePermissions deps.definition deps.definition.defaultRole []

/-- The request is from somebody who may not administer the members. -/
def Unprivileged (deps : ApiDeps) (s : ApiState) :
    Happening ApiEvent ApiCall ApiChange (fun _ => ApiResponse) → Prop
  | .call c _ _ => "members:manage" ∉ actorPermissions deps s c.claims
  | .env _ => True

/-- Whoever is invited has no row, or an active one with the role of the
    invitation. -/
def invitesNewcomers (s : ApiState) :
    Happening ApiEvent ApiCall ApiChange (fun _ => ApiResponse) → Prop
  | .call _ _ es => ∀ tenantId userId role, .memberInvited tenantId userId role ∈ es →
      ∀ m ∈ s.members, m.key = (tenantId, userId) → m.role = role ∧ m.status = .active
  | .env _ => True

/-- The members there were have kept role, status and overrides, and the rows
    there are now are theirs or of users who had none. -/
structure Kept (s s' : ApiState) : Prop where
  rows : ∀ m ∈ s.members, ∃ m' ∈ s'.members,
    m'.key = m.key ∧ m'.role = m.role ∧ m'.status = m.status
  added : ∀ m' ∈ s'.members,
    (∃ m ∈ s.members, m'.key = m.key ∧ m'.role = m.role ∧ m'.status = m.status) ∨
      ∀ m ∈ s.members, m.key ≠ m'.key
  overrides : s'.overrides = s.overrides

theorem Kept.refl (s : ApiState) : Kept s s where
  rows m hm := ⟨m, hm, rfl, rfl, rfl⟩
  added m hm := .inl ⟨m, hm, rfl, rfl, rfl⟩
  overrides := rfl

theorem Kept.trans {s s' s'' : ApiState} (h : Kept s s') (h' : Kept s' s'') : Kept s s'' where
  rows m hm := by
    rcases h.rows m hm with ⟨m', hm', hkey, hrole, hstatus⟩
    rcases h'.rows m' hm' with ⟨m'', hm'', hkey', hrole', hstatus'⟩
    exact ⟨m'', hm'', hkey'.trans hkey, hrole'.trans hrole, hstatus'.trans hstatus⟩
  added m'' hm'' := by
    rcases h'.added m'' hm'' with ⟨m', hm', hkey', hrole', hstatus'⟩ | hnew
    · rcases h.added m' hm' with ⟨m, hm, hkey, hrole, hstatus⟩ | hnew
      · exact .inl ⟨m, hm, hkey'.trans hkey, hrole'.trans hrole, hstatus'.trans hstatus⟩
      · exact .inr fun m hm => hkey' ▸ hnew m hm
    · refine .inr fun m hm heq => ?_
      rcases h.rows m hm with ⟨m', hm', hkey, _⟩
      exact hnew m' hm' (hkey.trans heq)
  overrides := h'.overrides.trans h.overrides

end Conditions

section Steps

variable {deps : ApiDeps} {s s' s₁ : ApiState} {es : List ApiEvent} {found : MemberWithOverrides}

/-- Finding a request's member may add a row. -/
theorem kept_of_found {tenantId userId : String}
    (h : FoundBy deps s tenantId userId found es s₁) : Kept s s₁ := by
  cases h with
  | there _ => exact Kept.refl s
  | inserted hnone =>
      refine ⟨fun m hm => ⟨m, List.mem_append_left _ hm, rfl, rfl, rfl⟩, fun m hm => ?_, rfl⟩
      rcases List.mem_append.mp hm with hm | hm
      · exact .inl ⟨m, hm, rfl, rfl, rfl⟩
      · rw [List.mem_singleton.mp hm]
        exact .inr hnone

/-- So may an invitation after that, if the user had no row at first, or one
    with what the invitation gives. -/
theorem Kept.stored (h : Kept s s₁) {member : Member} (hs : Stored member s₁ s')
    (ho : s'.overrides = s₁.overrides)
    (hsame : ∀ m ∈ s.members, m.key = member.key →
      m.role = member.role ∧ m.status = member.status) : Kept s s' := by
  rcases upsertRow_fst member s₁.members with ⟨hkey', hrole', hstatus'⟩
  refine ⟨fun m hm => ?_, fun m' hm' => ?_, ho.trans h.overrides⟩
  · by_cases hkey : m.key = member.key
    · rcases hsame m hm hkey with ⟨hrole, hstatus⟩
      exact ⟨_, hs ▸ mem_upsertRow_self member s₁.members, hkey'.trans hkey.symm,
        hrole'.trans hrole.symm, hstatus'.trans hstatus.symm⟩
    · rcases h.rows m hm with ⟨m₁, hm₁, hkey₁, hrest⟩
      exact ⟨m₁, hs ▸ mem_upsertRow_of_ne hm₁ (hkey₁ ▸ hkey), hkey₁, hrest⟩
  -- A row that is there afterwards is the stored one or an older one.
  · rw [hs] at hm'
    rcases mem_upsertRow hm' with rfl | ⟨hold, _⟩
    · by_cases hthere : ∃ m ∈ s.members, m.key = member.key
      · rcases hthere with ⟨m, hm, hkey⟩
        rcases hsame m hm hkey with ⟨hrole, hstatus⟩
        exact .inl ⟨m, hm, hkey'.trans hkey.symm, hrole'.trans hrole.symm,
          hstatus'.trans hstatus.symm⟩
      · refine .inr fun m hm hkey => hthere ⟨m, hm, ?_⟩
        exact hkey.trans hkey'
    · exact h.added m' hold

theorem permissions_of_found {claims : AccessTokenClaims}
    (h : FoundBy deps s claims.tenantId claims.userId found es s₁) :
    (contextOf deps claims found).permissions = actorPermissions deps s claims := by
  unfold actorPermissions
  cases h with
  | there hlookup =>
      rw [hlookup]
      rfl
  | inserted hnone =>
      have hlookup : Members.lookup s (claims.tenantId, claims.userId) = none := by
        unfold Members.lookup
        rw [Option.map_eq_none_iff, List.find?_eq_none]
        exact fun m hm hkey => hnone m hm (of_decide_eq_true hkey)
      rw [hlookup]
      rfl

/-- What an unprivileged request does. Everything but an invitation asks for
    the permission to administer the members. -/
theorem kept_handle {call : ApiCall} {a : ApiResponse} (h : Exec s (handle deps call) es a s')
    (hactor : Unprivileged deps s (.call call a es))
    (hok : invitesNewcomers s (.call call a es)) : Kept s s' := by
  rcases exec_handle h with
    ⟨found, s₁, es₁, es₂, hfound, rfl, ⟨_, rfl⟩ | ⟨hactive, hpermits, hdone⟩⟩
  · exact kept_of_found hfound
  -- The member of the request has no permission to manage.
  · have hmanage : call.operation.permission ≠ some "members:manage" := by
      intro hmanage
      unfold TenantContext.permits at hpermits
      rw [hmanage, permissions_of_found hfound] at hpermits
      exact hactor (of_decide_eq_true hpermits)
    have hkept := kept_of_found hfound
    generalize call.operation = operation at hdone hmanage
    cases hdone with
    | nothing hm ho =>
        refine hkept.trans ⟨fun m hmem => ?_, fun m hmem => ?_, ho⟩
        · exact ⟨m, hm ▸ hmem, rfl, rfl, rfl⟩
        · exact .inl ⟨m, hm ▸ hmem, rfl, rfl, rfl⟩
    -- What is left is the invitation, which meets no existing row.
    | @invited input _ user hstored ho =>
        refine hkept.stored hstored ho fun m hm hkey => ?_
        exact hok _ user.userId input.role (List.mem_append_left _ List.mem_cons_self) m hm hkey
    | roleChanged existing _ _ _ => exact absurd rfl hmanage
    | replaced existing _ _ => exact absurd rfl hmanage
    | removed _ => exact absurd rfl hmanage

/-- An invitation gives no privileges away. In every run of requests, one at a
    time, of users who may not administer the members, in which nobody is
    invited who has a row with another role or is disabled, the members keep
    their roles, status and overrides, and rows are only added for users who
    had none. -/
theorem members_kept (deps : ApiDeps) (init s : ApiState)
    (ls : List (Happening ApiEvent ApiCall ApiChange fun _ => ApiResponse))
    (h : RunsWhile (apiSystem deps)
      (fun s l => Unprivileged deps s l ∧ invitesNewcomers s l) init ls s) : Kept init s := by
  refine h.induct (I := Kept init) ?_ ?_ (Kept.refl init)
  · exact fun call a es s s' hok hkept hexec => hkept.trans (kept_handle hexec hok.1 hok.2)
  · intro t s s' _ hkept henv
    cases t with
    | directory users =>
        cases henv
        exact ⟨hkept.rows, hkept.added, hkept.overrides⟩

end Steps

section Example

/-- A tenant with an owner and an administrator, who may invite. -/
def acme : ApiState :=
  { members := [⟨"acme", "alice", none, none, "owner", .active⟩,
      ⟨"acme", "bob", none, none, "admin", .active⟩]
    overrides := [], endUsers := []
    directory := [⟨"bob", "bob@example.com", none, true⟩,
      ⟨"carol", "carol@example.com", none, true⟩] }

def bobInvites (email role : String) : ApiCall :=
  ⟨⟨"bob", "acme", "acme", "crm"⟩, .inviteMember ⟨email, none, role⟩⟩

theorem bob_unprivileged (email role : String) (a : ApiResponse) (es : List ApiEvent) :
    Unprivileged crmDeps acme (.call (bobInvites email role) a es) := by
  have hno : "members:manage" ∉ actorPermissions crmDeps acme ⟨"bob", "acme", "acme", "crm"⟩ := by
    decide +kernel
  exact hno

/-- A user who had no row is invited. -/
theorem carol_is_invited :
    ∃ ls s, RunsWhile (apiSystem crmDeps)
      (fun s l => Unprivileged crmDeps s l ∧ invitesNewcomers s l) acme ls s ∧
      s.members.length = 3 ∧ Kept acme s := by
  have hruns : ((handle crmDeps (bobInvites "carol@example.com" "owner")).runAlone
      (ApiOutside.id "") 10 [.invited (.ok ⟨"carol", "carol@example.com", none, true⟩)]
      acme).any (fun r => decide (r.1 = [.memberInvited "acme" "carol" "owner"] ∧
        r.2.2.members.length = 3)) = true := by decide +kernel
  rcases (Option.any_eq_true _ _).mp hruns with ⟨⟨es, a, s⟩, hrun, htest⟩
  rcases of_decide_eq_true htest with ⟨hes, hlength⟩
  have hes' : es = [.memberInvited "acme" "carol" "owner"] := hes
  subst hes'
  have hexec := exec_of_runAlone (ApiOutside.id "") 10 _ acme _ _ a s hrun
  have hrun' : RunsWhile (apiSystem crmDeps)
      (fun s l => Unprivileged crmDeps s l ∧ invitesNewcomers s l) acme
      [.call (bobInvites "carol@example.com" "owner") a [.memberInvited "acme" "carol" "owner"]]
      s := by
    refine .call .nil hexec ⟨?_, ?_⟩
    · exact bob_unprivileged _ _ _ _
    · intro tenantId userId role he m hm hkey
      cases List.mem_singleton.mp he
      rcases List.mem_cons.mp hm with rfl | hm
      · exact absurd hkey (by decide)
      · rw [List.mem_singleton.mp hm] at hkey
        exact absurd hkey (by decide)
  exact ⟨_, s, hrun', hlength, members_kept crmDeps acme s _ hrun'⟩

/-- Somebody who may invite, but not administer members, becomes an owner. -/
theorem invitation_escalates :
    ∃ ls s, Runs (apiSystem crmDeps) acme ls s ∧
      (∃ a es, ls = [.call (bobInvites "bob@example.com" "owner") a es] ∧
        Unprivileged crmDeps acme (.call (bobInvites "bob@example.com" "owner") a es)) ∧
      (∃ m ∈ acme.members, m.key = ("acme", "bob") ∧ m.role = "admin") ∧
      ∃ m ∈ s.members, m.key = ("acme", "bob") ∧ m.role = "owner" := by
  have hruns : ((handle crmDeps (bobInvites "bob@example.com" "owner")).runAlone
      (ApiOutside.id "") 10 [.invited (.ok ⟨"bob", "bob@example.com", none, true⟩)]
      acme).any (fun r => decide (∃ m ∈ r.2.2.members, m.key = ("acme", "bob") ∧
        m.role = "owner")) = true := by decide +kernel
  rcases (Option.any_eq_true _ _).mp hruns with ⟨⟨es, a, s⟩, hrun, htest⟩
  have hexec := exec_of_runAlone (ApiOutside.id "") 10 _ acme _ es a s hrun
  exact ⟨_, s, .call .nil hexec, ⟨a, es, rfl, bob_unprivileged _ _ _ _⟩, by decide,
    of_decide_eq_true htest⟩

end Example

end Sandbox.Api.Invitations
