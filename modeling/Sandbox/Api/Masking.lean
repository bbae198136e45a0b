import Mathlib.Data.List.Forall2
import Sandbox.Api.Calls
import Sandbox.Interleave.Mirror

/-!
# What Masking Hides

An end user is shown with the first character of the address, its domain and
the last four digits of the phone number, unless the viewer may unmask. Two
databases that agree on that much cannot be told apart by anyone else. They
need not agree on how long an address is, on what follows a second `@`, or on
the other digits.

The operations read whole rows, so on two such databases they see different
rows in between. What they make of them is the same in the end, and this is
where all of them have to present the row that they return.

## Main definitions

* `AlikeRow`, `Alike`: Rows and databases that look the same when masked.
* `Operation.onEndUsers`: The operations on end users.
* `endUserSystem`: These operations with the contexts they are asked in.
* `Presented`: Responses whose flags say how their rows are shown.

## Theorems

* `maskEndUser_congr`: Rows that are alike are masked to the same.
* `mirrors_route`: An operation answers the same on databases that are alike.
* `presented_route`: Flags are true.
* `masking_hides`: Whoever may not unmask learns nothing else, in any run.
-/

namespace Sandbox.Api

open Interleave

section Rows

/-- The text before the first `@`. -/
def localPart (email : String) : String := (split '@' email)[0]?.getD ""

/-- The text between the first and the second `@`. -/
def domainPart (email : String) : String := (split '@' email)[1]?.getD ""

/-- The last four digits. -/
def lastFour (phone : String) : List Char :=
  let digits := phone.toList.filter Char.isDigit
  digits.drop (digits.length - 4)

/-- Rows that differ at most in what masking hides. -/
structure AlikeRow (u v : EndUser) : Prop where
  id : u.id = v.id
  tenantId : u.tenantId = v.tenantId
  name : u.name = v.name
  note : u.note = v.note
  first : (localPart u.email).toList.take 1 = (localPart v.email).toList.take 1
  domain : domainPart u.email = domainPart v.email
  digits : lastFour u.phone = lastFour v.phone

theorem AlikeRow.refl (u : EndUser) : AlikeRow u u := ⟨rfl, rfl, rfl, rfl, rfl, rfl, rfl⟩

/-- Rows that are alike are masked to the same. -/
theorem maskEndUser_congr {u v : EndUser} (h : AlikeRow u v) : maskEndUser u = maskEndUser v := by
  have hmask : ∀ w : EndUser, maskEndUser w =
      ⟨w.id, w.tenantId, w.name,
        String.ofList ((localPart w.email).toList.take 1) ++ "***@" ++ domainPart w.email,
        "***-****-" ++ String.ofList (lastFour w.phone), w.note⟩ := fun _ => rfl
  rw [hmask, hmask, h.id, h.tenantId, h.name, h.note, h.first, h.domain, h.digits]

/-- Rows that differ only in what is masked are presented alike. -/
theorem presentEndUser_congr {u v : EndUser} (h : AlikeRow u v) :
    presentEndUser u false = presentEndUser v false :=
  congrArg (EndUserView.mk · true) (maskEndUser_congr h)

/-- A patch replaces the same fields, and what it leaves is alike. -/
theorem AlikeRow.applyPatch {u v : EndUser} (h : AlikeRow u v) (patch : EndUserInputPatch) :
    AlikeRow (EndUsers.applyPatch patch u) (EndUsers.applyPatch patch v) := by
  obtain ⟨name, email, phone, note⟩ := patch
  refine ⟨h.id, h.tenantId, ?_, ?_, ?_, ?_, ?_⟩
  · cases name with
    | none => exact h.name
    | some name => rfl
  · cases note with
    | none => exact h.note
    | some note => rfl
  · cases email with
    | none => exact h.first
    | some email => rfl
  · cases email with
    | none => exact h.domain
    | some email => rfl
  · cases phone with
    | none => exact h.digits
    | some phone => rfl

/-- Rows that are alike have the same tenant and id. -/
theorem AlikeRow.isFor {u v : EndUser} (h : AlikeRow u v) (tenantId id : String) :
    EndUsers.isFor tenantId id u = EndUsers.isFor tenantId id v := by
  unfold EndUsers.isFor
  rw [h.id, h.tenantId]

variable {rows₁ rows₂ : List EndUser}

/-- Lists of rows that are alike are presented alike. -/
theorem present_congr (h : List.Forall₂ AlikeRow rows₁ rows₂) :
    rows₁.map (presentEndUser · false) = rows₂.map (presentEndUser · false) := by
  induction h with
  | nil => rfl
  | cons hrow _ ih => rw [List.map_cons, List.map_cons, presentEndUser_congr hrow, ih]

theorem alike_find (h : List.Forall₂ AlikeRow rows₁ rows₂) (tenantId id : String) :
    Option.Rel AlikeRow (rows₁.find? (EndUsers.isFor tenantId id))
      (rows₂.find? (EndUsers.isFor tenantId id)) := by
  induction h with
  | nil => exact .none
  | @cons u v us vs hrow _ ih =>
      rw [List.find?_cons, List.find?_cons, ← hrow.isFor]
      cases EndUsers.isFor tenantId id u with
      | true => exact .some hrow
      | false => exact ih

/-- A filter on what is not masked keeps rows that are alike. -/
theorem alike_filter (h : List.Forall₂ AlikeRow rows₁ rows₂) {p : EndUser → Bool}
    (hp : ∀ {u v}, AlikeRow u v → p u = p v) :
    List.Forall₂ AlikeRow (rows₁.filter p) (rows₂.filter p) := by
  induction h with
  | nil => exact .nil
  | @cons u v us vs hrow _ ih =>
      rw [List.filter_cons, List.filter_cons, hp hrow]
      cases p v with
      | true => exact .cons hrow ih
      | false => exact ih

theorem alike_any (h : List.Forall₂ AlikeRow rows₁ rows₂) {p : EndUser → Bool}
    (hp : ∀ {u v}, AlikeRow u v → p u = p v) : rows₁.any p = rows₂.any p := by
  induction h with
  | nil => rfl
  | cons hrow _ ih => rw [List.any_cons, List.any_cons, hp hrow, ih]

theorem alike_patch (h : List.Forall₂ AlikeRow rows₁ rows₂) (tenantId id : String)
    (patch : EndUserInputPatch) :
    List.Forall₂ AlikeRow
      (rows₁.map fun row =>
        if EndUsers.isFor tenantId id row then EndUsers.applyPatch patch row else row)
      (rows₂.map fun row =>
        if EndUsers.isFor tenantId id row then EndUsers.applyPatch patch row else row) := by
  induction h with
  | nil => exact .nil
  | @cons u v us vs hrow _ ih =>
      -- The condition reads ids only, so both databases patch the row or neither.
      rw [List.map_cons, List.map_cons, hrow.isFor]
      refine .cons ?_ ih
      split
      · exact hrow.applyPatch patch
      · exact hrow

/-- One more row, the same in both, keeps them alike. -/
theorem alike_append_self (h : List.Forall₂ AlikeRow rows₁ rows₂) (row : EndUser) :
    List.Forall₂ AlikeRow (rows₁ ++ [row]) (rows₂ ++ [row]) := by
  induction h with
  | nil => exact .cons (.refl row) .nil
  | cons hrow _ ih => exact .cons hrow ih

end Rows

/-- Databases that differ at most in what masking hides. -/
structure Alike (s₁ s₂ : ApiState) : Prop where
  members : s₁.members = s₂.members
  overrides : s₁.overrides = s₂.overrides
  directory : s₁.directory = s₂.directory
  endUsers : List.Forall₂ AlikeRow s₁.endUsers s₂.endUsers

/-- The operations on end users. -/
def Operation.onEndUsers : Operation → Bool
  | .listEndUsers | .getEndUser _ | .createEndUser _ | .updateEndUser .. | .deleteEndUser _ => true
  | _ => false

/-- The endpoints, each call with the context it is made in. -/
def endUserSystem (deps : ApiDeps) :
    System ApiState ApiOutside ApiEvent (TenantContext × Operation) ApiChange
      fun _ => ApiResponse where
  body c := route deps c.1 c.2
  env := ApiChange.apply

section Runs

variable {deps : ApiDeps} {ctx : TenantContext}

theorem alike_endUsers {s₁ s₂ : ApiState} (h : Alike s₁ s₂) {rows₁ rows₂ : List EndUser}
    (hrows : List.Forall₂ AlikeRow rows₁ rows₂) :
    Alike { s₁ with endUsers := rows₁ } { s₂ with endUsers := rows₂ } :=
  ⟨h.members, h.overrides, h.directory, hrows⟩

/-- Without the permission the context may not unmask. -/
theorem canUnmask_eq_false (h : "end_users:unmask" ∉ ctx.permissions) : ctx.canUnmask = false :=
  decide_eq_false h

/-- What is presented of rows that are alike is the same. -/
theorem mirrors_present {p : ApiProg (Option EndUser)} (h : ctx.canUnmask = false)
    (hp : Mirrors Alike (Option.Rel AlikeRow) p p) :
    Mirrors Alike Eq (do let user ← p; pure (user.map (presentEndUser · ctx.canUnmask)))
      (do let user ← p; pure (user.map (presentEndUser · ctx.canUnmask))) := by
  refine mirrors_bind hp fun u v huv => mirrors_pure ?_
  rw [h]
  cases huv with
  | none => rfl
  | some hrow => exact congrArg some (presentEndUser_congr hrow)

/-- Creating an end user answers alike, and leaves tables that are alike. -/
theorem mirrors_create (tenantId : String) (input : EndUserInput) :
    Mirrors Alike Eq (EndUsers.create tenantId input) (EndUsers.create tenantId input) := by
  refine mirrors_ask fun i s₁ s₂ row s₁' h hrun => ?_
  cases i with
  | id id =>
      have hany : s₁.endUsers.any (·.id = id) = s₂.endUsers.any (·.id = id) :=
        alike_any h.endUsers fun {u v} huv => by rw [huv.id]
      dsimp only at hrun ⊢
      rw [hany] at hrun
      split at hrun
      · cases hrun
      · next hfresh =>
          cases hrun
          rw [if_neg hfresh]
          exact ⟨_, _, rfl, rfl, alike_endUsers h (alike_append_self h.endUsers _)⟩
  | invited reply => cases hrun
  | revoked reply => cases hrun

/-- An operation on end users without the permission to unmask. -/
theorem mirrors_perform (hmask : "end_users:unmask" ∉ ctx.permissions) {operation : Operation}
    (hop : operation.onEndUsers = true) :
    Mirrors Alike Eq (perform deps ctx operation) (perform deps ctx operation) := by
  have hflag := canUnmask_eq_false hmask
  -- Each answer is made of rows that are alike, without what differs.
  cases operation with
  | listEndUsers =>
      refine mirrors_bind (Q := Eq) (mirrors_bind (Q := List.Forall₂ AlikeRow) ?_ ?_) ?_
      · exact mirrors_read fun s₁ s₂ h =>
          alike_filter h.endUsers fun {u v} huv => by rw [huv.tenantId]
      · intro rows₁ rows₂ hrows
        refine mirrors_pure ?_
        rw [hflag, present_congr hrows]
      · rintro r _ rfl
        exact mirrors_pure rfl
  | getEndUser id =>
      refine mirrors_bind (mirrors_present hflag (mirrors_read fun s₁ s₂ h => ?_)) ?_
      · exact alike_find h.endUsers _ _
      · rintro r _ rfl
        cases r with
        | none => exact mirrors_pure rfl
        | some user => exact mirrors_pure rfl
  | createEndUser input =>
      refine mirrors_bind (Q := Eq) (mirrors_bind (mirrors_create _ _) ?_) ?_
      · rintro row _ rfl
        exact mirrors_pure rfl
      · rintro view _ rfl
        exact mirrors_pure rfl
  | updateEndUser id patch =>
      refine mirrors_bind (mirrors_present hflag (mirrors_atomic fun s₁ s₂ h => ⟨?_, ?_⟩)) ?_
      · -- The row that is returned is the patched one of the rows that are alike.
        have hfind := alike_find h.endUsers ctx.tenantId id
        revert hfind
        generalize s₁.endUsers.find? (EndUsers.isFor ctx.tenantId id) = u
        generalize s₂.endUsers.find? (EndUsers.isFor ctx.tenantId id) = v
        rintro (hrow | _)
        · exact .some (hrow.applyPatch patch)
        · exact .none
      · exact alike_endUsers h (alike_patch h.endUsers _ _ _)
      · rintro r _ rfl
        cases r with
        | none => exact mirrors_pure rfl
        | some user => exact mirrors_pure rfl
  | deleteEndUser id =>
      refine mirrors_bind (Q := Eq) (mirrors_atomic fun s₁ s₂ h => ⟨?_, ?_⟩) ?_
      · exact alike_any h.endUsers fun {u v} huv => huv.isFor _ _
      · refine alike_endUsers h (alike_filter h.endUsers fun {u v} huv => ?_)
        rw [huv.isFor]
      · rintro removed _ rfl
        cases removed with
        | false => exact mirrors_pure rfl
        | true => exact mirrors_pure rfl
  | _ => cases hop

/-- Every operation on end users answers alike without the permission. -/
theorem mirrors_route (hmask : "end_users:unmask" ∉ ctx.permissions) {operation : Operation}
    (hop : operation.onEndUsers = true) :
    Mirrors Alike Eq (route deps ctx operation) (route deps ctx operation) := by
  unfold route
  split
  · exact mirrors_pure rfl
  · split
    · exact mirrors_pure rfl
    · exact mirrors_perform hmask hop

/-- A change of the database is possible in both, and keeps them alike. -/
theorem mirrors_env (change : ApiChange) {s₁ s₂ s₁' : ApiState} (h : Alike s₁ s₂)
    (hs : change.apply s₁ = some s₁') : ∃ s₂', change.apply s₂ = some s₂' ∧ Alike s₁' s₂' := by
  cases change with
  | directory users =>
      cases hs
      exact ⟨_, rfl, h.members, h.overrides, rfl, h.endUsers⟩

/-- All operations but the creation, whose identifier comes from outside, have
    one answer on a database. -/
theorem settled_route {operation : Operation} (hop : operation.onEndUsers = true)
    (hcreate : ∀ input, operation ≠ .createEndUser input) :
    Settled (route deps ctx operation) := by
  -- Of the operations on end users only the creation waits for an id.
  unfold route
  split
  · exact settled_pure _
  · split
    · exact settled_pure _
    · cases operation with
      | listEndUsers =>
          exact settled_bind (settled_bind (settled_atomic _) fun _ => settled_pure _)
            fun _ => settled_pure _
      | getEndUser id =>
          refine settled_bind (settled_bind (settled_atomic _) fun _ => settled_pure _) fun r => ?_
          cases r with
          | none => exact settled_pure _
          | some user => exact settled_pure _
      | createEndUser input => exact absurd rfl (hcreate input)
      | updateEndUser id patch =>
          refine settled_bind (settled_bind (settled_atomic _) fun _ => settled_pure _) fun r => ?_
          cases r with
          | none => exact settled_pure _
          | some user => exact settled_pure _
      | deleteEndUser id =>
          refine settled_bind (settled_atomic _) fun removed => ?_
          cases removed with
          | false => exact settled_pure _
          | true => exact settled_pure _
      | _ => cases hop

end Runs

section Flags

/-- A row as a viewer sees it, who may unmask or not. -/
def PresentedRow (canUnmask : Bool) (rows : List EndUser) (view : EndUserView) : Prop :=
  view.masked = !canUnmask ∧
    ∃ row ∈ rows, view.user = if canUnmask then row else maskEndUser row

/-- A response whose flags say how its rows are shown. -/
def Presented (canUnmask : Bool) (rows : List EndUser) : ApiResponse → Prop
  | .endUsers users masked => masked = !canUnmask ∧ ∀ view ∈ users, PresentedRow canUnmask rows view
  | .endUser view => PresentedRow canUnmask rows view
  | _ => True

/-- A row that is presented is a presented row of its table. -/
theorem presentedRow_present {rows : List EndUser} {row : EndUser} (h : row ∈ rows)
    (canUnmask : Bool) : PresentedRow canUnmask rows (presentEndUser row canUnmask) :=
  ⟨rfl, row, h, rfl⟩

variable {deps : ApiDeps} {ctx : TenantContext} {s s' : ApiState} {es : List ApiEvent}

/-- A response with one row, or none. -/
theorem presented_found {p : ApiProg (Option EndUser)} {r : ApiResponse}
    (hp : ∀ {es user s'}, Exec s p es (some user) s' → user ∈ s'.endUsers)
    (h : Exec s (do
      let result ← (do let user ← p; pure (user.map (presentEndUser · ctx.canUnmask)))
      match result with
      | none => pure (ApiResponse.error .notFound)
      | some user => pure (ApiResponse.endUser user)) es r s') :
    Presented ctx.canUnmask s'.endUsers r := by
  rcases exec_bind h with ⟨result, s₁, _, _, hhead, htail, _⟩
  rcases exec_bind hhead with ⟨user, s₂, _, _, hfound, hdone, _⟩
  rcases exec_done hdone with ⟨_, rfl, rfl⟩
  cases user with
  | none =>
      rcases exec_done htail with ⟨_, rfl, _⟩
      exact trivial
  | some user =>
      rcases exec_done htail with ⟨_, rfl, rfl⟩
      exact presentedRow_present (hp hfound) _

/-- What an operation answers presents rows of its table by the flag. -/
theorem presented_perform {operation : Operation} (hop : operation.onEndUsers = true)
    {r : ApiResponse} (h : Exec s (perform deps ctx operation) es r s') :
    Presented ctx.canUnmask s'.endUsers r := by
  cases operation with
  | listEndUsers =>
      rcases exec_bind h with ⟨result, s₁, _, _, hhead, htail, _⟩
      rcases exec_bind hhead with ⟨rows, s₂, _, _, hread, hdone, _⟩
      rcases exec_read hread with ⟨_, rfl, rfl⟩
      rcases exec_done hdone with ⟨_, rfl, rfl⟩
      rcases exec_done htail with ⟨_, rfl, rfl⟩
      refine ⟨rfl, fun view hview => ?_⟩
      -- Each view of the page comes from a row of the table.
      rcases List.mem_map.mp hview with ⟨row, hrow, rfl⟩
      exact presentedRow_present (List.mem_of_mem_filter hrow) _
  | getEndUser id =>
      refine presented_found (fun {es user s'} hfind => ?_) h
      rcases exec_read hfind with ⟨_, huser, rfl⟩
      exact List.mem_of_find?_eq_some huser.symm
  | createEndUser input =>
      rcases exec_bind h with ⟨view, s₁, _, _, hhead, htail, _⟩
      rcases exec_bind hhead with ⟨row, s₂, _, _, hcreate, hdone, _⟩
      rcases exec_done hdone with ⟨_, rfl, rfl⟩
      rcases exec_done htail with ⟨_, rfl, rfl⟩
      rcases exec_act hcreate with ⟨i, b, s₃, _, hrun, hend, _⟩
      rcases exec_done hend with ⟨_, rfl, rfl⟩
      -- The new row was appended, under the id that was drawn.
      refine presentedRow_present ?_ _
      cases i with
      | id id =>
          dsimp only at hrun
          split at hrun
          · cases hrun
          · cases hrun
            exact List.mem_append_right _ List.mem_cons_self
      | invited reply => cases hrun
      | revoked reply => cases hrun
  | updateEndUser id patch =>
      refine presented_found (fun {es user s'} hupdate => ?_) h
      rcases exec_atomic hupdate with ⟨_, huser, rfl⟩
      rcases Option.map_eq_some_iff.mp huser.symm with ⟨row, hrow, rfl⟩
      -- The row that is answered is the patched one.
      have hfor := List.find?_some hrow
      refine List.mem_map.mpr ⟨row, List.mem_of_find?_eq_some hrow, ?_⟩
      rw [if_pos hfor]
  | deleteEndUser id =>
      rcases exec_bind h with ⟨removed, s₁, _, _, _, htail, _⟩
      cases removed with
      | false =>
          rcases exec_done htail with ⟨_, rfl, _⟩
          exact trivial
      | true =>
          rcases exec_done htail with ⟨_, rfl, _⟩
          exact trivial
  | _ => cases hop

/-- What a route answers presents rows of its table by the flag. -/
theorem presented_route {operation : Operation} (hop : operation.onEndUsers = true)
    {r : ApiResponse} (h : Exec s (route deps ctx operation) es r s') :
    Presented ctx.canUnmask s'.endUsers r := by
  unfold route at h
  split at h
  · rcases exec_done h with ⟨_, rfl, _⟩
    exact trivial
  · split at h
    · rcases exec_done h with ⟨_, rfl, _⟩
      exact trivial
    · exact presented_perform hop h

end Flags

/-- A request about end users from someone who may not unmask, or a change from
    outside. -/
def IsMasked :
    Happening ApiEvent (TenantContext × Operation) ApiChange (fun _ => ApiResponse) → Prop
  | .call c _ _ => "end_users:unmask" ∉ c.1.permissions ∧ c.2.onEndUsers = true
  | .env _ => True

/-- On databases that differ in what masking hides, whoever may not unmask gets
    the same results, from each operation and in each sequence of them. A flag
    is set exactly where the row that is shown has been masked. -/
theorem masking_hides (deps : ApiDeps) {s₁ s₂ : ApiState} (h : Alike s₁ s₂) :
    (∀ ctx operation es₁ es₂ r₁ r₂ s₁' s₂', "end_users:unmask" ∉ ctx.permissions →
      operation.onEndUsers = true → (∀ input, operation ≠ .createEndUser input) →
      Exec s₁ (route deps ctx operation) es₁ r₁ s₁' →
      Exec s₂ (route deps ctx operation) es₂ r₂ s₂' → r₁ = r₂ ∧ Alike s₁' s₂') ∧
    (∀ ls s₁', (∀ l ∈ ls, IsMasked l) → Runs (endUserSystem deps) s₁ ls s₁' →
      ∃ s₂', Runs (endUserSystem deps) s₂ ls s₂' ∧ Alike s₁' s₂') ∧
    ∀ ctx definition role overrides operation es r s',
      ctx.permissions = resolvePermissions definition role overrides →
      operation.onEndUsers = true → Exec s₁ (route deps ctx operation) es r s' →
      Presented (decide ("end_users:unmask" ∈ resolvePermissions definition role overrides))
        s'.endUsers r := by
  refine ⟨?_, ?_, ?_⟩
  -- The one state mirrors the other, and the operation has one outcome there.
  · intro ctx operation es₁ es₂ r₁ r₂ s₁' s₂' hmask hop hcreate h₁ h₂
    obtain ⟨r, s, hexec, rfl, halike⟩ := mirrors_route hmask hop _ _ _ _ _ h h₁
    obtain ⟨rfl, rfl⟩ := settled_route hop hcreate _ _ _ _ _ _ _ hexec h₂
    exact ⟨rfl, halike⟩
  · intro ls s₁' hls hruns
    refine runs_mirror (R := Alike) (fun c hc => ?_) (fun t _ _ _ hR ht => mirrors_env t hR ht) h
      hruns hls
    obtain ⟨_, _, hmask, hop⟩ := hc
    exact mirrors_route hmask hop
  · intro ctx definition role overrides operation es r s' hperm hop hexec
    have hpresented := presented_route hop hexec
    rw [TenantContext.canUnmask, hperm] at hpresented
    exact hpresented

section Example

/-- A database with one end user. -/
def oneEndUser (email phone : String) : ApiState :=
  ⟨[], [], [⟨"1", "tanaka", "A", email, phone, ""⟩], []⟩

/-- A viewer of the tenant. -/
def viewerContext : TenantContext where
  tenantId := "tanaka"
  tenantSlug := "tanaka"
  userId := "bob"
  clientId := "crm"
  member := ⟨"tanaka", "bob", none, none, "viewer", .active⟩
  permissions := resolvePermissions crm "viewer" []

/-- What the viewer sees of it. -/
def maskedAlice : EndUserView := ⟨⟨"1", "tanaka", "A", "a***@x.test", "***-****-2222", ""⟩, true⟩

theorem masking_hides_local_part :
    ∃ s', Runs (endUserSystem crmDeps) (oneEndUser "anna@x.test@y" "090-1111-2222")
      [.call (viewerContext, .getEndUser "1") (.endUser maskedAlice) []] s' ∧
        Alike (oneEndUser "alice@x.test" "12222") s' := by
  have halike : Alike (oneEndUser "alice@x.test" "12222")
      (oneEndUser "anna@x.test@y" "090-1111-2222") := by
    refine ⟨rfl, rfl, rfl, .cons ⟨rfl, rfl, rfl, rfl, ?_, ?_, ?_⟩ .nil⟩
    · decide
    · decide
    · decide
  have hexec : Exec (oneEndUser "alice@x.test" "12222")
      ((endUserSystem crmDeps).body (viewerContext, .getEndUser "1")) [] (.endUser maskedAlice)
      (oneEndUser "alice@x.test" "12222") :=
    exec_of_runLeft [.id "", .id ""] _ _ _ _ _ (by decide +kernel)
  refine (masking_hides crmDeps halike).2.1 _ _ ?_ (.call .nil hexec)
  intro l hl
  rw [List.mem_singleton.mp hl]
  exact ⟨by decide, rfl⟩

end Example

end Sandbox.Api
