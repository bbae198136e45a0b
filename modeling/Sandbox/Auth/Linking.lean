import Sandbox.Auth.Footprint
import Sandbox.Auth.Installation
import Sandbox.Interleave.Knowledge
import Sandbox.Tables.Unique

/-!
# Linking Users to Subjects

A user has a row before the first login if somebody has invited the address,
and the first login links that row to the subject it was made with. Logins
look the row up by subject and by address in separate queries, and other
logins and invitations come in between; what keeps a row with its subject is
that a link is made only where there is none, and that the subject is unique.

Addresses are looked up regardless of case, and the table tells them apart by
their text. Two inserts for one address can both find nothing and both
succeed if their texts differ in case. That is the only way: whoever inserts
has looked the address up, and if nobody has inserted it since, there is no
row with it.

## Main definitions

* `linkingSystem`: Logins and invitations.
* `Bound`: The row of a user is bound to a subject.
* `Constrained`: The constraints of the table.
* `insertedLast`: Whether an address was inserted since the last look-up that
  found nothing.
* `settledInserts`: The condition on the schedule.

## Theorems

* `knows_resolveUser`: A login ends with a disabled user or a bound one.
* `subjects_stay`: Rows stay bound, and sessions are of the row of their
  subject.
-/

namespace Sandbox.Auth.Linking

open Interleave Ttl Tables

inductive LinkingCall
  | login (authenticated : CognitoAuthenticated) (environment : RequestEnvironment)
      (method : MfaMethod)
  | invite (client : OidcClient) (input : InviteInput)
  deriving DecidableEq

def LinkingCall.Answer : LinkingCall → Type
  | .login .. => Option LoginSuccess
  | .invite .. => Except ServiceMemberError User

/-- Logins that have passed the second factor, invitations, and time. -/
def linkingSystem (deps : Deps) :
    System State Outside Event LinkingCall Nat LinkingCall.Answer where
  body
    | .login authenticated environment method => finishLogin deps authenticated environment method
    | .invite client input => inviteServiceMember deps client input
  env seconds s := some { s with now := s.now + seconds }

abbrev History : Type := List (LinkingCall × Event)

/-- The row of a user is bound to a subject. -/
def Bound (users : List User) (userId cognitoSub : String) : Prop :=
  ∃ u ∈ users, u.id = userId ∧ u.cognitoSub = some cognitoSub

/-- The constraints of the table. -/
structure Constrained (users : List User) : Prop where
  ids : Unique (fun u : User => some u.id) users
  emails : Unique (fun u : User => some u.email) users
  subs : Unique User.cognitoSub users

/-- No two addresses are equal apart from case. -/
def DistinctAddresses (deps : Deps) (users : List User) : Prop :=
  Unique (fun u => some (deps.lower u.email)) users

instance (deps : Deps) (users : List User) : Decidable (DistinctAddresses deps users) :=
  inferInstanceAs (Decidable (Unique _ _))

/-- Whether something happened about an address: it was looked up in vain, or
    it was inserted. -/
def about (deps : Deps) (email : String) : LinkingCall × Event → Bool
  | (_, .emailMissing missed) => deps.lower missed = deps.lower email
  | (_, .userCreated user) => deps.lower user.email = deps.lower email
  | _ => false

/-- Whether the latest of these things is an insertion. -/
def insertedLast (deps : Deps) (email : String) (h : History) : Bool :=
  match h.find? (about deps email) with
  | some (_, .userCreated _) => true
  | _ => false

/-- No address is inserted that was inserted since it was looked up in vain. -/
def settledInserts (deps : Deps) : Guard State Event LinkingCall
  | _, h, .userCreated user => insertedLast deps user.email h = false
  | _, _, _ => True

instance (deps : Deps) (s : State) (h : History) (e : Event) :
    Decidable (settledInserts deps s h e) :=
  match e with
  | .userCreated user => inferInstanceAs (Decidable (insertedLast deps user.email h = false))
  | .sessionStored _ | .sessionIndexed _ _ | .sessionTouched _ | .sidLookedUp _ | .requestSaved _
  | .sessionRevoked _ | .codeStored _ _ | .tokenStored _ _ | .tokenIndexed _ _ | .familyRead _
  | .familyRevoked _ | .memberAdded _ _ _ | .emailMissing _ | .pendingSaved _
  | .pendingDeleted _ _ | .totpResponded _ | .softwareTokenAssociated _
  | .softwareTokenVerified _ | .totpEnabled _ => isTrue trivial

section Schedule

variable {deps : Deps} {email : String} {h : History} {x : LinkingCall × Event}

/-- What is about another address, or about none, changes nothing. -/
theorem insertedLast_cons (hx : about deps email x = false) :
    insertedLast deps email (x :: h) = insertedLast deps email h := by
  unfold insertedLast
  rw [List.find?_cons_of_neg (by rw [hx]; exact Bool.false_ne_true)]

/-- A row that was just inserted for an equal address is the last one about it. -/
theorem insertedLast_created {call : LinkingCall} {user : User}
    (hsame : deps.lower user.email = deps.lower email) :
    insertedLast deps email ((call, .userCreated user) :: h) = true := by
  have habout : about deps email (call, .userCreated user) = true := decide_eq_true hsame
  unfold insertedLast
  rw [List.find?_cons_of_pos habout]

end Schedule

section Table

variable {users : List User} {user : User} {userId cognitoSub : String}

/-- A user that is bound stays so as another is appended. -/
theorem Bound.append (h : Bound users userId cognitoSub) (user : User) :
    Bound (users ++ [user]) userId cognitoSub :=
  h.imp fun _ hu => ⟨List.mem_append_left _ hu.1, hu.2⟩

/-- A row is bound to one subject. -/
theorem Bound.unique {cognitoSub' : String} (hc : Constrained users)
    (h : Bound users userId cognitoSub) (h' : Bound users userId cognitoSub') :
    cognitoSub = cognitoSub' := by
  rcases h with ⟨u, hu, hid, hsub⟩
  rcases h' with ⟨v, hv, hid', hsub'⟩
  have hrow := unique_row hc.ids hu hv (congrArg some hid) (congrArg some hid')
  rw [hrow] at hsub
  exact Option.some.inj (hsub.symm.trans hsub')

/-- A row with a new key, a new address and a new subject can be inserted. -/
theorem Constrained.insert (h : Constrained users)
    (hnew : ∀ u ∈ users, u.id ≠ user.id ∧ u.email ≠ user.email ∧
      (user.cognitoSub.isSome = true → u.cognitoSub ≠ user.cognitoSub)) :
    Constrained (users ++ [user]) where
  ids := unique_append h.ids fun u hu _ hk hk' =>
    (hnew u hu).1 (Option.some.inj (hk.trans hk'.symm))
  emails := unique_append h.emails fun u hu _ hk hk' =>
    (hnew u hu).2.1 (Option.some.inj (hk.trans hk'.symm))
  subs := unique_append h.subs fun u hu _ hk hk' =>
    (hnew u hu).2.2 (Option.isSome_of_eq_some hk') (hk.trans hk'.symm)

/-- What `linkCognitoSub` makes of the table. -/
def linked (user : User) (cognitoSub : String) (users : List User) : List User :=
  update User.id { user with cognitoSub := some cognitoSub } users

/-- A row after a link is the linked one or another user of before. -/
theorem mem_linked {u : User} (h : u ∈ linked user cognitoSub users) :
    u = { user with cognitoSub := some cognitoSub } ∨ u ∈ users ∧ u.id ≠ user.id :=
  mem_update h

/-- A column other than the subject is unique after a link if it was before. -/
theorem unique_linked {κ : Type} {column : User → Option κ} (h : Constrained users)
    (huser : user ∈ users) (hcolumn : Unique column users)
    (hsame : column { user with cognitoSub := some cognitoSub } = column user) :
    Unique column (linked user cognitoSub users) := by
  refine unique_update h.ids hcolumn fun k hk u hu huk => ?_
  rw [hsame] at hk
  have hrow := unique_row hcolumn hu huser huk hk
  rw [hrow]

/-- A link keeps the constraints, for a `sub` that is new. -/
theorem Constrained.link (h : Constrained users) (huser : user ∈ users)
    (hnew : ∀ u ∈ users, u.cognitoSub ≠ some cognitoSub) :
    Constrained (linked user cognitoSub users) where
  ids := unique_linked h huser h.ids rfl
  emails := unique_linked h huser h.emails rfl
  subs := unique_update h.ids h.subs fun k hk u hu huk => by
    cases hk
    exact absurd huk (hnew u hu)

/-- A link is made where there is none, so what is bound stays bound. -/
theorem Bound.link (h : Constrained users) (huser : user ∈ users) (hnone : user.cognitoSub = none)
    {cognitoSub' : String} (hb : Bound users userId cognitoSub') :
    Bound (linked user cognitoSub users) userId cognitoSub' := by
  rcases hb with ⟨u, hu, hid, hsub⟩
  refine ⟨u, mem_update_of_ne hu fun heq => ?_, hid, hsub⟩
  have hrow := unique_row h.ids hu huser (congrArg some heq) rfl
  rw [hrow, hnone] at hsub
  cases hsub

theorem bound_linked (huser : user ∈ users) :
    Bound (linked user cognitoSub users) user.id cognitoSub :=
  ⟨_, mem_update_self huser rfl, rfl, rfl⟩

end Table

/-- The condition, where it is asked for. -/
def settledInsertsIf (deps : Deps) (strict : Prop) : Guard State Event LinkingCall :=
  fun s h e => strict → settledInserts deps s h e

/-- Something happened about an address. -/
def Mentioned (deps : Deps) (email : String) (h : History) : Prop :=
  ∃ x ∈ h, about deps email x = true

/-- The constraints hold, and the sessions of a subject are its row's. An
    address that was looked up in vain and not inserted since has no row. If
    every insertion is settled, the addresses are distinct. -/
structure Inv (deps : Deps) (strict : Prop) (s : State) (h : History) : Prop where
  constrained : Constrained s.identity.users
  sessions : ∀ call session, (call, .sessionStored session) ∈ h →
    ∃ authenticated environment method, call = .login authenticated environment method ∧
      Bound s.identity.users session.userId authenticated.sub
  free : ∀ email, Mentioned deps email h → insertedLast deps email h = false →
    ∀ u ∈ s.identity.users, deps.lower u.email ≠ deps.lower email
  distinct : strict → DistinctAddresses deps s.identity.users

/-- What is bound stays bound, and what has happened has happened. -/
def linkingCourse (deps : Deps) (strict : Prop) : Course State Event LinkingCall where
  guard := settledInsertsIf deps strict
  Inv := Inv deps strict
  Leads s h s' h' := h ⊆ h' ∧ ∀ userId cognitoSub, Bound s.identity.users userId cognitoSub →
    Bound s'.identity.users userId cognitoSub

section Steps

variable {deps : Deps} {strict : Prop} {call : LinkingCall}
  {s s' : State} {h : History} {K : Knowledge (linkingCourse deps strict)}

/-- That a row is bound, once known, stays known. -/
def bound (deps : Deps) (strict : Prop) (userId cognitoSub : String) :
    Knowledge (linkingCourse deps strict) where
  holds s _ := Bound s.identity.users userId cognitoSub
  stable _ _ _ _ hlead h := hlead.2 userId cognitoSub h

/-- That something happened about an address, too. -/
def mentioned (deps : Deps) (strict : Prop) (email : String) :
    Knowledge (linkingCourse deps strict) :=
  .ofHistory (Mentioned deps email) fun _ _ _ _ hlead h =>
    h.imp fun _ hx => ⟨hlead.1 hx.1, hx.2⟩

/-- The user of a login is disabled or bound to its subject. -/
def settled (deps : Deps) (strict : Prop) (cognitoSub : String)
    (user : User) : Knowledge (linkingCourse deps strict) :=
  if user.status = .active then bound deps strict user.id cognitoSub else 0

/-- The invariant survives a change of the table that keeps what is bound and
    brings no address. -/
theorem Inv.change (hi : Inv deps strict s h) (hc : Constrained s'.identity.users)
    (hbound : ∀ userId cognitoSub, Bound s.identity.users userId cognitoSub →
      Bound s'.identity.users userId cognitoSub)
    (hemails : ∀ u ∈ s'.identity.users, ∃ v ∈ s.identity.users, v.email = u.email)
    (hdistinct : strict → DistinctAddresses deps s'.identity.users) : Inv deps strict s' h where
  constrained := hc
  sessions call session hmem := by
    rcases hi.sessions call session hmem with ⟨authenticated, environment, method, hcall, hb⟩
    exact ⟨authenticated, environment, method, hcall, hbound _ _ hb⟩
  free email hmentioned hlast u hu := by
    rcases hemails u hu with ⟨v, hv, heq⟩
    rw [← heq]
    exact hi.free email hmentioned hlast v hv
  distinct := hdistinct

/-- The invariant holds on where the users are unchanged. -/
theorem Inv.users_eq (hi : Inv deps strict s h) (hu : s'.identity.users = s.identity.users) :
    Inv deps strict s' h := by
  refine hi.change ?_ ?_ ?_ ?_
  · rw [hu]
    exact hi.constrained
  · rw [hu]
    exact fun _ _ hb => hb
  · rw [hu]
    exact fun u hmem => ⟨u, hmem, rfl⟩
  · rw [hu]
    exact hi.distinct

/-- An event about no address leaves what is known of addresses. -/
theorem Inv.free_log (hi : Inv deps strict s h) {e : Event}
    (habout : ∀ email, about deps email (call, e) = false) (email : String)
    (hmentioned : Mentioned deps email ((call, e) :: h))
    (hlast : insertedLast deps email ((call, e) :: h) = false) :
    ∀ u ∈ s.identity.users, deps.lower u.email ≠ deps.lower email := by
  rw [insertedLast_cons (habout email)] at hlast
  rcases hmentioned with ⟨x, hx, hxabout⟩
  rcases List.mem_cons.mp hx with rfl | hx
  · rw [habout email] at hxabout
    cases hxabout
  · exact hi.free email ⟨x, hx, hxabout⟩ hlast

/-- The invariant holds on after an event that is about no address. -/
theorem Inv.log {e : Event} (hi : Inv deps strict s h) (he : ∀ session, e ≠ .sessionStored session)
    (habout : ∀ email, about deps email (call, e) = false) :
    Inv deps strict s ((call, e) :: h) where
  constrained := hi.constrained
  sessions call' session hmem := by
    rcases List.mem_cons.mp hmem with heq | hmem
    · exact absurd (Prod.mk.inj heq).2.symm (he session)
    · exact hi.sessions call' session hmem
  free := hi.free_log habout
  distinct := hi.distinct

/-- A look-up that finds nothing says that there is no row. -/
theorem Inv.missed (hi : Inv deps strict s h) {missed : String}
    (hnone : ∀ u ∈ s.identity.users, deps.lower u.email ≠ deps.lower missed) :
    Inv deps strict s ((call, .emailMissing missed) :: h) where
  constrained := hi.constrained
  sessions call' session hmem := by
    rcases List.mem_cons.mp hmem with heq | hmem
    · cases heq
    · exact hi.sessions call' session hmem
  free email hmentioned hlast := by
    -- Of this address the look-up has just found none; of others nothing has changed.
    by_cases hsame : deps.lower missed = deps.lower email
    · rw [← hsame]
      exact hnone
    · have hother : about deps email (call, .emailMissing missed) = false := decide_eq_false hsame
      rw [insertedLast_cons hother] at hlast
      rcases hmentioned with ⟨x, hx, hxabout⟩
      rcases List.mem_cons.mp hx with rfl | hx
      · rw [hother] at hxabout
        cases hxabout
      · exact hi.free email ⟨x, hx, hxabout⟩ hlast
  distinct := hi.distinct

/-- A row that is inserted has an address with no row, if the insertion is
    settled. -/
theorem Inv.created (hi : Inv deps strict s h) {user : User}
    (husers : s'.identity.users = s.identity.users ++ [user])
    (hnew : ∀ u ∈ s.identity.users, u.id ≠ user.id ∧ u.email ≠ user.email ∧
      (user.cognitoSub.isSome = true → u.cognitoSub ≠ user.cognitoSub))
    (hmentioned : Mentioned deps user.email h)
    (hguard : strict → insertedLast deps user.email h = false) :
    Inv deps strict s' ((call, .userCreated user) :: h) where
  constrained := by
    rw [husers]
    exact hi.constrained.insert hnew
  -- The new row takes no binding away.
  sessions call' session hmem := by
    rcases List.mem_cons.mp hmem with heq | hmem
    · cases heq
    · rcases hi.sessions call' session hmem with ⟨authenticated, environment, method, hcall, hb⟩
      rw [husers]
      exact ⟨authenticated, environment, method, hcall, hb.append user⟩
  free email hmentioned' hlast := by
    -- For an equal address the row was just inserted, contrary to `hlast`.
    by_cases hsame : deps.lower user.email = deps.lower email
    · rw [insertedLast_created hsame] at hlast
      cases hlast
    · have hother : about deps email (call, .userCreated user) = false := decide_eq_false hsame
      rw [insertedLast_cons hother] at hlast
      rw [husers]
      intro u hu
      rcases List.mem_append.mp hu with hu | hu
      · rcases hmentioned' with ⟨x, hx, hxabout⟩
        rcases List.mem_cons.mp hx with rfl | hx
        · rw [hother] at hxabout
          cases hxabout
        · exact hi.free email ⟨x, hx, hxabout⟩ hlast u hu
      · rw [List.mem_singleton.mp hu]
        exact hsame
  -- No row about the address came between the look-up and this one.
  distinct hstrict := by
    rw [husers]
    refine unique_append (hi.distinct hstrict) fun u hu k hk hk' => ?_
    have hfree := hi.free user.email hmentioned (hguard hstrict) u hu
    exact hfree (Option.some.inj (hk.trans hk'.symm))

/-- The parts that say nothing about users. -/
def otherParts : List Field :=
  [.sidIndex, .mfaMethods, .memberships, .sessions, .audit]

theorem knows_touches {α : Type} {p : AuthProg α} (hp : Touches otherParts p)
    (K : Knowledge (linkingCourse deps strict)) : Knows call K p fun _ => K := by
  refine knows_within hp ?_ ?_ K
  · intro s s' h hs hi
    have husers : s'.identity.users = s.identity.users := hs.same .users (by decide)
    refine ⟨Inv.users_eq hi husers, List.Subset.refl _, fun userId cognitoSub hb => ?_⟩
    rw [husers]
    exact hb
  · intro s h e he hi
    refine ⟨Inv.log hi ?_ fun email => ?_, List.subset_cons_self _ _, fun _ _ hb => hb⟩
    · rintro session rfl
      exact absurd he (by decide : Field.ssoSessions ∉ otherParts)
    · cases e with
      | emailMissing missed => exact absurd he (by decide : Field.users ∉ otherParts)
      | userCreated user => exact absurd he (by decide : Field.users ∉ otherParts)
      | _ => rfl

theorem knows_audit {subject : AuditSubject} {detail : AuditDetail}
    (K : Knowledge (linkingCourse deps strict)) :
    Knows call K (recordAudit subject detail) fun _ => K :=
  knows_touches (touches_recordAudit.mono (by decide)) K

/-- The row that was found, if there is one, is bound to the subject. -/
def foundBound (deps : Deps) (strict : Prop) (cognitoSub : String) :
    Option User → Knowledge (linkingCourse deps strict)
  | none => 0
  | some user => bound deps strict user.id cognitoSub

theorem knows_findUserByCognitoSub (cognitoSub : String) :
    Knows call (0 : Knowledge (linkingCourse deps strict)) (findUserByCognitoSub cognitoSub)
      (foundBound deps strict cognitoSub) := by
  refine knows_atomic fun s h hi _ => ⟨hi, ⟨List.Subset.refl _, fun _ _ hb => hb⟩, ?_⟩
  show (foundBound deps strict cognitoSub
    (s.identity.users.find? (·.cognitoSub = some cognitoSub))).holds s h
  cases hfound : s.identity.users.find? (·.cognitoSub = some cognitoSub) with
  | none => exact trivial
  | some user =>
      have hsub := List.find?_some hfound
      exact ⟨user, List.mem_of_find?_eq_some hfound, rfl, of_decide_eq_true hsub⟩

/-- An address that was looked up in vain is one that something happened
    about. -/
def foundEmail (deps : Deps) (strict : Prop) (email : String) :
    Option User → Knowledge (linkingCourse deps strict)
  | none => mentioned deps strict email
  | some _ => 0

theorem knows_findUserByEmail (email : String) :
    Knows call (0 : Knowledge (linkingCourse deps strict)) (findUserByEmail deps email)
      (foundEmail deps strict email) := by
  refine knows_act fun i s h found s' hi _ hrun _ => ?_
  cases hrun
  cases hfound : s.identity.users.find? fun user => deps.lower user.email = deps.lower email with
  | some user => exact ⟨hi, ⟨List.Subset.refl _, fun _ _ hb => hb⟩, trivial⟩
  | none =>
      refine ⟨Inv.missed hi fun u hu hsame => ?_, ⟨List.subset_cons_self _ _, fun _ _ hb => hb⟩,
        _, List.mem_cons_self, decide_eq_true rfl⟩
      exact List.find?_eq_none.mp hfound u hu (decide_eq_true hsame)

/-- What an insertion asks of the table. -/
theorem isNew_of_free {users : List User} {id email : String} {cognitoSub : Option String}
    (hfree : ¬ (users.any fun u => decide
      (u.id = id ∨ u.email = email ∨ cognitoSub.isSome = true ∧ u.cognitoSub = cognitoSub)) = true)
    (u : User) (hu : u ∈ users) :
    u.id ≠ id ∧ u.email ≠ email ∧ (cognitoSub.isSome = true → u.cognitoSub ≠ cognitoSub) := by
  have hnot : ¬ (u.id = id ∨ u.email = email ∨
      cognitoSub.isSome = true ∧ u.cognitoSub = cognitoSub) :=
    fun h => hfree (List.any_eq_true.mpr ⟨u, hu, decide_eq_true h⟩)
  rw [not_or, not_or, not_and] at hnot
  exact hnot

/-- A row that is created with a subject is bound to it. -/
def createdBound (deps : Deps) (strict : Prop) (user : User) :
    Option String → Knowledge (linkingCourse deps strict)
  | none => 0
  | some cognitoSub => bound deps strict user.id cognitoSub

theorem knows_createUser {id email : String} {cognitoSub name : Option String} :
    Knows call (mentioned deps strict email) (createUser id cognitoSub email name)
      fun user => createdBound deps strict user cognitoSub := by
  refine knows_act fun i s h user s' hi hmentioned hrun hguard => ?_
  split at hrun
  · cases hrun
  · next hfree =>
      cases hrun
      have hi' : Inv deps strict s h := hi
      have hbound : ∀ userId sub, Bound s.identity.users userId sub →
          Bound (s.identity.users ++ [⟨id, cognitoSub, email, name, .active⟩]) userId sub :=
        fun userId sub hb => hb.append _
      refine ⟨hi'.created rfl (isNew_of_free hfree) hmentioned (hguard _ rfl),
        ⟨List.subset_cons_self _ _, hbound⟩, ?_⟩
      cases cognitoSub with
      | none => exact trivial
      | some sub => exact ⟨_, List.mem_append_right _ (List.mem_singleton_self _), rfl, rfl⟩

theorem knows_linkCognitoSub {userId cognitoSub : String} :
    Knows call (0 : Knowledge (linkingCourse deps strict)) (linkCognitoSub userId cognitoSub)
      fun user => bound deps strict user.id cognitoSub := by
  refine knows_ask fun i s h user s' hi _ hrun => ?_
  have hi' : Inv deps strict s h := hi
  split at hrun
  · cases hrun
  · next found hfound =>
      split at hrun
      · cases hrun
      · next hfree =>
          cases hrun
          have hmem := List.mem_of_find?_eq_some hfound
          have hwhich := List.find?_some hfound
          rcases of_decide_eq_true hwhich with ⟨rfl, hnone⟩
          -- The `sub` is free and the row has none, so no binding changes.
          have hnew : ∀ u ∈ s.identity.users, u.cognitoSub ≠ some cognitoSub := fun u hu heq =>
            hfree (List.any_eq_true.mpr ⟨u, hu, decide_eq_true heq⟩)
          have hbound : ∀ userId sub, Bound s.identity.users userId sub →
              Bound (linked found cognitoSub s.identity.users) userId sub :=
            fun userId sub hb => hb.link hi'.constrained hmem hnone
          refine ⟨hi'.change (hi'.constrained.link hmem hnew) hbound (fun u hu => ?_) fun hg => ?_,
            ⟨List.Subset.refl _, hbound⟩, bound_linked hmem⟩
          · rcases mem_linked hu with rfl | ⟨hold, _⟩
            · exact ⟨found, hmem, rfl⟩
            · exact ⟨u, hold, rfl⟩
          · exact unique_linked hi'.constrained hmem (hi'.distinct hg) rfl

/-- A login ends with a disabled user or with one that is bound to its
    subject. -/
theorem knows_resolveUser (cognitoSub email : String) (name : Option String) :
    Knows call (0 : Knowledge (linkingCourse deps strict)) (resolveUser deps cognitoSub email name)
      (settled deps strict cognitoSub) := by
  -- A user who is bound is one whom the login may open a session for.
  have hsettled : ∀ user : User,
      (bound deps strict user.id cognitoSub).Gives (settled deps strict cognitoSub user) := by
    intro user
    unfold settled
    split
    · exact Knowledge.gives_refl _
    · exact Knowledge.gives_zero _
  refine knows_bind (knows_findUserByCognitoSub cognitoSub) fun bySub => ?_
  cases bySub with
  | some user => exact knows_pure (hsettled user)
  | none =>
      refine knows_bind (knows_findUserByEmail email) fun byEmail => ?_
      cases byEmail with
      | some user =>
          dsimp only
          split
          · exact knows_pure (Knowledge.gives_zero _)
          · exact knows_of_gives (Knowledge.gives_refl _) hsettled knows_linkCognitoSub
      | none =>
          refine knows_bind (knows_touches touches_ulid _) fun id => ?_
          exact knows_of_gives (Knowledge.gives_refl _) hsettled knows_createUser

/-- A login stores a session of the row that is bound to its subject. -/
theorem knows_storeSession {authenticated : CognitoAuthenticated} {environment : RequestEnvironment}
    {method : MfaMethod} {session : SsoSession} {ttl : Int}
    (hK : K.Gives (bound deps strict session.userId authenticated.sub)) :
    Knows (.login authenticated environment method) K
      (ssoSessions.setLogged (.sessionStored session) session.id session ttl : AuthProg Unit)
      fun _ => 0 := by
  refine knows_logged fun s h hi hk _ =>
    ⟨?_, ⟨List.subset_cons_self _ _, fun _ _ hb => hb⟩, trivial⟩
  have hi' : Inv deps strict s h := hi
  refine ⟨hi'.constrained, fun call session' hmem => ?_, hi'.free_log fun _ => rfl, hi'.distinct⟩
  rcases List.mem_cons.mp hmem with heq | hmem
  · cases heq
    exact ⟨authenticated, environment, method, rfl, hK s h hk⟩
  · exact hi'.sessions call session' hmem

/-- A session is opened for a user that is bound to the `sub` of the login. -/
theorem knows_createSsoSession {authenticated : CognitoAuthenticated}
    {environment environment' : RequestEnvironment} {method : MfaMethod} (user : User)
    (hK : K.Gives (bound deps strict user.id authenticated.sub)) :
    Knows (.login authenticated environment method) K
      (createSsoSession deps user authenticated environment') fun _ => 0 := by
  refine knows_bind (knows_touches touches_nowSeconds K) fun now => ?_
  refine knows_bind (knows_touches touches_randomToken K) fun cookieValue => ?_
  refine knows_bind (knows_touches touches_randomToken K) fun sid => ?_
  refine knows_bind (knows_touches touches_randomIv K) fun iv => ?_
  have hindex : Touches otherParts (sidIndex.setLogged
      (.sessionIndexed sid (deps.keyOf cookieValue)) sid (deps.keyOf cookieValue)
        ssoExpiry.absoluteSeconds) :=
    (touches_setLogged onField_sidIndex rfl).mono (by decide)
  exact knows_bind (knows_both (knows_storeSession hK) (knows_both (knows_touches hindex K)
    (knows_touches (touches_sessionsCreate.mono (by decide)) K))) fun _ =>
      knows_pure (Knowledge.gives_zero _)

/-- A login opens its session for the user bound to its `sub`. -/
theorem knows_finishLogin (authenticated : CognitoAuthenticated) (environment : RequestEnvironment)
    (method : MfaMethod) :
    Knows (.login authenticated environment method) (0 : Knowledge (linkingCourse deps strict))
      (finishLogin deps authenticated environment method) fun _ => 0 := by
  refine knows_bind (knows_resolveUser _ _ _) fun user => ?_
  split
  · exact knows_bind (knows_audit _) fun _ => knows_pure (Knowledge.gives_zero _)
  · next hactive =>
      have hK : (settled deps strict authenticated.sub user).Gives
          (bound deps strict user.id authenticated.sub) := by
        unfold settled
        rw [if_pos (by simpa using hactive)]
        exact Knowledge.gives_refl _
      refine knows_bind (knows_touches touches_nowSeconds _) fun now => ?_
      refine knows_bind (knows_touches (touches_recordMfaMethod.mono (by decide)) _) fun _ => ?_
      refine knows_bind (knows_createSsoSession user hK) fun created => ?_
      exact knows_bind (knows_audit _) fun _ => knows_pure (Knowledge.gives_zero _)

theorem knows_inviteServiceMember (client : OidcClient) (input : InviteInput) :
    Knows call (0 : Knowledge (linkingCourse deps strict)) (inviteServiceMember deps client input)
      fun _ => 0 := by
  refine knows_bind (knows_touches touches_resolveContractedTenant 0) fun resolved => ?_
  cases resolved with
  | error e => exact knows_pure (Knowledge.gives_zero _)
  | ok tenantId =>
      refine knows_bind (Q := fun _ => 0) ?_ fun user => ?_
      · refine knows_bind (knows_findUserByEmail _) fun found => ?_
        cases found with
        | some user => exact knows_pure (Knowledge.gives_zero _)
        | none =>
            refine knows_bind (knows_touches touches_ulid _) fun id => ?_
            exact knows_of_gives (Knowledge.gives_refl _) (fun _ => Knowledge.gives_zero _)
              knows_createUser
      · refine knows_bind (knows_touches (touches_upsertServiceMembership.mono (by decide)) 0)
          fun _ => ?_
        exact knows_bind (knows_audit _) fun _ => knows_pure (Knowledge.gives_zero _)

theorem knows_body (call : LinkingCall) :
    Knows call (0 : Knowledge (linkingCourse deps strict)) ((linkingSystem deps).body call)
      fun _ => 0 := by
  cases call with
  | login authenticated environment method => exact knows_finishLogin _ _ _
  | invite client input => exact knows_inviteServiceMember _ _

end Steps

section Runs

variable {deps : Deps} {strict : Prop} {init : State}
  {p q : Pool State Outside Event LinkingCall LinkingCall.Answer}

/-- Time keeps the invariant and every fact about the users. -/
theorem env_leads (s : State) (h : History) (seconds : Nat) (s' : State)
    (henv : (linkingSystem deps).env seconds s = some s')
    (hi : (linkingCourse deps strict).Inv s h) :
    (linkingCourse deps strict).Inv s' h ∧ (linkingCourse deps strict).Leads s h s' h := by
  cases henv
  exact ⟨Inv.users_eq hi rfl, List.Subset.refl _, fun _ _ hb => hb⟩

theorem poolOk_of_linking (hinit : Constrained init.identity.users)
    (hdistinct : strict → DistinctAddresses deps init.identity.users)
    (h : Reachable (linkingSystem deps) (settledInsertsIf deps strict) init p) :
    PoolOk (linkingCourse deps strict).protocol (fun _ _ K => K.Gives 0) p :=
  knowing_of_reachable (fun _ _ => 0) knows_body env_leads
    ⟨hinit, fun _ _ hnil => absurd hnil List.not_mem_nil,
      fun _ ⟨_, hnil, _⟩ => absurd hnil List.not_mem_nil, hdistinct⟩ h

theorem inv_of_linking (hinit : Constrained init.identity.users)
    (hdistinct : strict → DistinctAddresses deps init.identity.users)
    (h : Reachable (linkingSystem deps) (settledInsertsIf deps strict) init p) :
    Inv deps strict p.store p.trace := by
  rcases poolOk_of_linking hinit hdistinct h with ⟨_, _, hinv⟩
  exact hinv.1

/-- A run without the condition. -/
theorem unconditional (h : Reachable (linkingSystem deps) anyStep init p) :
    Reachable (linkingSystem deps) (settledInsertsIf deps False) init p :=
  reachable_mono (fun _ _ _ _ => False.elim) h

end Runs

/-- In every run, rows stay bound to their subjects, the constraints of the
    table hold, and a login stores only sessions of the row that is bound to
    its subject. In every run in which no address is inserted between the
    look-up that finds nothing and the insertion of somebody else, no two
    addresses are equal apart from case. -/
theorem subjects_stay (deps : Deps) (init : State) (hinit : Constrained init.identity.users) :
    (∀ p q : Pool State Outside Event LinkingCall LinkingCall.Answer,
      Reachable (linkingSystem deps) anyStep init p →
      Relation.ReflTransGen (PoolStep (linkingSystem deps) anyStep) p q →
      ∀ userId cognitoSub, Bound p.store.identity.users userId cognitoSub →
        Bound q.store.identity.users userId cognitoSub) ∧
    (∀ p : Pool State Outside Event LinkingCall LinkingCall.Answer,
      Reachable (linkingSystem deps) anyStep init p →
      Constrained p.store.identity.users ∧
      ∀ call session, (call, .sessionStored session) ∈ p.trace →
        ∃ authenticated environment method, call = .login authenticated environment method ∧
          Bound p.store.identity.users session.userId authenticated.sub) ∧
    (DistinctAddresses deps init.identity.users →
      ∀ p : Pool State Outside Event LinkingCall LinkingCall.Answer,
        Reachable (linkingSystem deps) (settledInserts deps) init p →
        DistinctAddresses deps p.store.identity.users) := by
  refine ⟨fun p q hp hpq userId cognitoSub hb => ?_, fun p hp => ?_, fun hdistinct p hp => ?_⟩
  -- The first two parts hold without a condition on the schedule.
  · have hrun : Relation.ReflTransGen
        (PoolStep (linkingSystem deps) (settledInsertsIf deps False)) p q :=
      run_mono (fun _ _ _ _ => False.elim) hpq
    exact holds_of_run knows_body env_leads (bound deps False userId cognitoSub)
      (poolOk_of_linking hinit False.elim (unconditional hp)) hb hrun
  · have hinv := inv_of_linking hinit False.elim (unconditional hp)
    exact ⟨hinv.constrained, hinv.sessions⟩
  -- The third one takes the condition on the insertions.
  · have hstrict : Reachable (linkingSystem deps) (settledInsertsIf deps True) init p :=
      reachable_mono (fun _ _ _ hg _ => hg) hp
    exact (inv_of_linking hinit (fun _ => hdistinct) hstrict).distinct trivial

section Example

/-- An invitation of an address. -/
def inviteBob (email : String) : LinkingCall := .invite crm ⟨acme.id, email, none⟩

/-- A number of steps of one call that need nothing from outside. -/
def steps (index count : Nat) : List (Move Outside LinkingCall Nat) :=
  List.replicate count (.run index (.audit "" false))

/-- An invitation, and a first login with the address in another case. -/
def firstLoginMoves : List (Move Outside LinkingCall Nat) :=
  [.spawn (inviteBob "Bob@example.com")] ++ steps 0 3 ++ [.run 0 (.ulid "bob")] ++ steps 0 4 ++
    [.spawn (.login ⟨"bob-sub", "bob@example.com", none, cognitoTokens⟩ browser .totp)] ++
    steps 1 6 ++ [.run 1 (.random cookie1), .run 1 (.random sid1), .run 1 (.random "iv")] ++
    steps 1 1

/-- Two invitations that both look the address up before either inserts it. -/
def overlappingMoves : List (Move Outside LinkingCall Nat) :=
  [.spawn (inviteBob "Bob@example.com"), .spawn (inviteBob "bob@example.com")] ++
    steps 0 3 ++ steps 1 3 ++ [.run 0 (.ulid "bob-1"), .run 1 (.ulid "bob-2")] ++ steps 0 1 ++
    steps 1 1

theorem constrained_smallStart : Constrained smallStart.identity.users :=
  ⟨by decide +kernel, by decide +kernel, by decide +kernel⟩

/-- The session of the first login is of the row that was invited. -/
theorem bob_is_linked :
    ∃ p call session, Reachable (linkingSystem smallDeps) (settledInserts smallDeps) smallStart p ∧
      (call, .sessionStored session) ∈ p.trace ∧
      (∃ authenticated environment method, call = .login authenticated environment method ∧
        Bound p.store.identity.users session.userId authenticated.sub) ∧
      DistinctAddresses smallDeps p.store.identity.users := by
  rcases reachable_of_play_any (linkingSystem smallDeps) (settledInserts smallDeps) smallStart
    firstLoginMoves (fun p => p.trace.any fun x => match x.2 with
      | .sessionStored session => session.userId == "bob"
      | _ => false) (by decide +kernel) with ⟨p, hp, htest⟩
  rcases List.any_eq_true.mp htest with ⟨⟨call, e⟩, hmem, he⟩
  cases e with
  | sessionStored session =>
      have hany := reachable_mono (fun _ _ _ _ => trivial) hp
      have hstay := subjects_stay smallDeps smallStart constrained_smallStart
      exact ⟨p, call, session, hp, hmem, (hstay.2.1 p hany).2 call session hmem,
        hstay.2.2 (by decide +kernel) p hp⟩
  | _ => cases he

/-- Two rows with one address. -/
theorem address_inserted_twice :
    ∃ p, Reachable (linkingSystem smallDeps) anyStep smallStart p ∧
      DistinctAddresses smallDeps smallStart.identity.users ∧
      ¬ DistinctAddresses smallDeps p.store.identity.users := by
  rcases reachable_of_play_any (linkingSystem smallDeps) anyStep smallStart overlappingMoves
    (fun p => decide (p.store.identity.users.map (·.email) =
      ["alice@example.com", "Bob@example.com", "bob@example.com"])) (by decide +kernel)
    with ⟨p, hp, htest⟩
  refine ⟨p, hp, by decide +kernel, fun hdistinct => ?_⟩
  have hcolumn : p.store.identity.users.filterMap (fun u => some (smallDeps.lower u.email)) =
      (p.store.identity.users.map (·.email)).filterMap
        fun email => some (smallDeps.lower email) := by
    rw [List.filterMap_map]
    rfl
  unfold DistinctAddresses Tables.Unique at hdistinct
  rw [hcolumn, of_decide_eq_true htest] at hdistinct
  exact absurd hdistinct (by decide +kernel)

end Example

end Sandbox.Auth.Linking
