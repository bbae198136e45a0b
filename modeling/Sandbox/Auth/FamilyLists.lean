import Mathlib.Data.Multiset.Count
import Sandbox.Auth.FamilySets
import Sandbox.Auth.RefreshTokens
import Sandbox.Interleave.Tokens

/-!
# The Lists of a Session's Families

A session is ended together with its refresh token families, which are found
through a list under its `sid`. So as long as a session is stored, every token
that can be used and rests on it has to be on that list.

The list is written when a family is created and then no more, while the
tokens of the family are replaced again and again. That it lasts long enough
is a matter of times: the list is written after the session was created and
with the session's absolute limit as its time to live, so it does not end
before the session must.

For this a `sid` has to stand for one session only. `Names` gives each the
store key and the second of creation that were chosen for it, and nothing
changes a name once given. Requests do not overlap here, so at most one of the
programs that run holds the mode, which says how far its request has got.

## Main definitions

* `Names`, `Mode`, `Token`: The names of sessions, and what programs hold.
* `Listed`, `Due`: A token is on its session's list, for long enough.
* `Linked`: The relation of sessions, codes, tokens and lists.

## Theorems

* `Linked.shrink`, `Linked.switch`: Losing things, and changing the mode.
* `Linked.name`, `Linked.storeSession`, `Linked.indexSession`,
  `Linked.storeCode`, `Linked.storeToken`, `Linked.storeSuccessor`,
  `Linked.list`, `Linked.forget`: The steps that add something or delete a
  list.
* `Linked.ok_kept`, `Linked.ok_gone`, `Linked.ok_holding`: When a mode is
  right.
-/

namespace Sandbox.Auth

open Interleave Ttl

/-- The store key and the second of creation of the session of a `sid`. -/
abbrev Names : Type := String → Option (String × Int)

/-- The reference to the family of a token on the list of its session. -/
def RefreshToken.familyRef (token : RefreshToken) : RefreshFamilyRef where
  familyId := token.familyId
  clientId := token.clientId
  tenantId := token.tenantId

/-- The family of a token is on its session's list until a second at least. -/
def Listed (s : State) (v : RefreshToken) (until' : Int) : Prop :=
  ∃ refs, s.sidRefreshFamilies v.sid = some refs ∧ encodeFamilyRef v.familyRef ∈ refs.value ∧
    until' ≤ refs.expiresAt

/-- The family of a token is listed until its session's absolute limit. -/
def Due (names : Names) (s : State) (v : RefreshToken) : Prop :=
  ∀ key createdAt, names v.sid = some (key, createdAt) →
    s.now < createdAt + ssoExpiry.absoluteSeconds →
    Listed s v (createdAt + ssoExpiry.absoluteSeconds)

/-- How far a request has got. -/
inductive Mode
  | free
  /-- The session may be stored, because its tokens are listed. -/
  | kept (sid : String)
  /-- The session is not stored, so its list may be deleted. -/
  | gone (sid : String)
  /-- The token was taken out, and its successor may be stored. -/
  | holding (v : RefreshToken)
  /-- The token is the first of its family and not listed yet. -/
  | creating (v : RefreshToken)
  deriving DecidableEq

inductive Token
  | mode (m : Mode)
  /-- The key was stored and is not in the set of its family yet. -/
  | owed (f key : String)
  /-- The name of a session. -/
  | named (sid key : String) (createdAt : Int)
  /-- A second that is not in the future. -/
  | past (second : Int)
  deriving DecidableEq

def Token.isMode : Token → Bool
  | .mode _ => true
  | _ => false

/-- What a mode says about the state. -/
def Mode.Ok (names : Names) (s : State) : Mode → Prop
  | .free => True
  | .kept sid => ∀ f key e, UsableEntry s f key e → e.value.sid = sid → Due names s e.value
  | .gone sid => ∀ k e, s.ssoSessions k = some e → e.value.sid ≠ sid
  | .holding v => (names v.sid).isSome ∧ ':' ∉ v.familyId.toList ∧
      ∀ k e, s.ssoSessions k = some e → e.value.sid = v.sid → Due names s v
  | .creating _ => True

/-- Sessions, codes, tokens and lists fit together. -/
structure Linked (names : Names) (R : Multiset Token) (s : State) : Prop where
  issued : ∀ sid n, names sid = some n → sid ∈ s.issued
  past : ∀ sid key createdAt, names sid = some (key, createdAt) → createdAt ≤ s.now
  clock : ∀ second, .past second ∈ R → second ≤ s.now
  facts : ∀ sid key createdAt, .named sid key createdAt ∈ R → names sid = some (key, createdAt)
  sessions : ∀ k e, s.ssoSessions k = some e →
    e.value.id = k ∧ names e.value.sid = some (k, e.value.createdAt)
  index : ∀ sid e, s.sidIndex sid = some e → ∃ createdAt, names sid = some (e.value, createdAt)
  codes : ∀ k e grant, s.authorizationCodes k = some e → e.value = .unused grant →
    (names grant.sid).isSome
  tokens : ∀ f key e, UsableEntry s f key e → (names e.value.sid).isSome ∧ ':' ∉ f.toList
  due : ∀ k x, s.ssoSessions k = some x → ∀ f key e, UsableEntry s f key e →
    e.value.sid = x.value.sid → .mode (.creating e.value) ∈ R ∨ Due names s e.value
  modes : ∀ m, .mode m ∈ R → m.Ok names s

section Listing

variable {names : Names} {s s' : State} {v w : RefreshToken}

theorem Due.mono (h : Due names s v) (hnow : s.now ≤ s'.now)
    (hlists : s'.sidRefreshFamilies v.sid = s.sidRefreshFamilies v.sid) : Due names s' v := by
  intro key createdAt hname hlt
  rcases h key createdAt hname (by omega) with ⟨refs, hrefs, hmem, hle⟩
  exact ⟨refs, hlists.trans hrefs, hmem, hle⟩

/-- A successor is due as its predecessor was. -/
theorem Due.successor (h : Due names s v) (hsid : w.sid = v.sid)
    (href : w.familyRef = v.familyRef) : Due names s w := by
  intro key createdAt hname hlt
  rcases h key createdAt (hsid ▸ hname) hlt with ⟨refs, hrefs, hmem, hle⟩
  exact ⟨refs, hsid ▸ hrefs, href ▸ hmem, hle⟩

/-- The state after a reference was put on a list. -/
def State.addRef (s : State) (sid ref : String) : State :=
  { s with sidRefreshFamilies := Ttl.add s.sidRefreshFamilies s.now sid ref refreshTokenTtl }

/-- A list is renewed with the session's absolute limit. -/
theorem Due.addRef {sid ref : String} (h : Due names s v)
    (hpast : ∀ sid key createdAt, names sid = some (key, createdAt) → createdAt ≤ s.now) :
    Due names (s.addRef sid ref) v := by
  intro key createdAt hname hlt
  rcases h key createdAt hname hlt with ⟨refs, hrefs, hmem, hle⟩
  have hcreated := hpast _ _ _ hname
  by_cases hsid : v.sid = sid
  · subst hsid
    rcases add_self s.sidRefreshFamilies s.now v.sid ref refreshTokenTtl with ⟨xs, hput, hxs⟩
    refine ⟨_, hput, (hxs _).mpr (.inr ?_), Int.add_le_add_right hcreated _⟩
    -- The session has not ended, so neither has the list.
    exact Ttl.mem_members.mpr ⟨refs, hrefs, Int.lt_of_lt_of_le hlt hle, hmem⟩
  · exact ⟨refs, (add_of_ne _ _ _ _ hsid).trans hrefs, hmem, hle⟩

/-- What is put on a list is due. -/
theorem due_addRef (hpast : ∀ sid key createdAt, names sid = some (key, createdAt) →
    createdAt ≤ s.now) : Due names (s.addRef v.sid (encodeFamilyRef v.familyRef)) v := by
  intro key createdAt hname _
  rcases add_self s.sidRefreshFamilies s.now v.sid (encodeFamilyRef v.familyRef) refreshTokenTtl
    with ⟨xs, hput, hxs⟩
  exact ⟨_, hput, (hxs _).mpr (.inl rfl), Int.add_le_add_right (hpast _ _ _ hname) _⟩

/-- A mode survives the loss of sessions and tokens. -/
theorem Mode.Ok.shrink {m : Mode} (h : m.Ok names s) (hnow : s.now ≤ s'.now)
    (hsessions : ∀ k e, s'.ssoSessions k = some e → s.ssoSessions k = some e)
    (husable : ∀ f key e, UsableEntry s' f key e → UsableEntry s f key e)
    (hlists : s'.sidRefreshFamilies = s.sidRefreshFamilies) : m.Ok names s' := by
  cases m with
  | free => trivial
  | kept sid =>
      exact fun f key e he hsid => (h f key e (husable _ _ _ he) hsid).mono hnow (by rw [hlists])
  | gone sid => exact fun k e he => h k e (hsessions k e he)
  | holding v =>
      exact ⟨h.1, h.2.1, fun k e he hsid =>
        (h.2.2 k e (hsessions k e he) hsid).mono hnow (by rw [hlists])⟩
  | creating v => trivial

end Listing

section Steps

variable {names : Names} {R R' : Multiset Token} {s s' : State} {m n : Mode}

/-- Everything that matters gets less or stays. -/
theorem Linked.shrink (h : Linked names R s) (hnow : s.now ≤ s'.now)
    (hissued : s.issued ⊆ s'.issued)
    (hsessions : ∀ k e, s'.ssoSessions k = some e → s.ssoSessions k = some e)
    (hindex : ∀ k e, s'.sidIndex k = some e → s.sidIndex k = some e)
    (hcodes : ∀ k e grant, s'.authorizationCodes k = some e → e.value = .unused grant →
      s.authorizationCodes k = some e)
    (husable : ∀ f key e, UsableEntry s' f key e → UsableEntry s f key e)
    (hlists : s'.sidRefreshFamilies = s.sidRefreshFamilies) : Linked names R s' where
  issued sid n hn := hissued (h.issued sid n hn)
  past sid key t hn := Int.le_trans (h.past sid key t hn) hnow
  clock t ht := Int.le_trans (h.clock t ht) hnow
  facts := h.facts
  sessions k e he := h.sessions k e (hsessions k e he)
  index sid e he := h.index sid e (hindex sid e he)
  codes k e grant he hg := h.codes k e grant (hcodes k e grant he hg) hg
  tokens f key e he := h.tokens f key e (husable f key e he)
  -- The lists are the same, and what they must hold has not grown.
  due k x hx f key e he hsid :=
    (h.due k x (hsessions k x hx) f key e (husable f key e he) hsid).imp_right
      fun hdue => hdue.mono hnow (by rw [hlists])
  modes m hm := (h.modes m hm).shrink hnow hsessions husable hlists

/-- What programs know need not be held any more, or may be held twice. -/
theorem Linked.share (h : Linked names R s) (hsub : ∀ t ∈ R', t ∈ R)
    (hcreating : ∀ v, .mode (.creating v) ∈ R → .mode (.creating v) ∈ R') :
    Linked names R' s where
  issued := h.issued
  past := h.past
  clock t ht := h.clock t (hsub _ ht)
  facts sid key t ht := h.facts sid key t (hsub _ ht)
  sessions := h.sessions
  index := h.index
  codes := h.codes
  tokens := h.tokens
  due k x hx f key e he hsid := (h.due k x hx f key e he hsid).imp_left (hcreating _)
  modes m hm := h.modes m (hsub _ hm)

/-- No token waits to be listed. -/
def Mode.resting : Mode → Prop
  | .creating _ => False
  | _ => True

/-- The mode may be changed to one that is right. -/
theorem Linked.switch (h : Linked names ({.mode m} + R) s) (hone : ∀ m, .mode m ∉ R)
    (hrest : m.resting) (hok : n.Ok names s) : Linked names ({.mode n} + R) s where
  issued := h.issued
  past := h.past
  clock t ht := h.clock t (mem_frame _ ((Multiset.mem_add.mp ht).resolve_left (by simp)))
  facts sid key t ht :=
    h.facts sid key t (mem_frame _ ((Multiset.mem_add.mp ht).resolve_left (by simp)))
  sessions := h.sessions
  index := h.index
  codes := h.codes
  tokens := h.tokens
  -- A call that rests excuses no session, so all that is due stays due.
  due k x hx f key e he hsid := by
    rcases h.due k x hx f key e he hsid with hc | hdue
    · rcases Multiset.mem_add.mp hc with hc | hc
      · rw [Multiset.mem_singleton] at hc
        cases hc
        exact hrest.elim
      · exact absurd hc (hone _)
    · exact .inr hdue
  modes m₁ hm := by
    rcases Multiset.mem_add.mp hm with hm | hm
    · rw [Multiset.mem_singleton] at hm
      cases hm
      exact hok
    · exact absurd hm (hone _)

/-- Every token that can be used is due, unless one is being created. -/
theorem Linked.due_of_resting (h : Linked names ({.mode m} + R) s) (hone : ∀ m, .mode m ∉ R)
    (hrest : m.resting) {k f key : String} {x : Entry SsoSession} {e : Entry RefreshToken}
    (hx : s.ssoSessions k = some x) (he : UsableEntry s f key e)
    (hsid : e.value.sid = x.value.sid) : Due names s e.value := by
  rcases h.due k x hx f key e he hsid with hc | hdue
  · rcases Multiset.mem_add.mp hc with hc | hc
    · rw [Multiset.mem_singleton] at hc
      cases hc
      exact hrest.elim
    · exact absurd hc (hone _)
  · exact hdue

end Steps

section Additions

variable {names : Names} {R : Multiset Token} {s : State} {m : Mode}

/-- A program may know what is true. -/
theorem Linked.learn {t : Token} (h : Linked names R s)
    (hclock : ∀ second, t = .past second → second ≤ s.now)
    (hfacts : ∀ sid key createdAt, t = .named sid key createdAt →
      names sid = some (key, createdAt))
    (hmode : ∀ m, t ≠ .mode m) : Linked names ({t} + R) s where
  issued := h.issued
  past := h.past
  -- What is learnt is a time that has passed or a name that was given.
  clock second ht := by
    rcases Multiset.mem_add.mp ht with ht | ht
    · exact hclock second (Multiset.mem_singleton.mp ht).symm
    · exact h.clock second ht
  facts sid key createdAt ht := by
    rcases Multiset.mem_add.mp ht with ht | ht
    · exact hfacts sid key createdAt (Multiset.mem_singleton.mp ht).symm
    · exact h.facts sid key createdAt ht
  sessions := h.sessions
  index := h.index
  codes := h.codes
  tokens := h.tokens
  due k x hx f key e he hsid := (h.due k x hx f key e he hsid).imp_left (mem_frame _)
  modes m hm := by
    rcases Multiset.mem_add.mp hm with hm | hm
    · exact absurd (Multiset.mem_singleton.mp hm).symm (hmode m)
    · exact h.modes m hm

/-- The present second is not in the future. -/
theorem Linked.read (h : Linked names R s) : Linked names ({.past s.now} + R) s := by
  refine h.learn ?_ nofun nofun
  rintro _ ⟨⟩
  exact le_rfl

/-- The name of a session. -/
theorem Linked.know {sid key : String} {createdAt : Int} (h : Linked names R s)
    (hname : names sid = some (key, createdAt)) :
    Linked names ({.named sid key createdAt} + R) s := by
  refine h.learn nofun ?_ nofun
  rintro _ _ _ ⟨⟩
  exact hname

/-- Give the session of a fresh `sid` its name. -/
def Names.give (names : Names) (sid key : String) (createdAt : Int) : Names :=
  fun sid' => if sid' = sid then some (key, createdAt) else names sid'

theorem Names.give_of_some {sid sid' key : String} {createdAt : Int} {n : String × Int}
    (hfresh : names sid = none) (h : names sid' = some n) :
    names.give sid key createdAt sid' = some n := by
  have hne : sid' ≠ sid := by
    rintro rfl
    exact absurd (hfresh.symm.trans h) nofun
  exact (if_neg hne).trans h

/-- A fresh `sid` gets a name, and no token rests on its session yet. -/
theorem Linked.name {sid : String} {createdAt : Int} (h : Linked names ({.mode m} + R) s)
    (key : String) (hone : ∀ m, .mode m ∉ R) (hrest : m.resting) (hfresh : sid ∉ s.issued)
    (hpast : .past createdAt ∈ R) :
    Linked (names.give sid key createdAt) ({.mode (.kept sid)} + R)
      { s with issued := sid :: s.issued } := by
  -- A `sid` that was just drawn has no name yet.
  have hnone : names sid = none := by
    by_contra hsome
    rcases Option.ne_none_iff_exists'.mp hsome with ⟨n, hn⟩
    exact hfresh (h.issued sid n hn)
  have hkeep : ∀ {sid' n}, names sid' = some n → names.give sid key createdAt sid' = some n :=
    fun hn => Names.give_of_some hnone hn
  have hsome : ∀ {sid'}, (names sid').isSome → (names.give sid key createdAt sid').isSome := by
    intro sid' hs
    rcases Option.isSome_iff_exists.mp hs with ⟨n, hn⟩
    rw [hkeep hn]
    rfl
  have hback : ∀ {sid'}, (names sid').isSome → names.give sid key createdAt sid' = names sid' := by
    intro sid' hs
    rcases Option.isSome_iff_exists.mp hs with ⟨n, hn⟩
    rw [hkeep hn, hn]
  constructor
  · intro sid' n hn
    by_cases heq : sid' = sid
    · exact heq ▸ List.mem_cons_self
    · exact List.mem_cons_of_mem _ (h.issued sid' n ((if_neg heq).symm.trans hn))
  · intro sid' key' t hn
    by_cases heq : sid' = sid
    · have heq' := Option.some.inj ((if_pos heq).symm.trans hn)
      cases heq'
      exact h.clock createdAt (mem_frame _ hpast)
    · exact h.past sid' key' t ((if_neg heq).symm.trans hn)
  · exact fun t ht => h.clock t (mem_frame _ ((Multiset.mem_add.mp ht).resolve_left (by simp)))
  · exact fun sid' key' t ht =>
      hkeep (h.facts sid' key' t (mem_frame _ ((Multiset.mem_add.mp ht).resolve_left (by simp))))
  · exact fun k e he => (h.sessions k e he).imp_right hkeep
  · exact fun sid' e he => (h.index sid' e he).imp fun _ hn => hkeep hn
  · exact fun k e grant he hg => hsome (h.codes k e grant he hg)
  · exact fun f k e he => (h.tokens f k e (he.before rfl le_rfl)).imp_left hsome
  -- What is due was due before, since no token is of the new `sid`.
  · intro k x hx f k' e he hsid
    right
    have he' : UsableEntry s f k' e := he.before rfl le_rfl
    intro key' t hn hlt
    rw [hback (h.tokens f k' e he').1] at hn
    exact h.due_of_resting hone hrest hx he' hsid key' t hn hlt
  · intro m' hm
    rcases Multiset.mem_add.mp hm with hm | hm
    · rw [Multiset.mem_singleton] at hm
      cases hm
      intro f k e he hsid
      have hs := (h.tokens f k e (he.before rfl le_rfl)).1
      rw [hsid, hnone] at hs
      cases hs
    · exact absurd hm (hone _)

/-- A session is stored whose tokens are listed. -/
theorem Linked.storeSession {x : SsoSession} {ttl : Int}
    (h : Linked names ({.mode (.kept x.sid)} + R) s) (hone : ∀ m, .mode m ∉ R)
    (hname : names x.sid = some (x.id, x.createdAt)) :
    Linked names ({.mode (.kept x.sid)} + R)
      { s with ssoSessions := Ttl.set s.ssoSessions s.now x.id x ttl } where
  issued := h.issued
  past := h.past
  clock := h.clock
  facts := h.facts
  sessions k e he := by
    rcases put_eq_some he with ⟨rfl, rfl⟩ | ⟨_, he⟩
    · exact ⟨rfl, hname⟩
    · exact h.sessions k e he
  index := h.index
  codes := h.codes
  tokens f key e he := h.tokens f key e (he.before rfl le_rfl)
  -- The session that is saved is the one the call keeps, with its mode.
  due k e he f key w hw hsid := by
    have hw' : UsableEntry s f key w := hw.before rfl le_rfl
    rcases put_eq_some he with ⟨rfl, rfl⟩ | ⟨_, he⟩
    · exact .inr ((h.modes _ (mem_held _ _ _ (Multiset.mem_singleton_self _))) f key w hw' hsid)
    · exact h.due k e he f key w hw' hsid
  modes m hm := by
    rcases Multiset.mem_add.mp hm with hm | hm
    · rw [Multiset.mem_singleton] at hm
      cases hm
      exact fun f key e he hsid =>
        (h.modes _ (mem_held _ _ _ (Multiset.mem_singleton_self _))) f key e
          (he.before rfl le_rfl) hsid
    · exact absurd hm (hone _)

/-- The index gets the key of a named session. -/
theorem Linked.indexSession {sid key : String} {createdAt ttl : Int} (h : Linked names R s)
    (hname : names sid = some (key, createdAt)) :
    Linked names R { s with sidIndex := Ttl.set s.sidIndex s.now sid key ttl } where
  issued := h.issued
  past := h.past
  clock := h.clock
  facts := h.facts
  sessions := h.sessions
  index sid' e he := by
    rcases put_eq_some he with ⟨rfl, rfl⟩ | ⟨_, he⟩
    · exact ⟨createdAt, hname⟩
    · exact h.index sid' e he
  codes := h.codes
  tokens f key e he := h.tokens f key e (he.before rfl le_rfl)
  due k x hx f key e he := h.due k x hx f key e (he.before rfl le_rfl)
  modes m hm := (h.modes m hm).shrink le_rfl (fun _ _ he => he)
    (fun _ _ _ he => he.before rfl le_rfl) rfl

/-- A code is stored for a named session. -/
theorem Linked.storeCode {key : String} {ttl : Int} (h : Linked names R s) (grant : CodeGrant)
    (hname : (names grant.sid).isSome) :
    Linked names R { s with
      authorizationCodes := Ttl.set s.authorizationCodes s.now key (.unused grant) ttl } where
  issued := h.issued
  past := h.past
  clock := h.clock
  facts := h.facts
  sessions := h.sessions
  index := h.index
  -- Only the new code could be of a `sid` without a name.
  codes k e grant' he hg := by
    rcases put_eq_some he with ⟨rfl, rfl⟩ | ⟨_, he⟩
    · cases hg
      exact hname
    · exact h.codes k e grant' he hg
  tokens f key e he := h.tokens f key e (he.before rfl le_rfl)
  due k x hx f key e he := h.due k x hx f key e (he.before rfl le_rfl)
  modes m hm := (h.modes m hm).shrink le_rfl (fun _ _ he => he)
    (fun _ _ _ he => he.before rfl le_rfl) rfl

/-- The first token of a family is stored. -/
theorem Linked.storeToken {key : String} {v : RefreshToken}
    (h : Linked names ({.mode m} + R) s) (hone : ∀ m, .mode m ∉ R) (hrest : m.resting)
    (hname : (names v.sid).isSome) (hplain : ':' ∉ v.familyId.toList) :
    Linked names ({.mode (.creating v)} + R) { s with
      refreshTokens := Ttl.set s.refreshTokens s.now key v refreshTokenTtl } where
  issued := h.issued
  past := h.past
  clock t ht := h.clock t (mem_frame _ ((Multiset.mem_add.mp ht).resolve_left (by simp)))
  facts sid key t ht :=
    h.facts sid key t (mem_frame _ ((Multiset.mem_add.mp ht).resolve_left (by simp)))
  sessions := h.sessions
  index := h.index
  codes := h.codes
  tokens f k e he := by
    rcases usableEntry_store he with he | ⟨rfl, _, hv⟩
    · exact h.tokens f k e he
    · rw [hv]
      exact ⟨hname, hplain⟩
  -- The new token is excused until its family is listed.
  due k x hx f k' e he hsid := by
    rcases usableEntry_store he with he | ⟨_, _, hv⟩
    · exact .inr ((h.due_of_resting hone hrest hx he hsid).mono le_rfl rfl)
    · exact .inl (mem_held _ _ _ (hv ▸ Multiset.mem_singleton_self _))
  modes m' hm := by
    rcases Multiset.mem_add.mp hm with hm | hm
    · rw [Multiset.mem_singleton] at hm
      cases hm
      trivial
    · exact absurd hm (hone _)

/-- The successor of a token that was taken out is stored. -/
theorem Linked.storeSuccessor {key : String} {v w : RefreshToken}
    (h : Linked names ({.mode (.holding v)} + R) s) (hone : ∀ m, .mode m ∉ R)
    (hsid : w.sid = v.sid) (href : w.familyRef = v.familyRef) :
    Linked names ({.mode (.holding v)} + R) { s with
      refreshTokens := Ttl.set s.refreshTokens s.now key w refreshTokenTtl } := by
  rcases h.modes _ (mem_held _ _ _ (Multiset.mem_singleton_self _)) with ⟨hname, hplain, hdue⟩
  have hfamily : w.familyId = v.familyId := congrArg RefreshFamilyRef.familyId href
  constructor
  · exact h.issued
  · exact h.past
  · exact h.clock
  · exact h.facts
  · exact h.sessions
  · exact h.index
  · exact h.codes
  -- The successor has the `sid` and the family of its predecessor.
  · intro f k e he
    rcases usableEntry_store he with he | ⟨rfl, _, hw⟩
    · exact h.tokens f k e he
    · rw [hw, hsid, hfamily]
      exact ⟨hname, hplain⟩
  -- So it is due where its predecessor was.
  · intro k x hx f k' e he hx'
    right
    rcases usableEntry_store he with he | ⟨_, _, hw⟩
    · exact (h.due_of_resting hone trivial hx he hx').mono le_rfl rfl
    · rw [hw] at hx' ⊢
      exact ((hdue k x hx (hx'.symm.trans hsid)).successor hsid href).mono le_rfl rfl
  · intro m' hm
    rcases Multiset.mem_add.mp hm with hm | hm
    · rw [Multiset.mem_singleton] at hm
      cases hm
      exact ⟨hname, hplain, fun k e he hk => (hdue k e he hk).mono le_rfl rfl⟩
    · exact absurd hm (hone _)

/-- The first token of a family is put on the list of its session. -/
theorem Linked.list {v : RefreshToken} (h : Linked names ({.mode (.creating v)} + R) s)
    (hone : ∀ m, .mode m ∉ R) :
    Linked names ({.mode .free} + R) (s.addRef v.sid (encodeFamilyRef v.familyRef)) where
  issued := h.issued
  past := h.past
  clock t ht := h.clock t (mem_frame _ ((Multiset.mem_add.mp ht).resolve_left (by simp)))
  facts sid key t ht :=
    h.facts sid key t (mem_frame _ ((Multiset.mem_add.mp ht).resolve_left (by simp)))
  sessions := h.sessions
  index := h.index
  codes := h.codes
  tokens f key e he := h.tokens f key e (he.before rfl le_rfl)
  -- The family is listed now, so its token needs no excuse.
  due k x hx f key e he hsid := by
    right
    rcases h.due k x hx f key e (he.before rfl le_rfl) hsid with hc | hdue
    · rcases Multiset.mem_add.mp hc with hc | hc
      · rw [Multiset.mem_singleton] at hc
        cases hc
        exact due_addRef h.past
      · exact absurd hc (hone _)
    · exact hdue.addRef h.past
  modes m' hm := by
    rcases Multiset.mem_add.mp hm with hm | hm
    · rw [Multiset.mem_singleton] at hm
      cases hm
      trivial
    · exact absurd hm (hone _)

/-- The list of a session that is not stored is deleted. -/
theorem Linked.forget {sid : String} (h : Linked names ({.mode (.gone sid)} + R) s)
    (hone : ∀ m, .mode m ∉ R) :
    Linked names ({.mode (.gone sid)} + R)
      { s with sidRefreshFamilies := Ttl.delete s.sidRefreshFamilies sid } := by
  have hgone := h.modes _ (mem_held _ _ _ (Multiset.mem_singleton_self _))
  constructor
  · exact h.issued
  · exact h.past
  · exact h.clock
  · exact h.facts
  · exact h.sessions
  · exact h.index
  · exact h.codes
  · exact fun f key e he => h.tokens f key e (he.before rfl le_rfl)
  -- The list that goes belonged to no session any more.
  · intro k x hx f key e he hsid
    right
    refine (h.due_of_resting hone trivial hx (he.before rfl le_rfl) hsid).mono le_rfl ?_
    exact delete_of_ne _ fun heq => hgone k x hx (hsid.symm.trans heq)
  · intro m' hm
    rcases Multiset.mem_add.mp hm with hm | hm
    · rw [Multiset.mem_singleton] at hm
      cases hm
      exact hgone
    · exact absurd hm (hone _)

/-- A session that is stored may be stored again. -/
theorem Linked.ok_kept {k : String} {x : Entry SsoSession}
    (h : Linked names ({.mode m} + R) s) (hone : ∀ m, .mode m ∉ R) (hrest : m.resting)
    (hx : s.ssoSessions k = some x) : (Mode.kept x.value.sid).Ok names s :=
  fun _ _ _ he hsid => h.due_of_resting hone hrest hx he hsid

/-- A session is not stored once its key is empty. -/
theorem Linked.ok_gone {sid key : String} {createdAt : Int} (h : Linked names R s)
    (hname : names sid = some (key, createdAt)) (hempty : s.ssoSessions key = none) :
    (Mode.gone sid).Ok names s := by
  rintro k e he rfl
  have heq := Option.some.inj ((h.sessions k e he).2.symm.trans hname)
  cases heq
  exact absurd (hempty.symm.trans he) nofun

/-- A token that can be used may be followed by another. -/
theorem Linked.ok_holding {f key : String} {e : Entry RefreshToken}
    (h : Linked names ({.mode m} + R) s) (hone : ∀ m, .mode m ∉ R) (hrest : m.resting)
    (he : UsableEntry s f key e) : (Mode.holding e.value).Ok names s := by
  rcases h.tokens f key e he with ⟨hname, hplain⟩
  exact ⟨hname, he.family ▸ hplain, fun k x hx hsid =>
    h.due_of_resting hone hrest hx he hsid.symm⟩

end Additions

end Sandbox.Auth
