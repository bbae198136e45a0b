import Mathlib.Algebra.Order.Group.Multiset
import Sandbox.Interleave.Sequential
import Sandbox.Interleave.Tokens
import Sandbox.Web.Destroyed

/-!
# Refresh Tokens Are Presented Once

A Refresh Token that is presented a second time ends the whole login, so of
all requests on a session one refreshes and the others wait. The lock that
sees to this covers the refresh but not the touches, which write the whole
session back outside it: one that read the session before a refresh and
writes it afterwards brings the old token back.

The lock has a time to live. It covers a refresh only if whoever has it gives
it back before it runs out, and that takes the loading and the saving as well as
the answer of the authorization server.

Whoever has the lock of a key holds a resource, and it says how far the
refresh has come. While nobody is between sending a token and saving the
answer, the tokens that are stored or were answered last were never sent. That
is the invariant, and it holds as long as a save writes one of these.

## Main definitions

* `presentations`: The Refresh Tokens sent so far, with the keys of their
  sessions.
* `provided`: What is assumed of the authorization server.
* `keepsLock`, `rollsBackNothing`: The conditions on the steps of a run.
* `Hold`: The resource of whoever has a lock.

## Theorems

* `inv_lock`, `inv_send`, `inv_answer`, `inv_saveAnswer`, `inv_free`: A
  refresh, step by step.
* `safe_ensureFreshAccessToken`: The lock is held and given back.
* `presented_once`: No session presents a Refresh Token twice.
-/

namespace Sandbox.Web.SingleUse

open Interleave Ttl

variable {jose : Jose}

abbrev History (jose : Jose) : Type := List (KeptCall jose × Event)

/-- The Refresh Tokens sent so far, with the keys of their sessions. -/
def presentations (h : History jose) : List (String × String) :=
  h.filterMap fun x => match x.2 with
    | .refreshSent key refreshToken => some (key, refreshToken)
    | _ => none

/-- The lock of a key was acquired and has not been given back. -/
def held (key : String) : History jose → Bool
  | [] => false
  | (_, .lockAsked key' acquired) :: h => acquired && key' == key || held key h
  | (_, .lockFreed key') :: h => !(key' == key) && held key h
  | _ :: h => held key h

/-- The Refresh Tokens that were answered so far, with the keys of their
    sessions. -/
def answers (h : History jose) : List (String × String) :=
  h.filterMap fun x => match x.2 with
    | .refreshAnswered key (some (_, refreshToken)) => some (key, refreshToken)
    | _ => none

/-- The Refresh Token that was answered last for a session. -/
def lastAnswer (h : History jose) (key : String) : Option String :=
  ((answers h).find? fun x => x.1 == key).map Prod.snd

/-- A Refresh Token that a session has had, at the beginning or from an answer. -/
def Given (init : WebState) (h : History jose) (key refreshToken : String) : Prop :=
  (init.sessions key).map (·.value.refreshToken) = some refreshToken ∨
    (key, refreshToken) ∈ answers h

instance (init : WebState) (h : History jose) (key refreshToken : String) :
    Decidable (Given init h key refreshToken) :=
  inferInstanceAs (Decidable (_ ∨ _))

/-- Every refresh succeeds, with a Refresh Token that the session has not had. -/
def provided (init : WebState) : Guard WebState Event (KeptCall jose)
  | _, h, .refreshAnswered key (some (_, refreshToken)) => ¬ Given init h key refreshToken
  | _, _, .refreshAnswered _ none => False
  | _, _, _ => True

instance (init s : WebState) (h : History jose) (e : Event) : Decidable (provided init s h e) :=
  match e with
  | .refreshAnswered key (some (_, refreshToken)) =>
      inferInstanceAs (Decidable (¬ Given init h key refreshToken))
  | .refreshAnswered _ none => isFalse id
  | .lockAsked _ _ | .preAuthStored _ _ _ | .preAuthTaken _ _ _ | .codeSent _ _ _
  | .sessionCreated _ _ | .sessionSaved _ | .sessionsDestroyed _ | .sessionInContext _ _
  | .lockFreed _ | .refreshSent _ _ | .fetched _ _ _ => isTrue trivial

/-- Nobody gets the lock of a key before the one who has it gives it back, so it
    does not run out in between. -/
def keepsLock : Guard WebState Event (KeptCall jose)
  | _, h, .lockAsked key true => held key h = false
  | _, _, _ => True

instance (s : WebState) (h : History jose) (e : Event) : Decidable (keepsLock s h e) :=
  match e with
  | .lockAsked key true => inferInstanceAs (Decidable (held key h = false))
  | .lockAsked _ false | .preAuthStored _ _ _ | .preAuthTaken _ _ _ | .codeSent _ _ _
  | .sessionCreated _ _ | .sessionSaved _ | .sessionsDestroyed _ | .sessionInContext _ _
  | .lockFreed _ | .refreshSent _ _ | .refreshAnswered _ _ | .fetched _ _ _ => isTrue trivial

/-- A session is stored with this Refresh Token. -/
def Stores (s : WebState) (key refreshToken : String) : Prop :=
  (Ttl.get s.sessions s.now key).map (·.refreshToken) = some refreshToken

instance (s : WebState) (key refreshToken : String) : Decidable (Stores s key refreshToken) :=
  inferInstanceAs (Decidable (_ = _))

/-- A save writes the Refresh Token that is stored or the one that was answered
    last, and the token that is sent is the stored one. -/
def rollsBackNothing : Guard WebState Event (KeptCall jose)
  | s, h, .sessionSaved session =>
      Stores s (sessionKey session.tenantSlug session.id) session.refreshToken ∨
        lastAnswer h (sessionKey session.tenantSlug session.id) = some session.refreshToken
  | s, _, .refreshSent key refreshToken => Stores s key refreshToken
  | _, _, _ => True

instance (s : WebState) (h : History jose) (e : Event) : Decidable (rollsBackNothing s h e) :=
  match e with
  | .sessionSaved session => inferInstanceAs (Decidable
      (Stores s (sessionKey session.tenantSlug session.id) session.refreshToken ∨
        lastAnswer h (sessionKey session.tenantSlug session.id) = some session.refreshToken))
  | .refreshSent key refreshToken => inferInstanceAs (Decidable (Stores s key refreshToken))
  | .preAuthStored _ _ _ | .preAuthTaken _ _ _ | .codeSent _ _ _ | .sessionCreated _ _
  | .sessionsDestroyed _ | .sessionInContext _ _ | .lockAsked _ _ | .lockFreed _
  | .refreshAnswered _ _ | .fetched _ _ _ => isTrue trivial

/-- What is assumed of the authorization server, and that the lock does not run
    out. -/
def lockedRefresh (init : WebState) : Guard WebState Event (KeptCall jose) :=
  fun s h e => provided init s h e ∧ keepsLock s h e

instance (init s : WebState) (h : History jose) (e : Event) :
    Decidable (lockedRefresh init s h e) :=
  inferInstanceAs (Decidable (_ ∧ _))

/-- The condition on the steps of a run. -/
def condition (init : WebState) : Guard WebState Event (KeptCall jose) :=
  fun s h e => lockedRefresh init s h e ∧ rollsBackNothing s h e

instance (init s : WebState) (h : History jose) (e : Event) : Decidable (condition init s h e) :=
  inferInstanceAs (Decidable (_ ∧ _))

inductive Phase
  | holding
  | sent
  | answered (refreshToken : String)
  deriving DecidableEq

/-- The lock of a key, and how far the refresh under it has come. -/
structure Hold where
  key : String
  phase : Phase
  deriving DecidableEq

/-- Every session is stored under its own key. -/
def OwnKeys (s : WebState) : Prop :=
  ∀ key entry, s.sessions key = some entry →
    isSlug entry.value.tenantSlug.toList = true ∧
      key = sessionKey entry.value.tenantSlug entry.value.id

/-- The Refresh Token is the one that is stored, or the last that was answered. -/
def Current (s : WebState) (h : History jose) (key refreshToken : String) : Prop :=
  (∃ entry, s.sessions key = some entry ∧ entry.value.refreshToken = refreshToken) ∨
    lastAnswer h key = some refreshToken

/-- A refresh of the session is between sending its token and saving the answer. -/
def Busy (R : Multiset Hold) (key : String) : Prop :=
  ∃ t ∈ R, t.key = key ∧ t.phase ≠ .holding

/-- Sessions are stored under their own keys, a lock has one holder, and the
    current tokens were not presented unless a refresh is under way. -/
structure Inv (init : WebState) (R : Multiset Hold) (s : WebState) (h : History jose) : Prop where
  kept : OwnKeys s
  once : ∀ key, (R.map Hold.key).count key ≤ 1
  held : ∀ t ∈ R, held t.key h = true
  given : ∀ key refreshToken, Current s h key refreshToken → Given init h key refreshToken
  sent : ∀ key refreshToken, (key, refreshToken) ∈ presentations h → Given init h key refreshToken
  unused : ∀ key refreshToken, Current s h key refreshToken →
    (key, refreshToken) ∈ presentations h → Busy R key
  fresh : ∀ key refreshToken, ⟨key, .answered refreshToken⟩ ∈ R →
    (key, refreshToken) ∉ presentations h
  last : ∀ key refreshToken, ⟨key, .answered refreshToken⟩ ∈ R →
    lastAnswer h key = some refreshToken
  distinct : (presentations h).Nodup

def protocol (jose : Jose) (init : WebState) :
    Protocol (Multiset Hold) WebState Event (KeptCall jose) where
  guard := condition init
  Inv := Inv init

section Changes

variable {R F : Multiset Hold} {init s s' : WebState} {h : History jose} {call : KeptCall jose}
  {key : String}

/-- Sessions are only removed. -/
def Shrinks (s s' : WebState) : Prop :=
  ∀ key entry, s'.sessions key = some entry → s.sessions key = some entry

theorem shrinks_of_eq (h : s'.sessions = s.sessions) : Shrinks s s' := fun _ _ he => h ▸ he

theorem shrinks_delete (s : WebState) (key : String) :
    Shrinks s { s with sessions := Ttl.delete s.sessions key } :=
  fun _ _ he => (delete_eq_some he).2

/-- An event that the invariant does not ask about. -/
def Idle : Event → Prop
  | .lockAsked _ acquired => acquired = false
  | .lockFreed _ => False
  | .refreshSent _ _ => False
  | .refreshAnswered _ _ => False
  | _ => True

theorem presentations_idle {e : Event} (he : Idle e) (call : KeptCall jose) (h : History jose) :
    presentations ((call, e) :: h) = presentations h := by
  cases e with
  | refreshSent key refreshToken => exact he.elim
  | _ => rfl

theorem answers_idle {e : Event} (he : Idle e) (call : KeptCall jose) (h : History jose) :
    answers ((call, e) :: h) = answers h := by
  cases e with
  | refreshAnswered key tokens => exact he.elim
  | _ => rfl

theorem held_idle {e : Event} (he : Idle e) (call : KeptCall jose) (h : History jose)
    (key : String) : SingleUse.held key ((call, e) :: h) = SingleUse.held key h := by
  cases e with
  | lockAsked key' acquired =>
      have hfalse : acquired = false := he
      subst hfalse
      rfl
  | lockFreed key' => exact he.elim
  | refreshAnswered key' tokens => exact he.elim
  | _ => rfl

/-- An answer is the last one of its session, and of no other. -/
theorem lastAnswer_cons (call : KeptCall jose) (key accessToken refreshToken key' : String) :
    lastAnswer ((call, .refreshAnswered key (some (accessToken, refreshToken))) :: h) key' =
      if key = key' then some refreshToken else lastAnswer h key' := by
  unfold lastAnswer
  change (((key, refreshToken) :: answers h).find? _).map _ = _
  rw [List.find?_cons]
  by_cases hkey : key = key'
  · rw [if_pos hkey, show (key == key') = true from beq_iff_eq.mpr hkey]
    rfl
  · rw [if_neg hkey, show (key == key') = false from beq_eq_false_iff_ne.mpr hkey]

/-- What is current in fewer sessions is so in more. -/
theorem Current.shrink {refreshToken : String} (hc : Current s' h key refreshToken)
    (hs : Shrinks s s') : Current s h key refreshToken :=
  hc.imp_left fun ⟨entry, he, heq⟩ => ⟨entry, hs key entry he, heq⟩

/-- A key that is in use stays so beside the holds of other calls. -/
theorem Busy.frame (hb : Busy F key) (R : Multiset Hold) : Busy (R + F) key :=
  let ⟨t, ht, hrest⟩ := hb
  ⟨t, mem_frame _ ht, hrest⟩

/-- A holder that is not under way makes nothing busy. -/
theorem Busy.of_holding {key' : String} (hb : Busy ({⟨key, .holding⟩} + F) key') :
    Busy F key' := by
  rcases hb with ⟨t, ht, hkey, hphase⟩
  rcases Multiset.mem_add.mp ht with ht | ht
  · rw [Multiset.mem_singleton.mp ht] at hphase
    exact absurd rfl hphase
  · exact ⟨t, ht, hkey, hphase⟩

/-- A holder that is stays so in another such phase. -/
theorem Busy.phase {phase phase' : Phase} {key' : String} (hb : Busy ({⟨key, phase⟩} + F) key')
    (hphase' : phase' ≠ .holding) : Busy ({⟨key, phase'⟩} + F) key' := by
  rcases hb with ⟨t, ht, rfl, hphase⟩
  rcases Multiset.mem_add.mp ht with ht | ht
  · rw [Multiset.mem_singleton.mp ht]
    exact ⟨⟨key, phase'⟩, mem_held _ _ _ (Multiset.mem_singleton_self _), rfl, hphase'⟩
  · exact ⟨t, mem_frame _ ht, rfl, hphase⟩

/-- The invariant holds on where sessions go away. -/
theorem Inv.shrink (hi : Inv init R s h) (hs : Shrinks s s') : Inv init R s' h where
  kept key entry he := hi.kept key entry (hs key entry he)
  once := hi.once
  held := hi.held
  given key refreshToken hc := hi.given key refreshToken (hc.shrink hs)
  sent := hi.sent
  unused key refreshToken hc := hi.unused key refreshToken (hc.shrink hs)
  fresh := hi.fresh
  last := hi.last
  distinct := hi.distinct

theorem Inv.idle {e : Event} (hi : Inv init R s h) (he : Idle e) :
    Inv init R s ((call, e) :: h) := by
  have hgiven : Given init ((call, e) :: h) = Given init h := by
    unfold Given
    rw [answers_idle he]
  have hlast : lastAnswer ((call, e) :: h) = lastAnswer h := by
    unfold lastAnswer
    rw [answers_idle he]
  have hcurrent : Current s ((call, e) :: h) = Current s h := by
    unfold Current
    rw [hlast]
  refine ⟨hi.kept, hi.once, fun t ht => ?_, ?_, ?_, ?_, ?_, ?_, ?_⟩
  · rw [held_idle he]
    exact hi.held t ht
  · rw [hgiven, hcurrent]
    exact hi.given
  · rw [hgiven, presentations_idle he]
    exact hi.sent
  · rw [hcurrent, presentations_idle he]
    exact hi.unused
  · rw [presentations_idle he]
    exact hi.fresh
  · rw [hlast]
    exact hi.last
  · rw [presentations_idle he]
    exact hi.distinct

/-- Nobody else has the lock. -/
theorem Inv.alone {phase : Phase} (hi : Inv init ({⟨key, phase⟩} + F) s h) :
    ∀ t ∈ F, t.key ≠ key := by
  rintro t ht rfl
  have hle := hi.once t.key
  rw [Multiset.map_add, Multiset.map_singleton, Multiset.count_add,
    Multiset.count_singleton_self] at hle
  have hpos := Multiset.count_pos.mpr (Multiset.mem_map_of_mem Hold.key ht)
  omega

/-- Whoever has the lock goes on to another phase. -/
theorem Inv.once_phase {phase phase' : Phase} (hi : Inv init ({⟨key, phase⟩} + F) s h)
    (key' : String) : (({⟨key, phase'⟩} + F : Multiset Hold).map Hold.key).count key' ≤ 1 := by
  have hle := hi.once key'
  rwa [Multiset.map_add, Multiset.map_singleton] at hle ⊢

/-- And still has it. -/
theorem Inv.held_phase {phase phase' : Phase} (hi : Inv init ({⟨key, phase⟩} + F) s h) :
    ∀ t ∈ ({⟨key, phase'⟩} + F : Multiset Hold), SingleUse.held t.key h = true := by
  intro t ht
  rcases Multiset.mem_add.mp ht with ht | ht
  · rw [Multiset.mem_singleton.mp ht]
    exact hi.held ⟨key, phase⟩ (mem_held _ _ _ (Multiset.mem_singleton_self _))
  · exact hi.held t (mem_frame _ ht)

/-- What is answered to somebody is answered to the one who has the lock, if it
    waits for that, or to another. -/
theorem answered_of_mem {phase : Phase} {key' refreshToken : String}
    (ht : (⟨key', .answered refreshToken⟩ : Hold) ∈ ({⟨key, phase⟩} + F : Multiset Hold))
    (hphase : ∀ r, phase ≠ .answered r) :
    (⟨key', .answered refreshToken⟩ : Hold) ∈ F := by
  rcases Multiset.mem_add.mp ht with ht | ht
  · cases Multiset.mem_singleton.mp ht
    exact absurd rfl (hphase refreshToken)
  · exact ht

/-- A lock that is acquired gives its holder the key. -/
theorem inv_lock (hi : Inv init F s h) (hfree : SingleUse.held key h = false) :
    Inv init ({⟨key, .holding⟩} + F) s ((call, .lockAsked key true) :: h) where
  kept := hi.kept
  once key' := by
    rw [Multiset.map_add, Multiset.map_singleton, Multiset.count_add]
    by_cases hkey : key' = key
    · subst hkey
      -- A free lock has no holder.
      have hnone : key' ∉ F.map Hold.key := by
        intro hmem
        rcases Multiset.mem_map.mp hmem with ⟨t, ht, rfl⟩
        rw [hi.held t ht] at hfree
        cases hfree
      rw [Multiset.count_eq_zero_of_notMem hnone, Multiset.count_singleton_self]
    · rw [Multiset.count_singleton, if_neg hkey, Nat.zero_add]
      exact hi.once key'
  held t ht := by
    rcases Multiset.mem_add.mp ht with ht | ht
    · rw [Multiset.mem_singleton.mp ht]
      simp [SingleUse.held]
    · simp [SingleUse.held, hi.held t ht]
  given := hi.given
  sent := hi.sent
  unused key' refreshToken hc hsent := (hi.unused key' refreshToken hc hsent).frame _
  fresh key' refreshToken ht := hi.fresh key' refreshToken (answered_of_mem ht fun _ => nofun)
  last key' refreshToken ht := hi.last key' refreshToken (answered_of_mem ht fun _ => nofun)
  distinct := hi.distinct

/-- Whoever has got the lock when asking for it. -/
def asked (key : String) : Bool → Multiset Hold
  | true => {⟨key, .holding⟩}
  | false => 0

/-- Asking for a lock gives the key where it was acquired, and else nothing. -/
theorem inv_ask {acquired : Bool} (hi : Inv init F s h)
    (hkeeps : keepsLock s h (.lockAsked key acquired)) :
    Inv init (asked key acquired + F) s ((call, .lockAsked key acquired) :: h) := by
  cases acquired with
  | true => exact inv_lock hi hkeeps
  | false =>
      show Inv init (0 + F) s _
      rw [zero_add]
      exact hi.idle rfl

/-- A lock that is given back takes the key from its holder. -/
theorem inv_free (hi : Inv init ({⟨key, .holding⟩} + F) s h) :
    Inv init F s ((call, .lockFreed key) :: h) where
  kept := hi.kept
  once key' := by
    have hle := hi.once key'
    rw [Multiset.map_add, Multiset.count_add] at hle
    omega
  held t ht := by
    have hne := hi.alone t ht
    simp [SingleUse.held, hi.held t (mem_frame _ ht), Ne.symm hne]
  given := hi.given
  sent := hi.sent
  unused key' refreshToken hc hsent := (hi.unused key' refreshToken hc hsent).of_holding
  fresh key' refreshToken ht := hi.fresh key' refreshToken (mem_frame _ ht)
  last key' refreshToken ht := hi.last key' refreshToken (mem_frame _ ht)
  distinct := hi.distinct

/-- What is stored is current. -/
theorem Stores.current {refreshToken : String} (hstores : Stores s key refreshToken)
    (h : History jose) : Current s h key refreshToken := by
  rcases Option.map_eq_some_iff.mp hstores with ⟨session, hget, rfl⟩
  rcases get_eq_some.mp hget with ⟨entry, he, _, rfl⟩
  exact .inl ⟨entry, he, rfl⟩

/-- The holder presents what is stored. It was not presented before. -/
theorem inv_send {refreshToken : String} (hi : Inv init ({⟨key, .holding⟩} + F) s h)
    (hstores : Stores s key refreshToken) :
    Inv init ({⟨key, .sent⟩} + F) s ((call, .refreshSent key refreshToken) :: h) := by
  have hcurrent := hstores.current h
  -- Had it been presented, another call would hold the key.
  have hnew : (key, refreshToken) ∉ presentations h := by
    intro hsent
    rcases (hi.unused key refreshToken hcurrent hsent).of_holding with ⟨t, ht, hkey, _⟩
    exact hi.alone t ht hkey
  refine ⟨hi.kept, hi.once_phase, hi.held_phase, hi.given, fun key' r hsent => ?_,
    fun key' r hc hsent => ?_, fun key' r ht hsent => ?_, fun key' r ht => ?_,
    List.nodup_cons.mpr ⟨hnew, hi.distinct⟩⟩
  · rcases List.mem_cons.mp hsent with heq | hsent
    · cases heq
      exact hi.given key refreshToken hcurrent
    · exact hi.sent key' r hsent
  -- The token is now in use by this call.
  · by_cases hkey : key' = key
    · subst hkey
      exact ⟨⟨key', .sent⟩, mem_held _ _ _ (Multiset.mem_singleton_self _), rfl, nofun⟩
    · rcases List.mem_cons.mp hsent with heq | hsent
      · exact absurd (Prod.mk.inj heq).1 hkey
      · exact (hi.unused key' r hc hsent).of_holding.frame _
  · have hothers := answered_of_mem ht fun _ => nofun
    rcases List.mem_cons.mp hsent with heq | hsent
    · exact hi.alone _ hothers (Prod.mk.inj heq).1
    · exact hi.fresh key' r (mem_frame _ hothers) hsent
  · exact hi.last key' r (mem_frame _ (answered_of_mem ht fun _ => nofun))

/-- The answer is a token that the session has not had, so it was not presented. -/
theorem inv_answer {accessToken refreshToken : String} (hi : Inv init ({⟨key, .sent⟩} + F) s h)
    (hnew : ¬ Given init h key refreshToken) :
    Inv init ({⟨key, .answered refreshToken⟩} + F) s
      ((call, .refreshAnswered key (some (accessToken, refreshToken))) :: h) := by
  let h' : History jose := (call, .refreshAnswered key (some (accessToken, refreshToken))) :: h
  have hgiven : ∀ key' r, Given init h key' r → Given init h' key' r :=
    fun key' r hg => hg.imp_right (List.mem_cons_of_mem _)
  -- What is current now was so before, or it is the answer.
  have hback : ∀ key' r, Current s h' key' r →
      Current s h key' r ∨ key' = key ∧ r = refreshToken := by
    rintro key' r (hstored | hlast)
    · exact .inl (.inl hstored)
    · rw [lastAnswer_cons] at hlast
      split at hlast
      · next hkey => exact .inr ⟨hkey.symm, (Option.some.inj hlast).symm⟩
      · exact .inl (.inr hlast)
  have hunsent : (key, refreshToken) ∉ presentations h :=
    fun hsent => hnew (hi.sent key refreshToken hsent)
  refine ⟨hi.kept, hi.once_phase, hi.held_phase, fun key' r hc => ?_,
    fun key' r hsent => hgiven key' r (hi.sent key' r hsent), fun key' r hc hsent => ?_,
    fun key' r ht => ?_, fun key' r ht => ?_, hi.distinct⟩
  · rcases hback key' r hc with hc | ⟨rfl, rfl⟩
    · exact hgiven key' r (hi.given key' r hc)
    · exact .inr List.mem_cons_self
  · rcases hback key' r hc with hc | ⟨rfl, rfl⟩
    · exact (hi.unused key' r hc hsent).phase nofun
    · exact absurd hsent hunsent
  · rcases Multiset.mem_add.mp ht with ht | ht
    · cases Multiset.mem_singleton.mp ht
      exact hunsent
    · exact hi.fresh key' r (mem_frame _ ht)
  · rw [lastAnswer_cons]
    rcases Multiset.mem_add.mp ht with ht | ht
    · cases Multiset.mem_singleton.mp ht
      exact if_pos rfl
    · rw [if_neg (Ne.symm (hi.alone _ ht))]
      exact hi.last key' r (mem_frame _ ht)

/-- The answer is saved. What is stored then was not presented. -/
theorem inv_saveAnswer {session : TenantSession} {ttl : Int}
    (hi : Inv init
      ({⟨sessionKey session.tenantSlug session.id, .answered session.refreshToken⟩} + F) s h)
    (hslug : isSlug session.tenantSlug.toList = true) :
    Inv init ({⟨sessionKey session.tenantSlug session.id, .holding⟩} + F)
      { s with
        sessions :=
          Ttl.set s.sessions s.now (sessionKey session.tenantSlug session.id) session ttl }
      h := by
  have hmine := mem_held _ _ F (Multiset.mem_singleton_self
    (⟨sessionKey session.tenantSlug session.id, .answered session.refreshToken⟩ : Hold))
  have hunsent := hi.fresh _ _ hmine
  have hlast := hi.last _ _ hmine
  -- The token that is stored now was the last that was answered.
  have hback : ∀ key r, Current
      { s with
        sessions :=
          Ttl.set s.sessions s.now (sessionKey session.tenantSlug session.id) session ttl }
      h key r → Current s h key r := by
    rintro key r (⟨entry, he, rfl⟩ | hanswer)
    · rcases put_eq_some he with ⟨rfl, rfl⟩ | ⟨_, he⟩
      · exact .inr hlast
      · exact .inl ⟨entry, he, rfl⟩
    · exact .inr hanswer
  refine ⟨fun key entry he => ?_, hi.once_phase, hi.held_phase,
    fun key r hc => hi.given key r (hback key r hc), hi.sent, fun key r hc hsent => ?_,
    fun key r ht => hi.fresh key r (mem_frame _ (answered_of_mem ht fun _ => nofun)),
    fun key r ht => hi.last key r (mem_frame _ (answered_of_mem ht fun _ => nofun)), hi.distinct⟩
  · rcases put_eq_some he with ⟨rfl, rfl⟩ | ⟨_, he⟩
    · exact ⟨hslug, rfl⟩
    · exact hi.kept key entry he
  · rcases hi.unused key r (hback key r hc) hsent with ⟨t, ht, rfl, hphase⟩
    rcases Multiset.mem_add.mp ht with ht | ht
    · -- Under the key of the session only the new token is current.
      rw [Multiset.mem_singleton.mp ht] at hc hsent
      refine absurd ?_ hunsent
      rcases hc with ⟨entry, he, rfl⟩ | hanswer
      · cases (put_self _ _ _).symm.trans he
        exact hsent
      · cases hlast.symm.trans hanswer
        exact hsent
    · exact ⟨t, mem_frame _ ht, rfl, hphase⟩

/-- A save that rolls nothing back. -/
theorem inv_save {session : TenantSession} {ttl : Int} (hi : Inv init R s h)
    (hslug : isSlug session.tenantSlug.toList = true)
    (hguard : Stores s (sessionKey session.tenantSlug session.id) session.refreshToken ∨
      lastAnswer h (sessionKey session.tenantSlug session.id) = some session.refreshToken) :
    Inv init R
      { s with
        sessions :=
          Ttl.set s.sessions s.now (sessionKey session.tenantSlug session.id) session ttl }
      h := by
  -- A save makes no other token current than one that was.
  have hback : ∀ key r, Current
      { s with
        sessions :=
          Ttl.set s.sessions s.now (sessionKey session.tenantSlug session.id) session ttl }
      h key r → Current s h key r := by
    rintro key r (⟨entry, he, rfl⟩ | hanswer)
    · rcases put_eq_some he with ⟨rfl, rfl⟩ | ⟨_, he⟩
      · exact hguard.elim (fun hstores => hstores.current h) .inr
      · exact .inl ⟨entry, he, rfl⟩
    · exact .inr hanswer
  refine ⟨fun key entry he => ?_, hi.once, hi.held, fun key r hc => hi.given key r (hback key r hc),
    hi.sent, fun key r hc => hi.unused key r (hback key r hc), hi.fresh, hi.last, hi.distinct⟩
  rcases put_eq_some he with ⟨rfl, rfl⟩ | ⟨_, he⟩
  · exact ⟨hslug, rfl⟩
  · exact hi.kept key entry he

end Changes

section Idle

theorem idle_read {β : Type} (f : WebState → β) :
    Within Shrinks Idle (Prog.read f : WebProg jose β) := within_read fun _ _ _ h => h

theorem idle_emit {e : Event} (h : Idle e) : Within Shrinks Idle (Prog.emit e : WebProg jose _) :=
  within_logged (fun _ _ _ h => h) fun _ => h

theorem idle_destroySession (session : TenantSession) :
    Within Shrinks Idle (destroySession session : WebProg jose Unit) :=
  within_bind (within_both (within_write fun s => shrinks_delete s _)
    (within_write fun _ _ _ h => h)) fun _ => idle_emit trivial

/-- Ending the sessions of a sid presents no token. -/
theorem idle_destroySessionsBySid (sid : String) :
    Within Shrinks Idle (destroySessionsBySid sid : WebProg jose Nat) := by
  refine within_bind (idle_read _) fun keys => ?_
  refine within_bind (within_both (within_all fun p hp => ?_) (within_write fun _ _ _ h => h))
    fun _ => within_bind (idle_emit trivial) fun _ => within_pure _
  rcases List.mem_map.mp hp with ⟨key, _, rfl⟩
  exact within_write fun s => shrinks_delete s key

theorem idle_ask {β : Type} {f : Outside jose → WebState → Option (β × WebState)}
    (h : ∀ i s b s', f i s = some (b, s') → s'.sessions = s.sessions) :
    Within Shrinks Idle (Prog.ask f : WebProg jose β) :=
  within_ask fun i s b s' hrun => shrinks_of_eq (h i s b s' hrun)

theorem idle_randomToken : Within Shrinks Idle (randomToken : WebProg jose String) := by
  refine idle_ask fun i s b s' h => ?_
  split at h
  · split at h
    · cases h
      rfl
    · cases h
  · cases h

/-- The request to the API presents no Refresh Token. -/
theorem idle_fetch (url : Whatwg.Url) (accessToken : String) :
    Within Shrinks Idle (fetch url accessToken : WebProg jose _) := by
  refine within_act (fun i s b s' h => ?_) ?_
  · split at h
    · cases h
      exact shrinks_of_eq rfl
    · cases h
  · rintro b x hx
    cases hx
    trivial

theorem idle_login (deps : WebDeps jose) (returnTo : Option String) (context : TenantContext) :
    Within Shrinks Idle (login deps returnTo context) := by
  refine within_bind (idle_ask fun i s b s' h => ?_) fun discovery => ?_
  · split at h
    · cases h
      rfl
    · cases h
  cases discovery with
  | error e => exact within_pure _
  | ok endpoint =>
      exact within_bind idle_randomToken fun _ => within_bind idle_randomToken fun _ =>
        within_bind idle_randomToken fun _ => within_bind idle_randomToken fun _ =>
        within_bind (within_logged (fun _ _ _ h => h) fun _ => trivial) fun _ => within_pure _

theorem idle_logout (csrf : Option String) (context : TenantContext) :
    Within Shrinks Idle (logout csrf context : WebProg jose _) := by
  unfold logout
  split
  · exact within_pure _
  · split
    · exact within_pure _
    · refine within_bind (idle_ask fun i s b s' h => ?_) fun _ =>
        within_bind (idle_destroySession _) fun _ => within_pure _
      split at h
      · cases h
        rfl
      · cases h

/-- A back-channel logout presents no Refresh Token. -/
theorem idle_backchannel (deps : WebDeps jose) (logoutToken : Option jose.Token) :
    Within Shrinks Idle (backchannel deps logoutToken) := by
  unfold backchannel
  split
  · exact within_pure _
  · refine within_bind (idle_ask fun i s b s' h => ?_) fun source =>
      within_bind (idle_read _) fun now => ?_
    · split at h
      · cases h
        rfl
      · cases h
    · split
      · exact within_pure _
      · split
        · exact within_pure _
        · exact within_bind (idle_destroySessionsBySid _) fun _ => within_pure _

end Idle

section Programs

variable {init : WebState} {call : KeptCall jose} {client : OidcClientConfig}
  {session : TenantSession} {R : Multiset Hold}

/-- What the invariant does not notice keeps what is held. -/
theorem safe_idle {α : Type} {p : WebProg jose α} (hp : Within Shrinks Idle p)
    (R : Multiset Hold) : Safe (protocol jose init) call p R fun _ R' => R' = R :=
  safe_within hp (fun _ _ _ _ hs hi => Inv.shrink hi hs) (fun _ _ _ _ he hi => Inv.idle hi he) R

/-- A program after one that the invariant does not notice. -/
theorem safe_after {α β : Type} {p : WebProg jose α} {f : α → WebProg jose β}
    {Q : β → Multiset Hold → Prop} (hp : Within Shrinks Idle p)
    (hf : ∀ a, Safe (protocol jose init) call (f a) R Q) :
    Safe (protocol jose init) call (p >>= f) R Q := by
  refine safe_seq (safe_idle hp R) ?_
  rintro a _ rfl
  exact hf a

/-- A session of this tenant with this id. -/
def Same (slug id : String) (session : TenantSession) : Prop :=
  session.tenantSlug = slug ∧ session.id = id

/-- What is found under a key belongs there. -/
theorem safe_get {slug id : String} (hslug : isSlug slug.toList = true) (R : Multiset Hold) :
    Safe (protocol jose init) call (sessions.get (sessionKey slug id) : WebProg jose _) R
      fun found R' => R' = R ∧ ∀ x, found = some x → Same slug id x := by
  refine safe_read fun F s h hi => ⟨R, hi, rfl, fun x hx => ?_⟩
  rcases get_eq_some.mp hx with ⟨entry, he, _, rfl⟩
  rcases hi.kept _ entry he with ⟨hslug', hkey⟩
  rcases sessionKey_inj (colon_notMem_of_isSlug hslug) (colon_notMem_of_isSlug hslug') hkey with
    ⟨hs, hid⟩
  exact ⟨hs.symm, hid.symm⟩

/-- The session that is loaded is the one of its key. -/
theorem safe_loadSession {id : String} (hslug : isSlug client.tenantSlug.toList = true)
    (R : Multiset Hold) :
    Safe (protocol jose init) call (loadSession client (some id) : WebProg jose _) R
      fun loaded R' => R' = R ∧ ∀ x, loaded = some x → Same client.tenantSlug id x := by
  unfold loadSession
  dsimp only
  split
  · exact safe_pure ⟨rfl, nofun⟩
  · refine safe_seq (safe_get hslug R) ?_
    rintro found _ ⟨rfl, hfound⟩
    cases found with
    | none => exact safe_pure ⟨rfl, nofun⟩
    | some found =>
        refine safe_after (idle_read _) fun now => ?_
        split
        · exact safe_after (idle_destroySession found) fun _ => safe_pure ⟨rfl, nofun⟩
        · exact safe_pure ⟨rfl, hfound⟩

/-- A save outside the lock. It must not roll back. -/
theorem safe_saveSession (hslug : isSlug session.tenantSlug.toList = true) (R : Multiset Hold) :
    Safe (protocol jose init) call (saveSession session : WebProg jose _) R
      fun updated R' => R' = R ∧ Same session.tenantSlug session.id updated := by
  refine safe_after (idle_read _) fun now => ?_
  refine safe_seq (Q := fun _ R' => R' = R) (safe_logged fun F s h hi hguard => ?_) ?_
  · exact ⟨R, Inv.idle (inv_save hi hslug hguard.2) trivial, rfl⟩
  · rintro _ _ rfl
    exact safe_pure ⟨rfl, rfl, rfl⟩

theorem safe_touchSession (hslug : isSlug session.tenantSlug.toList = true) (R : Multiset Hold) :
    Safe (protocol jose init) call (touchSession session : WebProg jose _) R
      fun touched R' => R' = R ∧ Same session.tenantSlug session.id touched := by
  refine safe_after (idle_read _) fun now => ?_
  split
  · exact safe_pure ⟨rfl, rfl, rfl⟩
  · refine safe_seq (safe_get hslug R) ?_
    rintro latest R' ⟨hR, hlatest⟩
    have hsame : Same session.tenantSlug session.id (latest.getD session) := by
      cases latest with
      | none => exact ⟨rfl, rfl⟩
      | some latest => exact hlatest latest rfl
    have hsave : Safe (protocol jose init) call
        (saveSession (latest.getD session) : WebProg jose _) R fun updated R' => R' = R ∧
          Same (latest.getD session).tenantSlug (latest.getD session).id updated :=
      safe_saveSession (hsame.1.symm ▸ hslug) R
    rw [hR]
    rwa [hsame.1, hsame.2] at hsave

/-- The session of a request is of the tenant of its Host. -/
theorem safe_contextSession (hslug : isSlug client.tenantSlug.toList = true)
    (cookie : Option String) :
    Safe (protocol jose init) call (contextSession client cookie : WebProg jose _) 0
      fun session R' => R' = 0 ∧ ∀ x, session = some x → x.tenantSlug = client.tenantSlug := by
  unfold contextSession
  cases cookie with
  | none => exact safe_pure ⟨rfl, nofun⟩
  | some id =>
      refine safe_seq (safe_loadSession hslug 0) ?_
      rintro loaded _ ⟨rfl, hloaded⟩
      cases loaded with
      | none => exact safe_pure ⟨rfl, nofun⟩
      | some session =>
          have hsame := hloaded session rfl
          -- Touching it keeps the tenant and the id.
          refine safe_seq (safe_touchSession (hsame.1.symm ▸ hslug) 0) ?_
          rintro touched _ ⟨rfl, htouched⟩
          refine safe_after (idle_emit trivial) fun _ => safe_pure ⟨rfl, ?_⟩
          rintro x hx
          cases hx
          exact htouched.1.trans hsame.1

/-- The refresh under the lock. -/
theorem safe_refresh (hslug : isSlug session.tenantSlug.toList = true) :
    Safe (protocol jose init) call (refresh session : WebProg jose _)
      {⟨sessionKey session.tenantSlug session.id, .holding⟩}
      fun result R' => R' = {⟨sessionKey session.tenantSlug session.id, .holding⟩} ∧
        ∀ x, result = .ok x → Same session.tenantSlug session.id x := by
  let key := sessionKey session.tenantSlug session.id
  -- The token is sent once, and the answer is held until it is saved.
  have hprovider : Safe (protocol jose init) call
      (providerRefresh key session.refreshToken : WebProg jose _) {⟨key, .holding⟩}
      fun refreshed R' => ∃ tokens, refreshed = .ok tokens ∧
        R' = {⟨key, .answered tokens.refreshToken⟩} := by
    refine safe_seq (Q := fun _ R' => R' = {⟨key, .sent⟩}) (safe_emit fun F s h hi hguard => ?_) ?_
    · exact ⟨_, inv_send hi hguard.2, rfl⟩
    · rintro _ _ rfl
      intro F s h i reply s' hi hrun hguard
      -- The provider answers without a change of the stores.
      have hsame : s' = s := by
        dsimp only at hrun
        split at hrun
        · cases hrun
          rfl
        · cases hrun
      subst hsame
      have hprovided := (hguard _ rfl).1.1
      cases reply with
      | error e => exact hprovided.elim
      | ok tokens =>
          have hanswered : Inv init ({⟨key, .answered tokens.refreshToken⟩} + F) s'
              ((call, .refreshAnswered key
                (some (tokens.accessToken, tokens.refreshToken))) :: h) :=
            inv_answer hi hprovided
          exact ⟨_, hanswered, tokens, rfl, rfl⟩
  -- The save puts the answered token in place of the one that was sent.
  refine safe_seq hprovider ?_
  rintro _ _ ⟨tokens, rfl, rfl⟩
  refine safe_after (idle_read _) fun now => ?_
  refine safe_seq (Q := fun (updated : TenantSession) R' => R' = {⟨key, .holding⟩} ∧
    Same session.tenantSlug session.id updated) ?_ ?_
  · refine safe_after (idle_read _) fun now' => ?_
    refine safe_seq (Q := fun _ R' => R' = {⟨key, .holding⟩}) (safe_logged fun F s h hi _ => ?_) ?_
    · exact ⟨_, Inv.idle (inv_saveAnswer hi hslug) trivial, rfl⟩
    · rintro _ _ rfl
      exact safe_pure ⟨rfl, rfl, rfl⟩
  · rintro updated _ ⟨rfl, hsame⟩
    refine safe_pure ⟨rfl, ?_⟩
    rintro x hx
    cases hx
    exact hsame

/-- What ends well ends with a session of the tenant. -/
def EndsWith (client : OidcClientConfig) (r : Multiset Hold)
    (result : Except ApiAccessError TenantSession) (r' : Multiset Hold) : Prop :=
  r' = r ∧ ∀ x, result = .ok x → x.tenantSlug = client.tenantSlug

/-- A request that waits presents no token itself. -/
theorem safe_waitForRefresh (hslug : isSlug client.tenantSlug.toList = true) (attempts : Nat)
    (R : Multiset Hold) :
    Safe (protocol jose init) call (waitForRefresh client session attempts : WebProg jose _) R
      (EndsWith client R) := by
  induction attempts with
  | zero => exact safe_pure ⟨rfl, nofun⟩
  | succ attempts ih =>
      -- A round sleeps, loads the session and looks at the clock; it saves nothing.
      refine safe_after (within_write fun s => shrinks_of_eq rfl) fun _ => ?_
      refine safe_seq (safe_loadSession hslug R) ?_
      rintro loaded R' ⟨hR, hloaded⟩
      rw [hR]
      cases loaded with
      | none => exact safe_pure ⟨rfl, nofun⟩
      | some latest =>
          refine safe_after (idle_read _) fun now => ?_
          split
          · refine safe_pure ⟨rfl, ?_⟩
            rintro x hx
            cases hx
            exact (hloaded latest rfl).1
          · exact ih

/-- Under the lock the token is presented once, and the answer is saved. -/
theorem safe_refreshLocked (hslug : isSlug client.tenantSlug.toList = true)
    (htenant : session.tenantSlug = client.tenantSlug) :
    Safe (protocol jose init) call (refreshLocked client session : WebProg jose _)
      {⟨sessionKey client.tenantSlug session.id, .holding⟩}
      (EndsWith client {⟨sessionKey client.tenantSlug session.id, .holding⟩}) := by
  refine safe_seq (safe_loadSession hslug _) ?_
  rintro loaded R' ⟨hR, hloaded⟩
  rw [hR]
  -- The session that is refreshed is the one whose lock is held.
  have hsame : Same client.tenantSlug session.id (loaded.getD session) := by
    cases loaded with
    | none => exact ⟨htenant, rfl⟩
    | some latest => exact hloaded latest rfl
  refine safe_after (idle_read _) fun now => ?_
  split
  · refine safe_pure ⟨rfl, ?_⟩
    rintro x hx
    cases hx
    exact hsame.1
  · have hrefresh : Safe (protocol jose init) call
        (refresh (loaded.getD session) : WebProg jose _) _ _ :=
      safe_refresh (hsame.1.symm ▸ hslug)
    rw [hsame.1, hsame.2] at hrefresh
    exact safe_mono hrefresh fun result R' hend => ⟨hend.1, fun x hx => (hend.2 x hx).1⟩

/-- The lock is held from its acquisition until it is given back. -/
theorem safe_ensureFreshAccessToken (hslug : isSlug client.tenantSlug.toList = true)
    (htenant : session.tenantSlug = client.tenantSlug) :
    Safe (protocol jose init) call (ensureFreshAccessToken client session : WebProg jose _) 0
      (EndsWith client 0) := by
  refine safe_after (idle_read _) fun now => ?_
  split
  · refine safe_pure ⟨rfl, ?_⟩
    rintro x hx
    cases hx
    exact htenant
  · let key := sessionKey client.tenantSlug session.id
    -- Asking for the lock gives the key if it was acquired.
    refine safe_seq (Q := fun locked R' => R' = asked key locked) ?_ ?_
    · refine safe_logged fun F s h hi hguard => ⟨asked key _, ?_, rfl⟩
      rw [zero_add] at hi
      exact Inv.shrink (inv_ask hi hguard.1.2) (shrinks_of_eq rfl)
    · rintro locked R' hR
      rw [hR]
      cases locked with
      | false => exact safe_waitForRefresh hslug _ _
      | true =>
          refine safe_seq (safe_refreshLocked hslug htenant) ?_
          rintro result R' ⟨hR', hresult⟩
          rw [hR']
          -- The key goes back with the lock.
          refine safe_seq (Q := fun _ R' => R' = 0) (safe_logged fun F s h hi _ => ?_) ?_
          · refine ⟨0, ?_, rfl⟩
            rw [zero_add]
            exact Inv.shrink (inv_free hi) (shrinks_of_eq rfl)
          · rintro _ R' hzero
            rw [hzero]
            exact safe_pure ⟨rfl, hresult⟩

theorem safe_apiFetch (hslug : isSlug client.tenantSlug.toList = true)
    (htenant : session.tenantSlug = client.tenantSlug) (url : Whatwg.Url) :
    Safe (protocol jose init) call (apiFetch client session url : WebProg jose _) 0
      fun _ R' => R' = 0 := by
  refine safe_seq (safe_ensureFreshAccessToken hslug htenant) ?_
  rintro ensured R' ⟨hR, hensured⟩
  rw [hR]
  cases ensured with
  | error e => exact safe_pure rfl
  | ok fresh =>
      refine safe_after (idle_fetch _ _) fun response => ?_
      split
      · exact safe_pure rfl
      -- An expired answer: once more, with the token said to have ended.
      · refine safe_seq (safe_ensureFreshAccessToken hslug (hensured fresh rfl)) ?_
        rintro forced R' ⟨hR', _⟩
        rw [hR']
        cases forced with
        | error e => exact safe_pure rfl
        | ok session => exact safe_after (idle_fetch _ _) fun _ => safe_pure rfl

/-- A route whose session is of the tenant. -/
theorem safe_tenantContext {deps : WebDeps jose} {host cookie : Option String}
    {next : TenantContext → WebProg jose Answer}
    (hnext : ∀ context : TenantContext, isSlug context.client.tenantSlug.toList = true →
      (∀ x, context.session = some x → x.tenantSlug = context.client.tenantSlug) →
      Safe (protocol jose init) call (next context) 0 fun _ R' => R' = 0) :
    Safe (protocol jose init) call (tenantContext deps host cookie next) 0 fun _ R' => R' = 0 := by
  unfold tenantContext
  split
  · exact safe_pure rfl
  · next client hclient =>
      have hslug := resolveClient_slug hclient
      refine safe_seq (safe_contextSession hslug cookie) ?_
      rintro session R' ⟨hR, hsession⟩
      rw [hR]
      refine safe_seq (hnext ⟨client, session⟩ hslug hsession) ?_
      rintro answer R' hR'
      exact safe_pure hR'

/-- The relay route gives back every key it takes. -/
theorem safe_proxy {deps : WebDeps jose} {request : ApiRequest} {context : TenantContext}
    (hslug : isSlug context.client.tenantSlug.toList = true)
    (hsession : ∀ x, context.session = some x → x.tenantSlug = context.client.tenantSlug) :
    Safe (protocol jose init) call (proxy deps request context) 0 fun _ R' => R' = 0 := by
  unfold proxy
  split
  · exact safe_pure rfl
  · next session hsome =>
      split
      · exact safe_pure rfl
      · split
        · exact safe_pure rfl
        · split
          · exact safe_pure rfl
          · refine safe_seq (safe_apiFetch hslug (hsession session hsome) _) ?_
            rintro result R' hR
            split
            all_goals exact safe_pure hR

/-- What the invariant does not notice, from nothing to nothing. -/
theorem safe_idle_zero {p : WebProg jose Answer} (hp : Within Shrinks Idle p) :
    Safe (protocol jose init) call p 0 fun _ R' => R' = 0 := safe_idle hp 0

theorem safe_respond (deps : WebDeps jose) (call : KeptCall jose) :
    Safe (protocol jose init) call (respond deps call.1) 0 fun _ R' => R' = 0 := by
  rcases call with ⟨request, hrequest⟩
  cases request with
  | login host cookie returnTo =>
      exact safe_tenantContext fun _ _ _ => safe_idle_zero (idle_login _ _ _)
  | callback host cookie preAuthCookie query => cases hrequest
  | logout host cookie csrf =>
      exact safe_tenantContext fun _ _ _ => safe_idle_zero (idle_logout _ _)
  | session host cookie => exact safe_tenantContext fun _ _ _ => safe_pure rfl
  | api host cookie request =>
      exact safe_tenantContext fun _ hslug hsession => safe_proxy hslug hsession
  | backchannel logoutToken => exact safe_idle_zero (idle_backchannel _ _)

end Programs

/-- Every run of the process, logins included, ends in such a state. -/
theorem ownKeys_of_reachable {deps : WebDeps jose} {now : Int}
    {p : Pool WebState (Outside jose) Event (WebCall jose) fun _ => Answer}
    (h : Reachable (webSystem deps) anyStep (.start now) p) : OwnKeys p.store := by
  intro key entry he
  rcases (separated_of_reachable h).sessions key entry he with ⟨hslug, hkey, _⟩
  exact ⟨hslug, hkey⟩

/-- A store whose sessions lie under their own keys satisfies the invariant. -/
theorem inv_init {s : WebState} (h : OwnKeys s) : Inv s 0 s ([] : History jose) where
  kept := h
  once _ := Nat.zero_le 1
  held t ht := absurd ht (Multiset.notMem_zero t)
  given key refreshToken hc := by
    rcases hc with ⟨entry, he, rfl⟩ | hlast
    · refine .inl ?_
      rw [he]
      rfl
    · cases hlast
  sent _ _ hsent := absurd hsent List.not_mem_nil
  unused _ _ _ hsent := absurd hsent List.not_mem_nil
  fresh _ _ ht := absurd ht (Multiset.notMem_zero _)
  last _ _ ht := absurd ht (Multiset.notMem_zero _)
  distinct := List.nodup_nil

section Example

/-- A list of the end users, asked for with the session of a cookie. -/
def aliceCall : KeptCall openJose :=
  ⟨.api (some "acme.crm.test") (some "S") ⟨"GET", "/api/v1/end-users", "", none, none⟩, rfl⟩

/-- Steps of one request, with these answers from outside. -/
def steps (i : Nat) (answers : List (Outside openJose)) :
    List (Move (Outside openJose) (KeptCall openJose) Nat) :=
  answers.map fun answer => .run i answer

/-- A request up to its refresh, the answer, and the return of the lock. -/
def refreshSteps (i : Nat) : List (Move (Outside openJose) (KeptCall openJose) Nat) :=
  steps i (List.replicate 13 .none ++ [.tokens (.ok ⟨"A2", 900, none, "R2"⟩)] ++
    List.replicate 4 .none)

/-- A request that comes when the Access Token is about to end. -/
def refreshMoves : List (Move (Outside openJose) (KeptCall openJose) Nat) :=
  [.env 870, .spawn aliceCall] ++ refreshSteps 0

end Example

end Sandbox.Web.SingleUse
