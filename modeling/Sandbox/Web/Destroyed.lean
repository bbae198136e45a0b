import Sandbox.Interleave.Knowledge
import Sandbox.Interleave.Sequential
import Sandbox.Web.Blocks
import Sandbox.Web.Retry
import Sandbox.Web.Tenants

/-!
# Destroyed Sessions

What is destroyed stays destroyed in every interleaving of all requests but
callbacks, if a session is only saved while it is stored. Touching and
refreshing do not see to that: they read a session and write it back some
steps later, and what a logout removes in between is stored again, without an
entry in the index of its `sid`.

If all saves meet the condition, no step makes a key of the store readable
that was not (`Sparing`), so that a key cannot be read is knowledge. A
program that destroys sessions has it when it completes.

## Main definitions

* `savesStored`: The condition on the steps of a run.
* `Sparing`: No key becomes readable.
* `keptSystem`: All requests but callbacks.

## Theorems

* `pieces_knows`: The routes follow the course.
* `destroyed_stays_gone`: A destroyed session is not loaded again.
-/

namespace Sandbox.Web

open Interleave Ttl

variable {jose : Jose}

/-- The requests that create no session. -/
abbrev KeptCall (jose : Jose) : Type := { call : WebCall jose // call.isCallback = false }

/-- All requests but callbacks, on sessions that were created before. -/
def keptSystem (deps : WebDeps jose) :
    System WebState (Outside jose) Event (KeptCall jose) Nat (fun _ => Answer) where
  body call := respond deps call.1
  env seconds s := some { s with now := s.now + seconds }

/-- A session is saved only while it is stored. -/
def savesStored : Guard WebState Event (KeptCall jose)
  | s, _, .sessionSaved session =>
      (Ttl.get s.sessions s.now (sessionKey session.tenantSlug session.id)).isSome = true
  | _, _, _ => True

instance (s : WebState) (h : List (KeptCall jose × Event)) (e : Event) :
    Decidable (savesStored s h e) :=
  match e with
  | .sessionSaved session => inferInstanceAs (Decidable
      ((Ttl.get s.sessions s.now (sessionKey session.tenantSlug session.id)).isSome = true))
  | .preAuthStored _ _ _ | .preAuthTaken _ _ _ | .codeSent _ _ _ | .sessionCreated _ _
  | .sessionsDestroyed _ | .sessionInContext _ _ | .lockAsked _ _ | .lockFreed _
  | .refreshSent _ _ | .refreshAnswered _ _ | .fetched _ _ _ => isTrue trivial

/-- Time does not run backwards, and no key becomes readable. -/
def Sparing (s s' : WebState) : Prop :=
  s.now ≤ s'.now ∧
    ∀ key, Ttl.get s.sessions s.now key = none → Ttl.get s'.sessions s'.now key = none

/-- What was destroyed cannot be read. -/
def destroyedCourse (jose : Jose) : Course WebState Event (KeptCall jose) where
  guard := savesStored
  Inv s h := ∀ call keys, (call, .sessionsDestroyed keys) ∈ h →
    ∀ key ∈ keys, Ttl.get s.sessions s.now key = none
  Leads s _ s' _ := Sparing s s'

/-- A key that cannot be read. -/
def absent (key : String) : Knowledge (destroyedCourse jose) where
  holds s _ := Ttl.get s.sessions s.now key = none
  stable _ _ _ _ hlead h := hlead.2 key h

section Steps

variable {s s' : WebState} {h : List (KeptCall jose × Event)} {call : KeptCall jose}
  {K : Knowledge (destroyedCourse jose)}

theorem sparing_refl (s : WebState) : Sparing s s := ⟨Int.le_refl _, fun _ h => h⟩

/-- Nothing comes back where the sessions are untouched. -/
theorem sparing_untouched (hs : Untouched s s') : Sparing s s' := by
  rcases hs with ⟨hnow, hsessions, _⟩
  refine ⟨Int.le_of_eq hnow.symm, fun key h => ?_⟩
  rw [hnow, hsessions]
  exact h

theorem sparing_later (s : WebState) (seconds : Nat) :
    Sparing s { s with now := s.now + seconds } := by
  have hle : s.now ≤ s.now + seconds := by omega
  exact ⟨hle, Ttl.sparing_later _ hle⟩

theorem sparing_delete (s : WebState) (key : String) :
    Sparing s { s with sessions := Ttl.delete s.sessions key } :=
  ⟨Int.le_refl _, Ttl.sparing_delete _ _ _⟩

/-- What can be read may be overwritten. -/
theorem sparing_set {key : String} (session : TenantSession) (ttl : Int)
    (hstored : (Ttl.get s.sessions s.now key).isSome = true) :
    Sparing s { s with sessions := Ttl.set s.sessions s.now key session ttl } :=
  ⟨Int.le_refl _, Ttl.sparing_set _ _ hstored⟩

/-- The invariant survives such steps and events about anything else. -/
theorem inv_sparing (hs : Sparing s s') (hi : (destroyedCourse jose).Inv s h) :
    (destroyedCourse jose).Inv s' h :=
  fun call keys hmem key hkey => hs.2 key (hi call keys hmem key hkey)

/-- The invariant holds on after an event that destroys nothing. -/
theorem inv_log {e : Event} (he : ∀ keys, e ≠ .sessionsDestroyed keys)
    (hi : (destroyedCourse jose).Inv s h) : (destroyedCourse jose).Inv s ((call, e) :: h) := by
  intro call' keys hmem
  rcases List.mem_cons.mp hmem with heq | hmem
  · exact absurd (Prod.mk.inj heq).2.symm (he keys)
  · exact hi call' keys hmem

/-- A program on other stores keeps what is known. -/
theorem knows_aside {α : Type} {p : WebProg jose α} (hp : Within Untouched Aside p)
    (K : Knowledge (destroyedCourse jose)) : Knows call K p fun _ => K := by
  refine knows_within hp ?_ ?_ K
  · exact fun s s' h hs hi => ⟨inv_sparing (sparing_untouched hs) hi, sparing_untouched hs⟩
  · intro s h e he hi
    refine ⟨inv_log ?_ hi, sparing_refl s⟩
    rintro keys rfl
    exact he.elim

/-- After a removal the key is known to be absent. -/
theorem knows_delete (key : String) :
    Knows call K (sessions.delete key : WebProg jose Unit) fun _ => absent key := by
  refine knows_write fun s h hi _ =>
      ⟨inv_sparing (sparing_delete s key) hi, sparing_delete s key, ?_⟩
  exact get_delete_self s.sessions s.now key

/-- The index of the sessions may change in any way. -/
theorem knows_index {f : WebState → WebState}
    (hf : ∀ s, (f s).now = s.now ∧ (f s).sessions = s.sessions) :
    Knows call K (Prog.write f : WebProg jose Unit) fun _ => 0 := by
  refine knows_write fun s h hi _ => ?_
  have hs : Sparing s (f s) := by
    refine ⟨Int.le_of_eq (hf s).1.symm, fun key hnone => ?_⟩
    rw [(hf s).1, (hf s).2]
    exact hnone
  exact ⟨inv_sparing hs hi, hs, trivial⟩

/-- The event of a destruction comes when the keys cannot be read. -/
theorem knows_destroyed {keys : List String}
    (hK : ∀ key ∈ keys, K.Gives (absent key)) :
    Knows call K (Prog.emit (.sessionsDestroyed keys) : WebProg jose Unit) fun _ => 0 := by
  refine knows_logged fun s h hi hk _ => ⟨?_, sparing_refl s, trivial⟩
  intro call' keys' hmem
  rcases List.mem_cons.mp hmem with heq | hmem
  · cases heq
    exact fun key hkey => hK key hkey s h hk
  · exact hi call' keys' hmem

/-- Destroying a session records a key that is absent. -/
theorem knows_destroySession (session : TenantSession) :
    Knows call (0 : Knowledge (destroyedCourse jose)) (destroySession session : WebProg jose Unit)
      fun _ => 0 := by
  refine knows_bind (knows_both (knows_delete _) (knows_index fun _ => ⟨rfl, rfl⟩)) fun _ => ?_
  refine knows_destroyed fun key hkey => ?_
  rcases List.mem_singleton.mp hkey with rfl
  exact Knowledge.add_gives_left _ _

/-- Ending the sessions of a sid records keys that are absent. -/
theorem knows_destroySessionsBySid (sid : String) :
    Knows call (0 : Knowledge (destroyedCourse jose))
      (destroySessionsBySid sid : WebProg jose Nat) fun _ => 0 := by
  refine knows_bind (knows_aside (aside_read _) _) fun keys => ?_
  refine knows_bind (knows_both (knows_all fun key _ => knows_delete key)
    (knows_index fun _ => ⟨rfl, rfl⟩)) fun _ => ?_
  refine knows_bind (knows_destroyed fun key hkey => ?_) fun _ =>
    knows_pure (Knowledge.gives_refl _)
  exact fun s h hk => sum_gives hkey s h hk.1

/-- A save meets the condition. -/
theorem knows_save (session : TenantSession) (ttl : Int) :
    Knows call (0 : Knowledge (destroyedCourse jose))
      (sessions.setLogged (.sessionSaved session) (sessionKey session.tenantSlug session.id) session
        ttl : WebProg jose Unit) fun _ => 0 := by
  refine knows_logged fun s h hi _ hguard => ?_
  have hs := sparing_set session ttl hguard
  exact ⟨inv_log (fun keys heq => nomatch heq) (inv_sparing hs hi), hs, trivial⟩

theorem pieces_knows (call : KeptCall jose) :
    Pieces fun _ (p : WebProg jose _) =>
      Knows call (0 : Knowledge (destroyedCourse jose)) p fun _ => 0 where
  closed := closed_knows _ _
  aside hp := knows_aside hp 0
  save := knows_save
  destroy := knows_destroySession
  destroyBySid := knows_destroySessionsBySid

end Steps

/-- What cannot be read is not loaded. -/
theorem exec_loadSession_none {s s' : WebState} {es : List Event} {client : OidcClientConfig}
    {id : String} {loaded : Option TenantSession}
    (hnone : Ttl.get s.sessions s.now (sessionKey client.tenantSlug id) = none)
    (h : Exec s (loadSession client (some id) : WebProg jose _) es loaded s') : loaded = none := by
  unfold loadSession at h
  dsimp only at h
  split at h
  · exact (exec_done h).2.1
  · rcases exec_bind h with ⟨found, s₁, _, _, hget, hrest, _⟩
    rcases exec_read hget with ⟨_, rfl, rfl⟩
    have hread : Ttl.get (sessions.entries s₁) (sessions.now s₁)
        (sessionKey client.tenantSlug id) = none := hnone
    simp only [hread] at hrest
    exact (exec_done hrest).2.1

/-- Once a session is destroyed, alone or with all sessions of its `sid`, it
    is not loaded again, in every run in which sessions are saved only while
    they are stored. -/
theorem destroyed_stays_gone (deps : WebDeps jose) (init : WebState)
    (p : Pool WebState (Outside jose) Event (KeptCall jose) fun _ => Answer)
    (h : Reachable (keptSystem deps) savesStored init p) (call : KeptCall jose)
    (keys : List String) (hmem : (call, .sessionsDestroyed keys) ∈ p.trace)
    (client : OidcClientConfig) (id : String) (hkey : sessionKey client.tenantSlug id ∈ keys) :
    ∀ es loaded s', Exec p.store (loadSession client (some id) : WebProg jose _) es loaded s' →
      loaded = none := by
  have hinv : (destroyedCourse jose).Inv p.store p.trace := by
    refine inv_of_reachable (C := destroyedCourse jose)
      (fun call => (pieces_knows call).respond deps call.1 call.2) ?_ ?_ h
    · rintro s hist seconds s' henv hi
      cases henv
      exact ⟨inv_sparing (sparing_later s seconds) hi, sparing_later s seconds⟩
    · exact fun _ _ hnil => absurd hnil List.not_mem_nil
  intro es loaded s' hexec
  exact exec_loadSession_none (hinv call keys hmem _ hkey) hexec

section Example

/-- A request that uses the session of a cookie. -/
def aliceRequest : KeptCall openJose :=
  ⟨.session (some "acme.crm.test") (some "S"), rfl⟩

def aliceLogout : KeptCall openJose :=
  ⟨.logout (some "acme.crm.test") (some "S") (some "C"), rfl⟩

/-- A logout and nothing else. -/
def logoutMoves : List (Move (Outside openJose) (KeptCall openJose) Nat) :=
  [.spawn aliceLogout, .run 0 .none, .run 0 .none, .run 0 .none, .run 0 .none,
    .run 0 (.revoked (.ok ())), .run 0 .none, .run 0 .none, .run 0 .none, .run 0 .none]

/-- A logout between the two halves of a touch. -/
def overlappingMoves : List (Move (Outside openJose) (KeptCall openJose) Nat) :=
  [.env 100, .spawn aliceRequest, .spawn aliceLogout,
    .run 0 .none, .run 0 .none, .run 0 .none, .run 0 .none,
    .run 1 .none, .run 1 .none, .run 1 .none, .run 1 .none, .run 1 .none, .run 1 .none,
    .run 1 .none, .run 1 (.revoked (.ok ())),
    .run 1 .none, .run 1 .none, .run 1 .none, .run 1 .none,
    .run 0 .none, .run 0 .none]

/-- The keys of all destructions so far. -/
def destroyedKeys (h : List (KeptCall openJose × Event)) : List String :=
  h.flatMap fun x => match x.2 with
    | .sessionsDestroyed keys => keys
    | _ => []

theorem mem_destroyedKeys {h : List (KeptCall openJose × Event)} {key : String}
    (hmem : key ∈ destroyedKeys h) :
    ∃ call keys, (call, .sessionsDestroyed keys) ∈ h ∧ key ∈ keys := by
  rcases List.mem_flatMap.mp hmem with ⟨⟨call, e⟩, he, hkey⟩
  cases e with
  | sessionsDestroyed keys => exact ⟨call, keys, he, hkey⟩
  | _ => exact absurd hkey List.not_mem_nil

/-- After a logout alone, the session is gone. -/
theorem alice_stays_logged_out :
    ∃ p, Reachable (keptSystem crmWeb) savesStored loggedIn p ∧
      ∀ es loaded s', Exec p.store (loadSession acmeCrm (some "S") : WebProg openJose _) es loaded
        s' → loaded = none := by
  rcases reachable_of_play_any (keptSystem crmWeb) savesStored loggedIn logoutMoves
    (fun p => decide (sessionKey "acme" "S" ∈ destroyedKeys p.trace)) (by decide +kernel) with
    ⟨p, hp, htest⟩
  rcases mem_destroyedKeys (of_decide_eq_true htest) with ⟨call, keys, hmem, hkey⟩
  exact ⟨p, hp, destroyed_stays_gone crmWeb loggedIn p hp call keys hmem acmeCrm "S" hkey⟩

/-- A logout that overlaps with a touch is undone by it. -/
theorem logged_out_session_comes_back :
    ∃ p call keys session es s', Reachable (keptSystem crmWeb) anyStep loggedIn p ∧
      (call, .sessionsDestroyed keys) ∈ p.trace ∧ sessionKey "acme" "S" ∈ keys ∧
      Exec p.store (loadSession acmeCrm (some "S") : WebProg openJose _) es (some session) s' := by
  rcases reachable_of_play_any (keptSystem crmWeb) anyStep loggedIn overlappingMoves
    (fun p => decide (sessionKey "acme" "S" ∈ destroyedKeys p.trace) &&
      (Prog.runAlone .none 4 [] p.store
        (loadSession acmeCrm (some "S") : WebProg openJose _)).any fun r => r.2.1.isSome)
    (by decide +kernel) with ⟨p, hp, htest⟩
  rcases Bool.and_eq_true_iff.mp htest with ⟨hdestroyed, hload⟩
  rcases mem_destroyedKeys (of_decide_eq_true hdestroyed) with ⟨call, keys, hmem, hkey⟩
  rcases (Option.any_eq_true _ _).mp hload with ⟨⟨es, loaded, s'⟩, hrun, hsome⟩
  rcases Option.isSome_iff_exists.mp hsome with ⟨session, hsession⟩
  have hexec := exec_of_runAlone _ _ _ _ _ _ _ _ hrun
  rw [show loaded = some session from hsession] at hexec
  exact ⟨p, call, keys, session, es, s', hp, hmem, hkey, hexec⟩

end Example

end Sandbox.Web
