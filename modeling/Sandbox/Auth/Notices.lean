import Mathlib.Algebra.BigOperators.Group.Multiset.Basic
import Sandbox.Auth.Footprint
import Sandbox.Interleave.Tokens

/-!
# Telling a Client

A client that is active and has a URI for it is told of a session by one
logout request to that URI, with a token that names the client and the
session. What a program has told a client of so far is what has come to the
outbox, and each call owns the part that it has sent.

## Main definitions

* `NoticeTo`: A logout request to a client.
* `toldOf`: The sessions a client is told of.
* `telling`: The protocol.

## Theorems

* `safe_notifyClient`: A client is told once.
* `safe_untold`: Programs that tell nobody.
* `sum_toldOf`: A client is told of all sessions or of none.
-/

namespace Sandbox.Auth

open Interleave

/-- A logout request as it is sent to a client at a time. -/
structure NoticeTo (deps : Deps) (client : OidcClient) (now : Int) (n : LogoutNotice) : Prop where
  active : client.status = .active
  uri : client.backchannelLogoutUri = some n.uri
  iss : n.token.iss = deps.issuer
  aud : n.token.aud = client.clientId
  sub : n.token.sub = n.token.sid
  iat : n.token.iat = now
  exp : n.token.exp = now + logoutTokenTtl

/-- A client that is told of sessions. -/
def Tellable (client : OidcClient) : Prop :=
  client.status = .active ∧ client.backchannelLogoutUri.isSome = true

instance (client : OidcClient) : Decidable (Tellable client) :=
  inferInstanceAs (Decidable (_ ∧ _))

/-- What a client is told of: the session, or nothing. -/
def toldOf (client : OidcClient) (sid : String) : Multiset String :=
  if Tellable client then {sid} else 0

/-- The requests that have been sent are to the client, about the sessions that
    are held. -/
structure Told (deps : Deps) (client : OidcClient) (s₀ : State) (r : Multiset String)
    (s : State) : Prop where
  now : s.now = s₀.now
  sent : ∃ notices, s.outbox = notices ++ s₀.outbox ∧
    (∀ n ∈ notices, NoticeTo deps client s₀.now n) ∧
    ((notices.map fun n => n.token.sid : List String) : Multiset String) = r

def telling (deps : Deps) (client : OidcClient) (s₀ : State) :
    Protocol (Multiset String) State Event AuthCall where
  guard := anyStep
  Inv r s _ := Told deps client s₀ r s

section Rules

variable {deps : Deps} {client : OidcClient} {s₀ s s' : State} {r : Multiset String}
  {c : AuthCall} {fs : List Field}

theorem told_start (s : State) : Told deps client s 0 s :=
  ⟨rfl, [], rfl, fun _ hn => absurd hn List.not_mem_nil, rfl⟩

theorem Told.changes (h : Told deps client s₀ r s) (hch : Changes fs s s') (hfs : .outbox ∉ fs) :
    Told deps client s₀ r s' where
  now := hch.now.trans h.now
  sent := by
    rw [show s'.outbox = s.outbox from hch.same .outbox hfs]
    exact h.sent

/-- Programs that send nothing tell nobody. -/
theorem safe_untold {α : Type} {p : AuthProg α} (hp : Touches fs p) (hfs : .outbox ∉ fs) :
    Safe (telling deps client s₀) c p r fun _ r' => r' = r :=
  safe_touches (P := telling deps client s₀)
    ⟨fun _ _ _ _ hch h => h.changes hch hfs, fun _ _ _ _ _ _ h => h⟩ hp r

/-- A request that is sent is one session more. -/
theorem Told.send {n : LogoutNotice} (h : Told deps client s₀ r s)
    (hn : NoticeTo deps client s₀.now n) :
    Told deps client s₀ ({n.token.sid} + r) { s with outbox := n :: s.outbox } where
  now := h.now
  sent := by
    rcases h.sent with ⟨notices, houtbox, hall, hsids⟩
    refine ⟨n :: notices, congrArg (n :: ·) houtbox, fun m hm => ?_, ?_⟩
    · rcases List.mem_cons.mp hm with rfl | hm
      · exact hn
      · exact hall m hm
    · rw [List.map_cons, ← Multiset.cons_coe, hsids, Multiset.singleton_add]

/-- The token names the client and the session. -/
theorem safe_issueLogoutToken (sid : String) :
    Safe (telling deps client s₀) c (issueLogoutToken deps client.clientId sid) 0 fun token r =>
      r = 0 ∧ ∃ jti, token =
        { iss := deps.issuer, aud := client.clientId, sub := sid, iat := s₀.now,
          exp := s₀.now + logoutTokenTtl, jti := jti, sid := sid } := by
  refine safe_seq (Q := fun now r => r = 0 ∧ now = s₀.now) ?_ ?_
  · refine safe_read fun F s _ h => ⟨0, h, rfl, ?_⟩
    have htold : Told deps client s₀ (0 + F) s := h
    exact htold.now
  · rintro _ _ ⟨rfl, rfl⟩
    refine safe_seq (safe_untold (touches_randomToken : Touches [] _) (by decide)) ?_
    rintro jti _ rfl
    exact safe_pure ⟨rfl, jti, rfl⟩

/-- A client is told of a session by one request, if it is to be told. -/
theorem safe_notifyClient (sid : String) :
    Safe (telling deps client s₀) c (notifyClient deps client sid) 0 fun _ r =>
      r = toldOf client sid := by
  unfold notifyClient
  split
  -- A client without a logout URI is told nothing.
  · next hnone =>
      refine safe_pure (if_neg fun htell : Tellable client => ?_).symm
      have hsome := htell.2
      rw [hnone] at hsome
      cases hsome
  · next uri huri =>
      by_cases hactive : client.status = .active
      -- An active one with a URI is told once, with this `sid`.
      · have htold : toldOf client sid = {sid} :=
          if_pos ⟨hactive, by rw [huri]; rfl⟩
        rw [if_neg (not_not.mpr hactive), htold]
        refine safe_seq (safe_issueLogoutToken sid) ?_
        rintro _ _ ⟨rfl, jti, rfl⟩
        refine safe_seq (Q := fun _ r => r = {sid}) ?_ fun _ _ hr => safe_pure hr
        refine safe_ask fun F s _ i b s' hinv hrun => ?_
        cases i <;> cases hrun
        have hF : Told deps client s₀ F s := by
          rw [← zero_add F]
          exact hinv
        have hnotice : NoticeTo deps client s₀.now ⟨uri, deps.issuer, client.clientId, sid, s₀.now,
            s₀.now + logoutTokenTtl, jti, sid⟩ := ⟨hactive, huri, rfl, rfl, rfl, rfl, rfl⟩
        exact ⟨{sid}, hF.send hnotice, rfl⟩
      · rw [if_pos hactive]
        exact safe_pure (if_neg fun htell : Tellable client => hactive htell.1).symm

/-- A client is told of all sessions, or of none. -/
theorem sum_toldOf (client : OidcClient) (sids : List String) :
    (sids.map (toldOf client)).sum = if Tellable client then (sids : Multiset String) else 0 := by
  unfold toldOf
  split
  · induction sids with
    | nil => rfl
    | cons sid sids ih =>
        rw [List.map_cons, List.sum_cons, ih, Multiset.singleton_add, Multiset.cons_coe]
  · rw [List.map_const', List.sum_replicate, nsmul_zero]

end Rules

end Sandbox.Auth
