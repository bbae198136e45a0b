import Sandbox.Auth.TokenAnswers
import Sandbox.Auth.Uninvite

/-!
# Access After a Removal

After a member was removed, the service gets no tokens for that user and tenant
any more, until the membership is made again. Refresh tokens are of no use,
since a refresh looks at the membership.

A code is of use, since the code grant does not look there. But no new code is
issued, and a code lasts a minute. So the exception ends a minute after the
removal, and it is for codes that were there.

## Main definitions

* `KeepsOut`: The membership is not made again.
* `Out`: What holds as long as it is not.
* `GivesTokens`: An answer with tokens for the user and the tenant.
* `PresentsNone`, `condition`: No code that was on its way is presented.

## Theorems

* `Out.step`: Every step of a request preserves it.
* `Out.refresh`, `Out.exchange`: What a request gives then.
* `removed_member_stays_out`: No tokens after the removal but for such codes.
* `removal_cuts_at_once`: None at all without them.
-/

namespace Sandbox.Auth.AfterRemoval

open Interleave Ttl

/-- The membership is not made again, by a request or by the operator. -/
def KeepsOut (tenantId oidcClientId userId : String) :
    Happening Event AuthCall Change Answer → Prop
  | .call _ _ es => .memberAdded tenantId oidcClientId userId ∉ es
  | .env (.operator db) => ∀ m,
      db.memberships.find? (·.isFor tenantId oidcClientId userId) = some m → m.status ≠ .active
  | .env (.tick _) => True

/-- The user is no member, and the unused codes for the user, the service and
    the tenant were there in the state `s₁` already. -/
structure Out (s₁ : State) (tenantId oidcClientId clientId userId : String) (s : State) : Prop where
  unique : s.identity.UniqueClients
  registered : (oidcClientId, clientId) ∈ s.identity.clients.map fun c => (c.id, c.clientId)
  removed : ¬Member s tenantId oidcClientId userId
  codes : ∀ k e grant, s.authorizationCodes k = some e → e.value = .unused grant →
    grant.userId = userId → grant.clientId = clientId → grant.tenantId = tenantId →
      s₁.authorizationCodes k = some e

section Steps

variable {deps : Deps} {leaving : Option String} {s₁ s s' : State}
  {tenantId oidcClientId clientId userId : String}

/-- A step that makes other memberships only. -/
theorem Out.step (h : Out s₁ tenantId oidcClientId clientId userId s)
    (hstep : GrantStep deps (fun t c u => ¬(t = tenantId ∧ c = oidcClientId ∧ u = userId)) leaving
      s s') : Out s₁ tenantId oidcClientId clientId userId s' := by
  have hclients := (sessionSteps_changes hstep.sessions).clients
  refine ⟨?_, hclients ▸ h.registered, fun hm => ?_, ?_⟩
  · unfold Identity.UniqueClients
    rw [hclients]
    exact h.unique
  -- Nobody makes this user a member again.
  · rcases hstep.members _ _ _ hm with hm | hother
    · exact h.removed hm
    · exact hother ⟨rfl, rfl, rfl⟩
  · intro k e grant he hgrant huser hclient htenant
    cases hstep.change with
    | fewer hf =>
        exact h.codes k e grant (hf.codes k e grant he hgrant) hgrant huser hclient htenant
    | redeemed hr => exact h.codes k e grant (hr.codes ▸ he) hgrant huser hclient htenant
    | rotated hr => exact h.codes k e grant (hr.codes ▸ he) hgrant huser hclient htenant
    | @granted key grant' client hg =>
        rw [hg.codes] at he
        rcases put_eq_some he with ⟨_, rfl⟩ | ⟨_, he⟩
        · -- A code is granted to members only.
          cases hgrant
          have hid := id_of_unique h.unique hg.registered h.registered (hg.clientId.trans hclient)
          subst hid huser htenant
          exact absurd hg.member h.removed
        · exact h.codes k e grant he hgrant huser hclient htenant

/-- A request that does not make the membership. -/
theorem Out.exec {c : AuthCall} {es : List Event} {a : Answer c}
    (hinj : Function.Injective deps.keyOf) (hrec : Recorded deps s) (hg : Sourced deps s)
    (h : Out s₁ tenantId oidcClientId clientId userId s)
    (hexec : Exec s (AuthCall.body deps c) es a s') (hE : ∀ e ∈ es, notLeaving deps c e)
    (hout : .memberAdded tenantId oidcClientId userId ∉ es) :
    (Recorded deps s' ∧ Sourced deps s') ∧ Out s₁ tenantId oidcClientId clientId userId s' := by
  have hmay : ∀ e ∈ es,
      membersFor (fun t c u => ¬(t = tenantId ∧ c = oidcClientId ∧ u = userId)) e := by
    rintro e he t c u rfl ⟨rfl, rfl, rfl⟩
    exact hout he
  rcases grants_of_exec hinj hrec hg hexec hE hmay with ⟨_, hsteps, hlast⟩
  refine ⟨hlast, ?_⟩
  -- Step by step along the call; the records hold before each step.
  clear hlast hexec
  induction hsteps with
  | refl => exact h
  | tail _ hstep ih => exact ih.step hstep

theorem Out.env {t : Change} (h : Out s₁ tenantId oidcClientId clientId userId s)
    (ht : t.apply s = some s') (hout : KeepsOut tenantId oidcClientId userId (.env t)) :
    Out s₁ tenantId oidcClientId clientId userId s' := by
  cases t with
  | tick seconds =>
      cases ht
      exact ⟨h.unique, h.registered, h.removed, h.codes⟩
  | operator db =>
      dsimp only [Change.apply] at ht
      split at ht
      · next hdb =>
          cases ht
          exact ⟨hdb.1, hdb.2.1 _ h.registered, fun hm => hm.elim fun m hm => hout m hm.1 hm.2,
            h.codes⟩
      · cases ht

end Steps

section Answers

variable {deps : Deps} {s₁ s s' : State} {tenantId oidcClientId clientId userId : String}
  {es : List Event} {response : TokenResponse}

/-- A refresh looks at the membership. -/
theorem Out.refresh (h : Out s₁ tenantId oidcClientId clientId userId s) {secret value : String}
    (hexec : Exec s (AuthCall.body deps (.refresh clientId secret value)) es
      (some (.ok response)) s') (hsub : response.idToken.sub = userId) :
    response.idToken.tenantId ≠ tenantId := by
  intro htenant
  rcases exec_withClient hexec with ⟨client, hclient, hid, _, hrun⟩
  rcases exec_refresh_ok hrun with ⟨token, _, _, _, _, hmember, hfor⟩
  have hsame : oidcClientId = client.id := id_of_unique h.unique hclient h.registered hid
  have huser : token.userId = userId := hfor.sub.symm.trans hsub
  have htenant' : token.tenantId = tenantId := hfor.tenantId.symm.trans htenant
  rw [← hsame, huser, htenant'] at hmember
  exact h.removed hmember

/-- The code grant does not, so the code was there at the removal. -/
theorem Out.exchange (h : Out s₁ tenantId oidcClientId clientId userId s) {secret : String}
    {input : CodeExchangeInput}
    (hexec : Exec s (AuthCall.body deps (.exchange clientId secret input)) es
      (some (.ok response)) s') (hsub : response.idToken.sub = userId)
    (htenant : response.idToken.tenantId = tenantId) :
    ∃ e grant, s₁.authorizationCodes (deps.keyOf input.code) = some e ∧ e.value = .unused grant ∧
      grant.userId = userId ∧ grant.clientId = clientId ∧ grant.tenantId = tenantId ∧
        s.now < e.expiresAt := by
  rcases exec_withClient hexec with ⟨client, _, hid, _, hrun⟩
  rcases exec_exchange_ok hrun with ⟨grant, hget, hgrant, _, hfor⟩
  rcases get_eq_some.mp hget with ⟨e, he, hlive, hvalue⟩
  have huser : grant.userId = userId := hfor.sub.symm.trans hsub
  have hclient : grant.clientId = clientId := hgrant.trans hid
  have htenant' : grant.tenantId = tenantId := hfor.tenantId.symm.trans htenant
  exact ⟨e, grant, h.codes _ e grant he hvalue huser hclient htenant', hvalue, huser, hclient,
    htenant', hlive⟩

/-- What holds after a removal. No code was stored or used by it. -/
theorem out_of_removal (hinj : Function.Injective deps.keyOf) (hs : Settled deps s)
    {clientSecret : String} (hexec : Exec s
      (AuthCall.body deps (.uninvite clientId clientSecret tenantId userId)) es
      (some (.ok ())) s') :
    s'.authorizationCodes = s.authorizationCodes ∧ (Recorded deps s' ∧ Sourced deps s') ∧
      ∃ client ∈ s.identity.clients, client.clientId = clientId ∧
        Out s' tenantId client.id clientId userId s' := by
  rcases Uninvite.exec_uninvite hexec with ⟨hne, _⟩ | ⟨_, client, hclient, hid, hremoved⟩
  · exact absurd rfl hne
  have hch := hremoved.changes
  -- The removal itself adds no member, so the general step lemma holds of it.
  rcases anyGrants_of_exec hinj hs.recorded hs.sourced hexec
    (fun _ _ _ _ hc => by cases hc) with ⟨_, _, hlast⟩
  refine ⟨hch.same .authorizationCodes (by decide), hlast, client, hclient, hid, ?_, ?_,
    fun hm => ((member_filter hremoved.memberships).mp hm).2 ⟨rfl, rfl, rfl⟩,
    fun _ _ _ he _ _ _ _ => he⟩
  · unfold Identity.UniqueClients
    rw [hch.clients]
    exact hs.unique
  · rw [hch.clients]
    exact List.mem_map.mpr ⟨client, hclient, by rw [hid]⟩

end Answers

section Runs

variable {deps : Deps}

/-- After a member was removed, in every run in which the membership is not
    made again, a refresh by the service gives no tokens for the user and the
    tenant. The exchange of a code does within a minute, for a code that was
    stored at the removal, and not later. -/
theorem removed_member_stays_out (hinj : Function.Injective deps.keyOf) (now : Int) (db : Identity)
    (hdb : db.UniqueClients) (ls : List (Happening Event AuthCall Change Answer)) (s : State)
    (h : Runs (authSystem deps) (State.start now db) ls s) (hls : ∀ l ∈ ls, Unguessed deps l)
    (clientId clientSecret tenantId userId : String) (es : List Event) (s₁ : State)
    (hexec : Exec s (AuthCall.body deps (.uninvite clientId clientSecret tenantId userId)) es
      (some (.ok ())) s₁)
    (ls' : List (Happening Event AuthCall Change Answer)) (s₂ : State)
    (h' : Runs (authSystem deps) s₁ ls' s₂) (hls' : ∀ l ∈ ls', Unguessed deps l)
    (hout : ∀ client ∈ s.identity.clients, client.clientId = clientId →
      ∀ l ∈ ls', KeepsOut tenantId client.id userId l) :
    (∀ secret value es response s', Exec s₂ (AuthCall.body deps (.refresh clientId secret value)) es
        (some (.ok response)) s' →
      response.idToken.sub = userId → response.idToken.tenantId ≠ tenantId) ∧
    ∀ secret input es response s', Exec s₂ (AuthCall.body deps (.exchange clientId secret input)) es
        (some (.ok response)) s' →
      response.idToken.sub = userId → response.idToken.tenantId = tenantId →
        s₂.now < s₁.now + authorizationCodeTtl ∧ ∃ e grant,
          s.authorizationCodes (deps.keyOf input.code) = some e ∧ e.value = .unused grant := by
  have hs := settled_of_runs hinj hdb h hls
  rcases out_of_removal hinj hs hexec with ⟨hcodes, hgrants, client, hclient, hid, hstart⟩
  have hend : (Recorded deps s₂ ∧ Sourced deps s₂) ∧
      Out s₁ tenantId client.id clientId userId s₂ := by
    have hok : ∀ l ∈ ls', Unguessed deps l ∧ KeepsOut tenantId client.id userId l :=
      fun l hl => ⟨hls' l hl, hout client hclient hid l hl⟩
    refine h'.induct (I := fun s => (Recorded deps s ∧ Sourced deps s) ∧
      Out s₁ tenantId client.id clientId userId s) ?_ ?_ hok ⟨hgrants, hstart⟩
    · exact fun _ _ _ _ _ hl hI hexec => hI.2.exec hinj hI.1.1 hI.1.2 hexec hl.1 hl.2
    · exact fun _ _ _ hl hI ht => ⟨⟨recorded_env ht hI.1.1, hI.1.2.env ht⟩, hI.2.env ht hl.2⟩
  refine ⟨fun secret value es' response s' hrefresh hsub => hend.2.refresh hrefresh hsub,
    fun secret input es' response s' hexchange hsub htenant => ?_⟩
  rcases hend.2.exchange hexchange hsub htenant with ⟨e, grant, hold, hvalue, _, _, _, hlive⟩
  -- A code that was there at the removal has at most its whole time left.
  rcases hgrants.2 with ⟨origin, hg⟩
  have hlimit := (hg.codes _ e grant hold hvalue).2
  exact ⟨by omega, e, grant, hcodes ▸ hold, hvalue⟩

/-- A request of the service is answered with tokens for the user and the tenant. -/
def GivesTokens (clientId tenantId userId : String) :
    Happening Event AuthCall Change Answer → Prop
  | .call (.exchange client _ _) (some (.ok response)) _
  | .call (.refresh client _ _) (some (.ok response)) _ =>
      client = clientId ∧ response.idToken.sub = userId ∧ response.idToken.tenantId = tenantId
  | _ => False

/-- The service presents no code for the user and the tenant that was on its way
    in the state `s₀` and has not expired. -/
def PresentsNone (deps : Deps) (s₀ : State) (clientId tenantId userId : String) (s : State) :
    Happening Event AuthCall Change Answer → Prop
  | .call (.exchange client _ input) _ _ => client = clientId → ∀ e grant,
      s₀.authorizationCodes (deps.keyOf input.code) = some e → e.value = .unused grant →
        grant.userId = userId → grant.clientId = clientId → grant.tenantId = tenantId →
          e.expiresAt ≤ s.now
  | _ => True

/-- Without such a code no request gives tokens. -/
theorem Out.noTokens {s₀ s₁ s s' : State} {tenantId oidcClientId clientId userId : String}
    (h : Out s₁ tenantId oidcClientId clientId userId s)
    (hcodes : s₁.authorizationCodes = s₀.authorizationCodes) {c : AuthCall} {a : Answer c}
    {es : List Event} (hexec : Exec s (AuthCall.body deps c) es a s')
    (hnone : PresentsNone deps s₀ clientId tenantId userId s (.call c a es)) :
    ¬GivesTokens clientId tenantId userId (.call c a es) := by
  intro hgives
  cases c with
  | exchange client secret input =>
      rcases a with _ | ⟨_ | response⟩
      · exact hgives
      · exact hgives
      -- An exchange would present a code from before the removal.
      · rcases hgives with ⟨rfl, hsub, htenant⟩
        rcases h.exchange hexec hsub htenant with
          ⟨e, grant, he, hvalue, huser, hclient, htenant', hlive⟩
        rw [hcodes] at he
        exact absurd hlive (not_lt.mpr (hnone rfl e grant he hvalue huser hclient htenant'))
  | refresh client secret value =>
      rcases a with _ | ⟨_ | response⟩
      · exact hgives
      · exact hgives
      · rcases hgives with ⟨rfl, hsub, htenant⟩
        exact h.refresh hexec hsub htenant
  | _ => exact hgives

/-- Nothing is guessed, the membership is not made again, and no code is
    presented that was on its way at the removal. -/
def condition (deps : Deps) (s₀ : State) (client : OidcClient) (tenantId userId : String)
    (s : State) (l : Happening Event AuthCall Change Answer) : Prop :=
  Unguessed deps l ∧ KeepsOut tenantId client.id userId l ∧
    PresentsNone deps s₀ client.clientId tenantId userId s l

/-- A removal cuts the access at once, in every further run in which no code is
    presented that was on its way. -/
theorem removal_cuts_at_once (hinj : Function.Injective deps.keyOf) (now : Int) (db : Identity)
    (hdb : db.UniqueClients) (ls : List (Happening Event AuthCall Change Answer)) (s : State)
    (h : Runs (authSystem deps) (State.start now db) ls s) (hls : ∀ l ∈ ls, Unguessed deps l)
    (client : OidcClient) (hclient : client ∈ s.identity.clients)
    (clientSecret tenantId userId : String) (es : List Event) (s₁ : State)
    (hexec : Exec s (AuthCall.body deps (.uninvite client.clientId clientSecret tenantId userId)) es
      (some (.ok ())) s₁)
    (ls' : List (Happening Event AuthCall Change Answer)) (s₂ : State)
    (h' : RunsWhile (authSystem deps) (condition deps s client tenantId userId) s₁ ls' s₂) :
    ∀ l ∈ ls', ¬GivesTokens client.clientId tenantId userId l := by
  have hs := settled_of_runs hinj hdb h hls
  rcases out_of_removal hinj hs hexec with ⟨hcodes, hgrants, client', hclient', hid, hstart⟩
  obtain rfl := List.inj_on_of_nodup_map hs.unique.2 hclient' hclient hid
  -- Whoever is out stays out, and a call of an outsider gives no tokens.
  refine (h'.forall (I := fun s => (Recorded deps s ∧ Sourced deps s) ∧
    Out s₁ tenantId client'.id client'.clientId userId s) ?_ ?_ ⟨hgrants, hstart⟩).2
  · rintro c a es' s s' ⟨hguess, hkeeps, hnone⟩ ⟨hgrants, hout⟩ hexec'
    refine ⟨hout.exec hinj hgrants.1 hgrants.2 hexec' hguess hkeeps, ?_⟩
    exact hout.noTokens hcodes hexec' hnone
  · rintro t s s' ⟨_, hkeeps, _⟩ ⟨hgrants, hout⟩ ht
    exact ⟨⟨⟨recorded_env ht hgrants.1, hgrants.2.env ht⟩, hout.env ht hkeeps⟩, not_false⟩

end Runs

section Example

/-- The exchange of Alice's code. -/
def lateExchange : AuthProg (Option (Except TokenError TokenResponse)) :=
  AuthCall.body smallDeps (.exchange "crm" "crm-secret" ⟨code1, callback, verifier⟩)

def exchanged : Option (Except TokenError TokenResponse) → Bool
  | some (.ok response) =>
      response.idToken.sub = alice.id ∧ response.idToken.tenantId = acme.id
  | _ => false

def addsMember : Event → Bool
  | .memberAdded _ _ _ => true
  | _ => false

/-- Alice is removed while a code is on its way, and it is exchanged later. -/
def playsLate (seconds : Nat)
    (test : State → State → Option (Except TokenError TokenResponse) → Bool)
    (r : List (Happening Event AuthCall Change Answer) × State) : Bool :=
  r.1.all leavesNothing &&
    (Uninvite.removal.runAlone (.ulid "") 60 [.random jti2, .notified true, .audit "event" true]
      r.2).any fun x => Uninvite.succeeded x.2.1 &&
        (lateExchange.runAlone (.ulid "") 60 [.random family1, .random refresh1, .random jti1]
          { x.2.2 with now := x.2.2.now + seconds }).any fun y =>
            y.1.all (fun e => !addsMember e) && test r.2 x.2.2 y.2.1

theorem exists_late (seconds : Nat)
    (test : State → State → Option (Except TokenError TokenResponse) → Bool)
    (h : (playTurns (authSystem smallDeps) (.ulid "") 60
      (loginTurns pendingId1 cookie1 sid1 none ++ [authorizeTurn cookie1 code1]) [] smallStart).any
        (playsLate seconds test) = true) :
    ∃ ls s es s₁ es' b s', Runs (authSystem smallDeps) smallStart ls s ∧
      (∀ l ∈ ls, Unguessed smallDeps l) ∧ Exec s Uninvite.removal es (some (.ok ())) s₁ ∧
      Exec { s₁ with now := s₁.now + seconds } lateExchange es' b s' ∧
      (∀ e ∈ es', addsMember e = false) ∧ test s s₁ b = true := by
  rcases exists_runs _ _ _ _ _ _ h with ⟨ls, s, hruns, htest⟩
  simp only [playsLate, Bool.and_eq_true, List.all_eq_true, Option.any_eq_true,
    Bool.not_eq_true'] at htest
  rcases htest with ⟨hall, ⟨es, a, s₁⟩, hrun, hok, ⟨es', b, s'⟩, hrun', hmembers, hb⟩
  obtain rfl := Uninvite.eq_of_succeeded hok
  exact ⟨ls, s, es, s₁, es', b, s', hruns, fun l hl => unguessed_of_leavesNothing (hall l hl),
    exec_of_runAlone _ _ _ _ _ _ _ _ hrun, exec_of_runAlone _ _ _ _ _ _ _ _ hrun', hmembers, hb⟩

/-- Half a minute later the service gets tokens for the code. -/
theorem late_exchanged : ∃ ls s es s₁ es' response s',
    Runs (authSystem smallDeps) smallStart ls s ∧ (∀ l ∈ ls, Unguessed smallDeps l) ∧
      Exec s Uninvite.removal es (some (.ok ())) s₁ ∧
      Exec { s₁ with now := s₁.now + 30 } lateExchange es' (some (.ok response)) s' ∧
      (∀ e ∈ es', addsMember e = false) ∧
      response.idToken.sub = alice.id ∧ response.idToken.tenantId = acme.id := by
  rcases exists_late 30 (fun _ _ b => exchanged b) (by decide +kernel) with
    ⟨ls, s, es, s₁, es', b, s', hruns, hguess, hexec, hexchange, hmembers, hb⟩
  rcases b with _ | ⟨_ | response⟩
  · cases hb
  · cases hb
  · exact ⟨ls, s, es, s₁, es', response, s', hruns, hguess, hexec, hexchange, hmembers,
      of_decide_eq_true hb⟩

theorem code_outlives_membership : ∃ ls s es s₁ es' response s',
    Runs (authSystem smallDeps) smallStart ls s ∧
    Exec s Uninvite.removal es (some (.ok ())) s₁ ∧
    Exec { s₁ with now := s₁.now + 30 } lateExchange es' (some (.ok response)) s' ∧
    response.idToken.sub = alice.id ∧ response.idToken.tenantId = acme.id ∧
      ∃ e grant, s.authorizationCodes (smallDeps.keyOf code1) = some e ∧
        e.value = .unused grant := by
  rcases late_exchanged with
    ⟨ls, s, es, s₁, es', response, s', hruns, hguess, hexec, hexchange, _, hsub, htenant⟩
  have hlater : Runs (authSystem smallDeps) s₁ [.env (.tick 30)]
      { s₁ with now := s₁.now + 30 } := .env .nil rfl
  refine ⟨ls, s, es, s₁, es', response, s', hruns, hexec, hexchange, hsub, htenant, ?_⟩
  exact ((removed_member_stays_out smallDeps_keyOf_injective 1000 smallIdentity (by decide) ls s
    hruns hguess _ _ _ _ es s₁ hexec _ _ hlater
    (fun l hl => by cases List.mem_singleton.mp hl; trivial)
    (fun _ _ _ l hl => by cases List.mem_singleton.mp hl; trivial)).2 _ _ es' response s'
      hexchange hsub htenant).2

/-- The exchange of the code neither guesses nor makes a member. -/
theorem late_harmless {a : Option (Except TokenError TokenResponse)} {es : List Event}
    (hmembers : ∀ e ∈ es, addsMember e = false) :
    Unguessed smallDeps (.call (.exchange "crm" "crm-secret" ⟨code1, callback, verifier⟩) a es) ∧
      KeepsOut acme.id crm.id alice.id
        (.call (.exchange "crm" "crm-secret" ⟨code1, callback, verifier⟩) a es) := by
  refine ⟨fun _ _ _ _ hleaving => (nomatch hleaving), fun hmem => ?_⟩
  exact absurd (hmembers _ hmem) (by decide)

/-- So the access of Alice, who is not made a member again, is not cut at once. -/
theorem removed_access_goes_on : ∃ ls s es s₁ ls' s₂,
    Runs (authSystem smallDeps) smallStart ls s ∧ (∀ l ∈ ls, Unguessed smallDeps l) ∧
    Exec s Uninvite.removal es (some (.ok ())) s₁ ∧ Runs (authSystem smallDeps) s₁ ls' s₂ ∧
    (∀ l ∈ ls', Unguessed smallDeps l ∧ KeepsOut acme.id crm.id alice.id l) ∧
      ∃ l ∈ ls', GivesTokens crm.clientId acme.id alice.id l := by
  rcases late_exchanged with
    ⟨ls, s, es, s₁, es', response, s', hruns, hguess, hexec, hexchange, hmembers, hsub, htenant⟩
  have hlater : Runs (authSystem smallDeps) s₁
      [.call (.exchange "crm" "crm-secret" ⟨code1, callback, verifier⟩) (some (.ok response)) es',
        .env (.tick 30)] s' := .call (.env .nil rfl) hexchange
  refine ⟨ls, s, es, s₁, _, s', hruns, hguess, hexec, hlater, ?_, _, List.mem_cons_self, ?_⟩
  · exact List.forall_mem_cons.mpr ⟨late_harmless hmembers,
      List.forall_mem_singleton.mpr ⟨trivial, trivial⟩⟩
  · exact ⟨rfl, hsub, htenant⟩

/-- A minute later the code is of no use. -/
theorem expired_code_gives_nothing : ∃ ls s es s₁ ls' s₂,
    Runs (authSystem smallDeps) smallStart ls s ∧
    Exec s Uninvite.removal es (some (.ok ())) s₁ ∧
    RunsWhile (authSystem smallDeps) (condition smallDeps s crm acme.id alice.id) s₁ ls' s₂ ∧
    (∃ a es', .call (.exchange "crm" "crm-secret" ⟨code1, callback, verifier⟩) a es' ∈ ls') ∧
      ∀ l ∈ ls', ¬GivesTokens crm.clientId acme.id alice.id l := by
  rcases exists_late 60 (fun s s₁ _ => (s.identity.clients = [crm]) ∧
    (s.authorizationCodes (smallDeps.keyOf code1)).all fun e => e.expiresAt ≤ s₁.now + 60)
    (by decide +kernel) with
    ⟨ls, s, es, s₁, es', b, s', hruns, hguess, hexec, hexchange, hmembers, htest⟩
  rcases of_decide_eq_true htest with ⟨hclients, hexpired⟩
  have hlater : RunsWhile (authSystem smallDeps) (condition smallDeps s crm acme.id alice.id) s₁
      [.call (.exchange "crm" "crm-secret" ⟨code1, callback, verifier⟩) b es', .env (.tick 60)]
      s' := by
    refine .call (.env .nil rfl ⟨trivial, trivial, trivial⟩) hexchange
      ⟨(late_harmless hmembers).1, (late_harmless hmembers).2, ?_⟩
    -- The one code that was stored has expired by the end of the grace period.
    rintro _ e grant he _ _ _ _
    rw [he] at hexpired
    exact of_decide_eq_true hexpired
  refine ⟨ls, s, es, s₁, _, s', hruns, hexec, hlater, ⟨b, es', List.mem_cons_self⟩, ?_⟩
  exact removal_cuts_at_once smallDeps_keyOf_injective 1000 smallIdentity (by decide) ls s hruns
    hguess crm (hclients ▸ List.mem_singleton_self _) "crm-secret" acme.id alice.id es s₁ hexec _
    s' hlater

end Example

end Sandbox.Auth.AfterRemoval
