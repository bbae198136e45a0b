import Sandbox.Auth.GrantSteps

/-!
# What Tokens Are Issued For

When the token endpoint answers with tokens, they name what the code or the
refresh token named that was presented, the session was alive, and for a
refresh the user was a member then. The code grant does not look at the
membership.

## Theorems

* `exec_withClient`: An answer to a client.
* `exec_exchange_ok`: Tokens for a code.
* `exec_refresh_ok`: Tokens for a refresh token.
* `rooted_of_exchange`, `rooted_of_refresh`: What they rest on.
-/

namespace Sandbox.Auth

open Interleave Ttl

/-- Tokens name what a grant names. -/
structure IdToken.For (token : IdToken) (o : Origin) : Prop where
  aud : token.aud = o.clientId
  sub : token.sub = o.userId
  tenantId : token.tenantId = o.tenantId
  sid : token.sid = o.sid

section Programs

variable {deps : Deps} {s s' : State} {es : List Event} {fs : List Field}

theorem amid_issueTokens {input : IssueTokensInput} {tokens : IssuedTokens}
    (h : Amid (Changes fs) s (issueTokens deps input) es tokens s') :
    tokens.idToken.aud = input.client.clientId ∧ tokens.idToken.sub = input.user.id ∧
      tokens.idToken.tenantId = input.tenant.id ∧ tokens.idToken.sid = input.sid := by
  rcases amid_bind changes_refl h with ⟨now, _, _, _, _, h₁, _⟩
  rcases amid_bind changes_refl h₁ with ⟨jti, _, _, _, _, hdone, _⟩
  rcases amid_done hdone with ⟨_, rfl, _⟩
  exact ⟨rfl, rfl, rfl, rfl⟩

theorem amid_findUserById {userId : String} {user : User}
    (h : Amid (Changes fs) s (findUserById userId) es (some user) s') : user.id = userId := by
  rcases amid_read h with ⟨s₁, _, hfound, _, _⟩
  have hfound' : s₁.identity.users.find? (·.id = userId) = some user := hfound.symm
  simpa using List.find?_some hfound'

theorem amid_resolveTenant {tenantId : String} {tenant : Tenant}
    (h : Amid (Changes fs) s (resolveTenant tenantId) es (.ok tenant) s') :
    tenant.id = tenantId := by
  rcases amid_bind changes_refl h with ⟨row, s₁, _, _, hread, hdone, _⟩
  rcases amid_read hread with ⟨s₂, _, hfound, _, _⟩
  cases row with
  | none => cases (amid_done hdone).2.1
  | some found =>
      have hfound' : s₂.identity.tenants.find? (·.id = tenantId) = some found := hfound.symm
      cases (amid_done hdone).2.1
      simpa using List.find?_some hfound'

/-- A session that was loaded is presented at the start. -/
theorem amid_load_presented {key : String} {x : SsoSession} (hfs : fs ⊆ noSessions)
    (h : Amid (Changes fs) s (loadSsoSessionByKey key) es (some x) s') :
    s.presented key = some x := by
  cases amid_loadSsoSessionByKey (h.mono fun _ _ hch => hch.mono hfs) with
  | alive hx _ => exact hx

end Programs

section Clients

variable {deps : Deps} {s s' : State} {es : List Event} {clientId clientSecret : String}

/-- Authenticating a client only reads. -/
theorem exec_authenticateClient {found : Option OidcClient}
    (h : Exec s (authenticateClient deps clientId clientSecret) es found s') :
    s' = s ∧ ∀ client, found = some client →
      client ∈ s.identity.clients ∧ client.clientId = clientId := by
  rcases exec_bind h with ⟨row, s₁, _, _, hread, h₁, _⟩
  rcases exec_read hread with ⟨_, hrow, rfl⟩
  cases row with
  | none =>
      rcases exec_done h₁ with ⟨_, rfl, rfl⟩
      exact ⟨rfl, fun _ hc => by cases hc⟩
  | some client =>
      have hfound : s₁.identity.clients.find? (·.clientId = clientId) = some client := hrow.symm
      have hclient : client ∈ s₁.identity.clients ∧ client.clientId = clientId :=
        ⟨List.mem_of_find?_eq_some hfound, by simpa using List.find?_some hfound⟩
      -- A client that is not active is refused, and then a wrong secret.
      dsimp only at h₁
      split at h₁
      · rcases exec_done h₁ with ⟨_, rfl, rfl⟩
        exact ⟨rfl, fun _ hc => by cases hc⟩
      · split at h₁
        · rcases exec_done h₁ with ⟨_, rfl, rfl⟩
          exact ⟨rfl, fun _ hc => by cases hc; exact hclient⟩
        · rcases exec_done h₁ with ⟨_, rfl, rfl⟩
          exact ⟨rfl, fun _ hc => by cases hc⟩

/-- An answer is given to an authenticated client. -/
theorem exec_withClient {α : Type} {p : OidcClient → AuthProg α} {a : α}
    (h : Exec s (withClient deps clientId clientSecret p) es (some a) s') :
    ∃ client ∈ s.identity.clients, client.clientId = clientId ∧
      ∃ es₁, Exec s (p client) es₁ a s' := by
  rcases exec_bind h with ⟨found, s₁, _, _, hauth, h₁, _⟩
  rcases exec_authenticateClient hauth with ⟨rfl, hfound⟩
  cases found with
  | none => cases (exec_done h₁).2.1
  | some client =>
      rcases exec_bind h₁ with ⟨answer, s₂, es₁, _, hrun, hdone, _⟩
      rcases exec_done hdone with ⟨_, heq, rfl⟩
      cases heq
      exact ⟨client, (hfound client rfl).1, (hfound client rfl).2, es₁, hrun⟩

end Clients

section Answers

variable {deps : Deps} {s s' : State} {es : List Event} {client : OidcClient}
  {response : TokenResponse} {clientId clientSecret : String}

/-- Tokens for a code. -/
theorem exec_exchange_ok {input : CodeExchangeInput}
    (h : Exec s (exchangeAuthorizationCode deps client input) es (.ok response) s') :
    ∃ grant, Ttl.get s.authorizationCodes s.now (deps.keyOf input.code) = some (.unused grant) ∧
      grant.clientId = client.clientId ∧ (s.presented grant.ssoSessionId).isSome ∧
        response.idToken.For grant.origin := by
  rcases exec_bind h with ⟨stored, s₁, _, _, htake, h₁, _⟩
  rcases exec_atomic htake with ⟨_, hstored, rfl⟩
  -- Only an unused code is answered with tokens.
  rcases stored with _ | ⟨grant | familyId⟩
  · cases (exec_done h₁).2.1
  · refine ⟨grant, hstored.symm, ?_⟩
    dsimp only at h₁
    split at h₁
    · cases (exec_done h₁).2.1
    · next hbinding =>
        have hclient : grant.clientId = client.clientId := by
          unfold validateCodeBinding at hbinding
          split at hbinding
          · cases hbinding
          · next hne => exact not_not.mp hne
        rcases exec_bind h₁ with ⟨rows, s₂, _, _, hrows, h₂, _⟩
        -- Session, user and tenant are loaded at once, each while the others are.
        have hamid : Amid (Changes []) _ _ _ _ _ := amid_of_exec changes_refl hrows
        rcases amid_left hamid (touches_both touches_query touches_resolveTenant :
          Touches [] _) with ⟨_, hload, _⟩
        rcases amid_right hamid touches_loadSsoSessionByKey with ⟨_, hothers, _⟩
        rcases rows with ⟨session, user, tenant⟩
        rcases session with _ | session
        · cases (exec_done h₂).2.1
        rcases user with _ | user
        · cases (exec_done h₂).2.1
        rcases tenant with e | tenant
        · cases (exec_done h₂).2.1
        rcases amid_left hothers (touches_resolveTenant : Touches [] _) with ⟨_, huser, _⟩
        rcases amid_right hothers (touches_query : Touches [] _) with ⟨_, htenant, _⟩
        have hpresented := amid_load_presented (List.nil_subset _) hload
        refine ⟨hclient, Option.isSome_iff_exists.mpr ⟨session, hpresented⟩, ?_⟩
        rcases exec_bind h₂ with ⟨issued, s₃, _, _, hissue, h₃, _⟩
        rcases exec_bind h₃ with ⟨_, s₄, _, _, _, hdone, _⟩
        cases (exec_done hdone).2.1
        -- The tokens are issued while the family is created.
        have hamid₂ : Amid (Changes []) _ _ _ _ _ := amid_of_exec changes_refl hissue
        rcases amid_right hamid₂ touches_createRefreshTokenFamily with ⟨_, htokens, _⟩
        rcases amid_issueTokens htokens with ⟨haud, hsub, htenantId, hsid⟩
        exact ⟨haud.trans hclient.symm, hsub.trans (amid_findUserById huser),
          htenantId.trans (amid_resolveTenant htenant), hsid⟩
  · rcases exec_bind h₁ with ⟨_, _, _, _, _, h₂, _⟩
    rcases exec_bind h₂ with ⟨_, _, _, _, _, h₃, _⟩
    rcases exec_bind h₃ with ⟨_, _, _, _, _, h₄, _⟩
    rcases exec_bind h₄ with ⟨_, _, _, _, _, hdone, _⟩
    cases (exec_done hdone).2.1

/-- Tokens for a refresh token. -/
theorem exec_refresh_ok {value : String}
    (h : Exec s (refreshAccessToken deps client value) es (.ok response) s') :
    ∃ token, Ttl.get s.refreshTokens s.now (deps.keyOf value) = some token ∧
      token.status = .active ∧ token.clientId = client.clientId ∧
        (s.presented token.ssoSessionId).isSome ∧
          Member s token.tenantId client.id token.userId ∧
            response.idToken.For token.origin := by
  rcases exec_bind h with ⟨consumed, s₁, _, _, hconsume, h₁, _⟩
  have hch : Changes [.refreshTokens] s s₁ := (exec_touches hconsume touches_consumeRefreshToken).1
  have hcases := exec_consumeRefreshToken hconsume
  cases hget : Ttl.get s.refreshTokens s.now (deps.keyOf value) with
  | none =>
      rw [hget] at hcases
      subst hcases
      cases (exec_done h₁).2.1
  | some token =>
      rw [hget] at hcases
      dsimp only at hcases
      refine ⟨token, rfl, ?_⟩
      -- A token that was used before ends its family instead.
      by_cases hactive : token.status = .active
      · rw [if_pos hactive] at hcases
        subst hcases
        refine ⟨hactive, ?_⟩
        dsimp only [refreshConsumed] at h₁
        split at h₁
        · rcases exec_bind h₁ with ⟨_, _, _, _, _, h₂, _⟩
          rcases exec_bind h₂ with ⟨_, _, _, _, _, hdone, _⟩
          cases (exec_done hdone).2.1
        · next hne =>
            have hclient : token.clientId = client.clientId := not_not.mp hne
            rcases exec_bind h₁ with ⟨validated, s₂, _, _, hvalidate, h₂, _⟩
            rcases validated with e | ⟨user, tenant⟩
            · rcases exec_bind h₂ with ⟨_, _, _, _, _, hdone, _⟩
              cases (exec_done hdone).2.1
            · rcases exec_bind hvalidate with ⟨rows, s₃, _, _, hrows, h₃, _⟩
              -- Session and tenant are loaded at once.
              have hamid : Amid (Changes []) _ _ _ _ _ := amid_of_exec changes_refl hrows
              rcases amid_left hamid (touches_resolveTenant : Touches [] _) with ⟨_, hload, _⟩
              rcases amid_right hamid touches_loadSsoSessionByKey with ⟨_, hresolve, _⟩
              have hch₂ := amid_touches hamid (touches_both touches_loadSsoSessionByKey
                touches_resolveTenant)
              rcases rows with ⟨session, found⟩
              rcases session with _ | session
              · cases (exec_done h₃).2.1
              rcases found with e | found
              · cases (exec_done h₃).2.1
              rcases exec_bind h₃ with ⟨access, s₄, _, _, haccess, hdone, _⟩
              rcases access with reason | user'
              · cases (exec_done hdone).2.1
              cases (exec_done hdone).2.1
              have hamid₂ : Amid (Changes noGrants) _ _ _ _ _ := amid_of_exec changes_refl haccess
              rcases amid_checkTenantAccess hamid₂ with ⟨hmember, huser⟩
              have htenant := amid_resolveTenant hresolve
              -- What was checked later held before the token was consumed, too.
              refine ⟨hclient, ?_, ?_, ?_⟩
              · have hx := amid_load_presented (List.nil_subset _) hload
                rw [(hch.mono (by decide : _ ⊆ noSessions)).presented] at hx
                exact Option.isSome_iff_exists.mpr ⟨session, hx⟩
              · rw [← htenant]
                exact (member_of_eq ((hch₂.same .memberships (by decide)).trans
                  (hch.same .memberships (by decide)))).mp hmember
              · rcases exec_bind h₂ with ⟨issued, s₅, _, _, hissue, hlast, _⟩
                cases (exec_done hlast).2.1
                have hamid₃ : Amid (Changes []) _ _ _ _ _ := amid_of_exec changes_refl hissue
                rcases amid_right hamid₃ touches_rotateRefreshToken with ⟨_, htokens, _⟩
                rcases amid_issueTokens htokens with ⟨haud, hsub, htenantId, hsid⟩
                exact ⟨haud.trans hclient.symm, hsub.trans huser, htenantId.trans htenant, hsid⟩
      · rw [if_neg hactive] at hcases
        subst hcases
        rcases exec_bind h₁ with ⟨_, _, _, _, _, h₂, _⟩
        rcases exec_bind h₂ with ⟨_, _, _, _, _, hdone, _⟩
        cases (exec_done hdone).2.1

/-- A code that is answered with tokens rests on a session that can be presented. The
    tokens name it, and the code was issued to the client that presents it. -/
theorem rooted_of_exchange {input : CodeExchangeInput} (hg : Sourced deps s)
    (h : Exec s (AuthCall.body deps (.exchange clientId clientSecret input)) es
      (some (.ok response)) s') :
    ∃ grant, Ttl.get s.authorizationCodes s.now (deps.keyOf input.code) = some (.unused grant) ∧
      Rooted deps s grant.origin ∧ (s.presented grant.ssoSessionId).isSome ∧
        grant.clientId = clientId ∧ response.idToken.sid = grant.sid := by
  rcases exec_withClient h with ⟨client, _, rfl, _, hrun⟩
  rcases exec_exchange_ok hrun with ⟨grant, hget, hclient, hx, hfor⟩
  rcases get_eq_some.mp hget with ⟨e, he, _, hvalue⟩
  rcases hg with ⟨origin, hg⟩
  exact ⟨grant, hget, (hg.codes _ e grant he hvalue).1, hx, hclient, hfor.sid⟩

/-- So does a refresh token. -/
theorem rooted_of_refresh {value : String} (hg : Sourced deps s)
    (h : Exec s (AuthCall.body deps (.refresh clientId clientSecret value)) es
      (some (.ok response)) s') :
    ∃ token, Ttl.get s.refreshTokens s.now (deps.keyOf value) = some token ∧
      Rooted deps s token.origin ∧ (s.presented token.ssoSessionId).isSome ∧
        token.clientId = clientId ∧ response.idToken.sid = token.sid := by
  rcases exec_withClient h with ⟨client, _, rfl, _, hrun⟩
  rcases exec_refresh_ok hrun with ⟨token, hget, _, hclient, hx, _, hfor⟩
  rcases get_eq_some.mp hget with ⟨e, he, _, rfl⟩
  rcases hg with ⟨origin, hg⟩
  exact ⟨_, hget, (hg.known _ _ (hg.tokens _ e he)).2.2, hx, hclient, hfor.sid⟩

end Answers

end Sandbox.Auth
