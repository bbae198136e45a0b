import Sandbox.Auth.GlobalLogout
import Sandbox.Auth.Token
import Sandbox.Interleave.Answers
import Sandbox.Tokens.Jwt

/-!
# What the Server Signs

The claims of the three kinds of tokens as the payloads that are signed, and
the user info endpoint, which is the only place where the server checks a
token of its own.

An ID Token carries a nonce if it comes from a code, and none if it comes
from a refresh. A logout token carries its event and no nonce. An Access
Token has two audiences and neither a nonce nor an event.

## Main definitions

* `IdToken.signOptions`, `AccessToken.signOptions`,
  `LogoutToken.signOptions`: The payloads.
* `issuedAt`: The tokens issued at a second.
* `userinfo`: `GET /userinfo`.

## Theorems

* `answers_issueTokens`, `answers_exchange`, `answers_refresh`,
  `answers_issueLogoutToken`: What the programs issue.
-/

namespace Sandbox.Auth

open Interleave

section Payloads

def ProfileClaims.claims (profile : ProfileClaims) : List (String × Option Claim) :=
  [("email", profile.email.map .string),
    ("email_verified", if profile.emailVerified then some (.boolean true) else none),
    ("name", profile.name.map .string)]

def IdToken.signOptions (token : IdToken) : SignOptions where
  issuer := token.iss
  audience := .string token.aud
  subject := token.sub
  issuedAt := token.iat
  expiresAt := token.exp
  claims := [("auth_time", some (.number token.authTime)), ("sid", some (.string token.sid)),
    ("nonce", token.nonce.map .string), ("tenant_id", some (.string token.tenantId)),
    ("tenant_slug", some (.string token.tenantSlug))] ++ token.profile.claims

def AccessToken.signOptions (token : AccessToken) : SignOptions where
  issuer := token.iss
  audience := .strings token.aud
  subject := token.sub
  issuedAt := token.iat
  expiresAt := token.exp
  claims := [("client_id", some (.string token.clientId)), ("sid", some (.string token.sid)),
    ("scope", some (.string token.scope)), ("jti", some (.string token.jti)),
    ("tenant_id", some (.string token.tenantId)),
    ("tenant_slug", some (.string token.tenantSlug))]

/-- The key of the event in a logout token. -/
def logoutEvent : String := "http://schemas.openid.net/event/backchannel-logout"

def LogoutToken.signOptions (token : LogoutToken) : SignOptions where
  issuer := token.iss
  audience := .string token.aud
  subject := token.sub
  issuedAt := token.iat
  expiresAt := token.exp
  claims := [("jti", some (.string token.jti)), ("sid", some (.string token.sid)),
    ("events", some (.object [logoutEvent]))]

end Payloads

section Userinfo

inductive UserinfoReply where
  | invalidRequest
  | invalidToken
  | claims (sub : String) (profile : ProfileClaims) (tenantId : Option String)
  deriving DecidableEq

/-- `GET /userinfo`. The issuer has to be an audience of the token. -/
def userinfo (jose : Jose) (deps : Deps) (signingKey : jose.Key) (bearer : Option jose.Token) :
    AuthProg UserinfoReply :=
  match bearer with
  | none => pure .invalidRequest
  | some token => do
      let now ← nowSeconds
      -- The issuer is an audience of every Access Token it signs.
      match verifyJwt jose token [signingKey] deps.issuer (some deps.issuer) now with
      | .error _ => pure .invalidToken
      | .ok payload =>
        match payload.string? "sub" with
        | none => pure .invalidToken
        | some sub => do
            let user ← findUserById sub
            match user with
            | none => pure .invalidToken
            | some user =>
                if user.status ≠ .active then pure .invalidToken
                else
                  let scopes := ((payload.string? "scope").map (split ' ')).getD []
                  pure (.claims user.id (profileClaims user scopes)
                    (payload.string? "tenant_id"))

end Userinfo

section Issued

/-- The tokens issued at a second with an identifier. -/
def issuedAt (deps : Deps) (input : IssueTokensInput) (now : Int) (jti : String) :
    IssuedTokens where
  idToken :=
    { iss := deps.issuer
      aud := input.client.clientId
      sub := input.user.id
      iat := now
      exp := now + idTokenTtl
      authTime := input.authTime
      sid := input.sid
      nonce := input.nonce
      tenantId := input.tenant.id
      tenantSlug := input.tenant.slug
      profile := profileClaims input.user (split ' ' input.scope) }
  accessToken :=
    { iss := deps.issuer
      aud := [input.client.audience, deps.issuer]
      sub := input.user.id
      iat := now
      exp := now + accessTokenTtl
      clientId := input.client.clientId
      sid := input.sid
      scope := input.scope
      jti := jti
      tenantId := input.tenant.id
      tenantSlug := input.tenant.slug }
  expiresIn := accessTokenTtl

theorem answers_issueTokens (deps : Deps) (input : IssueTokensInput) :
    Answers (issueTokens deps input) fun tokens =>
      ∃ now jti, tokens = issuedAt deps input now jti :=
  answers_then fun now => answers_then fun jti => answers_pure ⟨now, jti, rfl⟩

/-- If a reply is a success, its tokens come from one issue for the client,
    with such a nonce. -/
def IssuedWith (deps : Deps) (client : OidcClient) (P : Option String → Prop)
    (reply : Except TokenError TokenResponse) : Prop :=
  ∀ response, reply = .ok response → ∃ issue now jti,
    issue.client = client ∧ P issue.nonce ∧
      response.idToken = (issuedAt deps issue now jti).idToken ∧
      response.accessToken = (issuedAt deps issue now jti).accessToken

theorem answers_error {deps : Deps} {client : OidcClient} {P : Option String → Prop}
    (e : TokenError) :
    Answers (pure (.error e) : AuthProg (Except TokenError TokenResponse))
      (IssuedWith deps client P) :=
  answers_pure fun _ h => nomatch h

theorem answers_redeemCode (deps : Deps) (client : OidcClient) (codeKey : String)
    (stored : CodeGrant) (user : User) (tenant : Tenant) :
    Answers (redeemCode deps client codeKey stored user tenant)
      (IssuedWith deps client fun nonce => nonce = some stored.nonce) := by
  refine answers_bind (answers_both (answers_any _) (answers_issueTokens deps _))
    fun issued hissued => answers_then fun _ => answers_pure ?_
  rcases hissued with ⟨_, now, jti, htokens⟩
  intro response hresponse
  cases hresponse
  exact ⟨_, now, jti, rfl, rfl, congrArg IssuedTokens.idToken htokens,
    congrArg IssuedTokens.accessToken htokens⟩

/-- The tokens of an exchange come from one issue, with a nonce. -/
theorem answers_exchange (deps : Deps) (client : OidcClient) (input : CodeExchangeInput) :
    Answers (exchangeAuthorizationCode deps client input)
      (IssuedWith deps client fun nonce => ∃ n, nonce = some n) := by
  refine answers_then fun stored => ?_
  cases stored with
  | none => exact answers_error _
  | some code =>
    cases code with
    | used familyId =>
        exact answers_then fun _ => answers_then fun _ => answers_then fun _ =>
          answers_then fun _ => answers_error _
    | unused stored =>
        simp only []
        cases validateCodeBinding deps stored client input with
        | error e => exact answers_error e
        | ok _ =>
            refine answers_then fun rows => ?_
            rcases rows with ⟨session, user, tenant⟩
            cases session with
            | none => exact answers_error _
            | some session =>
              cases user with
              | none => exact answers_error _
              | some user =>
                cases tenant with
                | error e => exact answers_error e
                | ok tenant =>
                    -- Only here are tokens issued.
                    refine answers_mono (answers_redeemCode deps client _ stored user tenant) ?_
                    intro reply hreply response hresponse
                    rcases hreply response hresponse with ⟨issue, now, jti, hc, hn, ht⟩
                    exact ⟨issue, now, jti, hc, ⟨_, hn⟩, ht⟩

/-- The tokens of a refresh come from one issue, without a nonce. -/
theorem answers_refresh (deps : Deps) (client : OidcClient) (value : String) :
    Answers (refreshAccessToken deps client value)
      (IssuedWith deps client fun nonce => nonce = none) := by
  refine answers_then fun consumed => ?_
  cases consumed with
  | unknown => exact answers_error _
  | reused token => exact answers_then fun _ => answers_then fun _ => answers_error _
  | consumed stored =>
      simp only [refreshConsumed]
      by_cases hclient : stored.clientId ≠ client.clientId
      · rw [if_pos hclient]
        exact answers_then fun _ => answers_then fun _ => answers_error _
      · rw [if_neg hclient]
        refine answers_then fun validated => ?_
        cases validated with
        | error e => exact answers_then fun _ => answers_error e
        | ok rows =>
            refine answers_bind (answers_both (answers_any _) (answers_issueTokens deps _))
              fun issued hissued => answers_pure ?_
            -- A refresh issues its tokens without a nonce.
            rcases hissued with ⟨_, now, jti, htokens⟩
            intro response hresponse
            cases hresponse
            exact ⟨_, now, jti, rfl, rfl, congrArg IssuedTokens.idToken htokens,
              congrArg IssuedTokens.accessToken htokens⟩

theorem answers_issueLogoutToken (deps : Deps) (clientId sid : String) :
    Answers (issueLogoutToken deps clientId sid) fun token =>
      ∃ now jti, token =
        ⟨deps.issuer, clientId, sid, now, now + logoutTokenTtl, jti, sid⟩ :=
  answers_then fun now => answers_then fun jti => answers_pure ⟨now, jti, rfl⟩

end Issued

end Sandbox.Auth
