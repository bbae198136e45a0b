import Sandbox.Tokens.Jwt

/-!
# Access Tokens in the Services' APIs

An API accepts an Access Token whose audiences include its own, and that has
all the claims of one. The session's `sid` is not used, but it has to be
there: it tells an Access Token of this server from other tokens.

## Main definitions

* `AccessTokenClaims`, `AccessTokenVerifierOptions`: What is taken from a
  token, and what it is checked against.
* `verifyAccessToken`: The check.

## Theorems

* `verifyAccessToken_sign`: What an accepted token says.
-/

namespace Sandbox.Api

structure AccessTokenClaims where
  userId : String
  tenantId : String
  tenantSlug : String
  clientId : String
  deriving DecidableEq

structure AccessTokenVerifierOptions (jose : Jose) where
  issuer : String
  audience : String
  jwks : JwksSource jose
  now : Int

/-- The claims that have to be strings. -/
def requiredClaims : List String := ["sub", "tenant_id", "tenant_slug", "sid", "client_id"]

variable {jose : Jose}

def verifyAccessToken (jose : Jose) (token : jose.Token)
    (options : AccessTokenVerifierOptions jose) : Except VerifyError AccessTokenClaims :=
  match verifyJwtWithSource jose token options.jwks options.issuer (some options.audience)
      options.now with
  | .error e => .error e
  | .ok payload =>
      -- The first claim that is missing is the one that is named.
      match requiredClaims.find? fun claim => (payload.string? claim).isNone with
      | some claim => .error (.invalidToken (claim ++ " missing"))
      | none =>
          .ok
            { userId := (payload.string? "sub").getD ""
              tenantId := (payload.string? "tenant_id").getD ""
              tenantSlug := (payload.string? "tenant_slug").getD ""
              clientId := (payload.string? "client_id").getD "" }

/-- An accepted token names the API among its audiences. -/
theorem verifyAccessToken_sign {key : jose.Key} {options : SignOptions}
    {expected : AccessTokenVerifierOptions jose} {claims : AccessTokenClaims}
    (h : verifyAccessToken jose (signJwt jose key options) expected = .ok claims) :
    Accepted ⟨expected.issuer, some expected.audience, expected.now, defaultClockTolerance⟩
      options.payload := by
  unfold verifyAccessToken at h
  split at h
  · cases h
  · next payload hverified => exact (verifyJwtWithSource_sign hverified).1

end Sandbox.Api
