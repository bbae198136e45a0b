import Sandbox.Tokens.Jwt

/-!
# The Provider as a Service Sees It

What a service's web process checks of the tokens it receives from the
authorization server: the ID Token of a login, which has to carry the nonce
of that login, and the logout token of a back-channel request, whose audience
the caller resolves to a client.

## Main definitions

* `OidcProvider`, `ProviderError`: The provider and how it fails.
* `OidcProvider.verifyIdToken`, `OidcProvider.verifyLogoutToken`: The checks.

## Theorems

* `verifyIdToken_sign`, `verifyLogoutToken_sign`: What an accepted token
  says.
-/

namespace Sandbox.Web

/-- `ProviderError` -/
inductive ProviderError where
  | discoveryFailed (reason : String)
  | jwksFailed (reason : String)
  | invalidGrant
  | invalidClient
  | tokenRequestFailed (reason : String)
  | idTokenInvalid (reason : String)
  deriving DecidableEq

structure OidcProvider (jose : Jose) where
  issuer : String
  jwks : JwksSource jose

variable {jose : Jose}

namespace OidcProvider

def verify (provider : OidcProvider jose) (now : Int) (token : jose.Token)
    (audience : Option String) : Except ProviderError JWTPayload :=
  match verifyJwtWithSource jose token provider.jwks provider.issuer audience now with
  | .ok payload => .ok payload
  | .error (.jwksUnavailable reason) => .error (.jwksFailed reason)
  | .error .expired => .error (.idTokenInvalid "expired")
  | .error (.invalidToken reason) => .error (.idTokenInvalid reason)

def verifyIdToken (provider : OidcProvider jose) (now : Int) (idToken : jose.Token)
    (clientId expectedNonce : String) : Except ProviderError JWTPayload :=
  match provider.verify now idToken (some clientId) with
  | .error e => .error e
  | .ok payload =>
      if payload "nonce" ≠ some (.string expectedNonce) then
        .error (.idTokenInvalid "nonce mismatch")
      else if (payload.string? "sub").isNone then .error (.idTokenInvalid "sub missing")
      else .ok payload

structure LogoutClaims where
  sid : String
  audience : String
  deriving DecidableEq

/-- The `events` claim is an object with the event of a back-channel logout. -/
def hasLogoutEvent (payload : JWTPayload) : Bool :=
  match payload "events" with
  | some (.object keys) => "http://schemas.openid.net/event/backchannel-logout" ∈ keys
  | _ => false

/-- `Array.isArray(payload.aud) ? payload.aud[0] : payload.aud`, if that is a
    string. -/
def firstAudience (payload : JWTPayload) : Option String :=
  match payload "aud" with
  | some (.string audience) => some audience
  | some (.strings audiences) => audiences.head?
  | _ => none

/-- The audience is left to the caller, who resolves it to a client. -/
def verifyLogoutToken (provider : OidcProvider jose) (now : Int) (logoutToken : jose.Token) :
    Except ProviderError LogoutClaims :=
  match provider.verify now logoutToken none with
  | .error e => .error e
  | .ok payload =>
      if !hasLogoutEvent payload then .error (.idTokenInvalid "events missing")
      -- A nonce would make it an ID Token.
      else if (payload "nonce").isSome then .error (.idTokenInvalid "nonce present")
      else
        match payload.string? "sid" with
        | none => .error (.idTokenInvalid "sid missing")
        | some sid =>
            match firstAudience payload with
            | none => .error (.idTokenInvalid "aud missing")
            | some audience => .ok ⟨sid, audience⟩

variable {provider : OidcProvider jose} {now : Int} {key : jose.Key} {options : SignOptions}

theorem verify_sign {audience : Option String} {payload : JWTPayload}
    (h : provider.verify now (signJwt jose key options) audience = .ok payload) :
    Accepted ⟨provider.issuer, audience, now, defaultClockTolerance⟩ options.payload ∧
      payload = options.payload := by
  unfold verify at h
  split at h
  · next verified hverified =>
      cases h
      exact verifyJwtWithSource_sign hverified
  all_goals cases h

/-- An accepted ID Token names the client among its audiences and carries the
    nonce. -/
theorem verifyIdToken_sign {clientId expectedNonce : String} {payload : JWTPayload}
    (h : provider.verifyIdToken now (signJwt jose key options) clientId expectedNonce =
      .ok payload) :
    Accepted ⟨provider.issuer, some clientId, now, defaultClockTolerance⟩ options.payload ∧
      options.payload "nonce" = some (.string expectedNonce) := by
  unfold verifyIdToken at h
  split at h
  · cases h
  · next payload' hverified =>
      rcases verify_sign hverified with ⟨haccepted, rfl⟩
      refine ⟨haccepted, ?_⟩
      by_contra hnonce
      rw [if_pos hnonce] at h
      cases h

/-- A verified ID Token carries the nonce. -/
theorem verifyIdToken_nonce {idToken : jose.Token} {clientId expectedNonce : String}
    {payload : JWTPayload}
    (h : provider.verifyIdToken now idToken clientId expectedNonce = .ok payload) :
    payload "nonce" = some (.string expectedNonce) := by
  unfold verifyIdToken at h
  split at h
  · cases h
  · next payload' _ =>
      by_cases hnonce : payload' "nonce" = some (.string expectedNonce)
      · rw [if_neg (not_not.mpr hnonce)] at h
        split at h
        · cases h
        · exact Except.ok.inj h ▸ hnonce
      · rw [if_pos hnonce] at h
        cases h

/-- An accepted logout token has the event. -/
theorem verifyLogoutToken_sign {claims : LogoutClaims}
    (h : provider.verifyLogoutToken now (signJwt jose key options) = .ok claims) :
    hasLogoutEvent options.payload = true := by
  unfold verifyLogoutToken at h
  split at h
  · cases h
  · next payload' hverified =>
      rcases verify_sign hverified with ⟨_, rfl⟩
      by_contra hevent
      rw [if_pos (by simpa using hevent)] at h
      cases h

end OidcProvider

end Sandbox.Web
