import Mathlib.Data.List.Basic

/-!
# Signed Tokens

A token carries a payload: claims by name, each a JSON value. Signing and
checking are a library's work, and what it documents is all that is assumed
of it: a token it accepts has a payload signed with one of the keys, with
the expected issuer, an expected audience among its audiences, and within
its time.

## Main definitions

* `Claim`, `JWTPayload`: JSON values and payloads.
* `VerifyOptions`, `Accepted`: What a check expects of a payload.
* `isAccepted`: The same, computed.
* `Jose`, `openJose`: The library, and one that hides nothing.
* `signJwt`, `verifyJwt`, `verifyJwtWithSource`: The functions over it.

## Theorems

* `payload_iss` and the theorems after it: What a signed payload says.
* `verifyJwt_sign`, `verifyJwtWithSource_sign`: A payload that is accepted is
  one that meets the expectations, and is handed on as it was signed.
* `verifyJwt_accepted`, `verifyJwtWithSource_accepted`: And one that meets
  them is accepted.
-/

namespace Sandbox

/-- A JSON value, as far as claims of this system have them. An object is
    known by its keys. -/
inductive Claim where
  | string (text : String)
  | number (value : Int)
  | boolean (value : Bool)
  | strings (items : List String)
  | object (keys : List String)
  deriving DecidableEq

/-- The claims of a token. -/
abbrev JWTPayload : Type := String → Option Claim

/-- An object made of claims, where a later one of the same name replaces an
    earlier one and an absent one replaces nothing. -/
def spread : List (String × Option Claim) → JWTPayload
  | [], _ => none
  | (name, value) :: rest, n =>
      match spread rest n with
      | some later => some later
      | none => if n = name then value else none

/-- A claim that is a string. -/
def JWTPayload.string? (payload : JWTPayload) (name : String) : Option String :=
  match payload name with
  | some (.string text) => some text
  | _ => none

/-- The audiences that an `aud` claim names. -/
def Claim.audiences : Claim → List String
  | .string text => [text]
  | .strings items => items
  | _ => []

/-- `SignOptions` -/
structure SignOptions where
  issuer : String
  audience : Claim
  subject : String
  issuedAt : Int
  expiresAt : Int
  claims : List (String × Option Claim)

/-- The payload that `signJwt` signs. -/
def SignOptions.payload (options : SignOptions) : JWTPayload :=
  spread (options.claims ++
    [("iss", some (.string options.issuer)), ("aud", some options.audience),
      ("sub", some (.string options.subject)), ("iat", some (.number options.issuedAt)),
      ("exp", some (.number options.expiresAt))])

/-- `VerifyOptions`, with the time of the clock. -/
structure VerifyOptions where
  issuer : String
  /-- Absent if the audience is checked elsewhere. -/
  audience : Option String
  now : Int
  clockTolerance : Int

/-- What the standard checks expect of a payload. -/
structure Accepted (options : VerifyOptions) (payload : JWTPayload) : Prop where
  iss : payload "iss" = some (.string options.issuer)
  aud : ∀ audience, options.audience = some audience →
    ∃ claim, payload "aud" = some claim ∧ audience ∈ claim.audiences
  exp : ∀ claim, payload "exp" = some claim →
    ∃ t, claim = .number t ∧ options.now - options.clockTolerance < t
  nbf : ∀ claim, payload "nbf" = some claim →
    ∃ t, claim = .number t ∧ t ≤ options.now + options.clockTolerance

/-- `VerifyError` and `JwksError` -/
inductive VerifyError where
  | expired
  | invalidToken (reason : String)
  | jwksUnavailable (reason : String)
  deriving DecidableEq

/-- The standard checks, computed. -/
def isAccepted (options : VerifyOptions) (payload : JWTPayload) : Bool :=
  payload "iss" = some (.string options.issuer) &&
    (match options.audience with
      | none => true
      | some audience => ((payload "aud").map (·.audiences)).any (audience ∈ ·)) &&
    -- A claim of another type is refused, a missing one is not.
    (match payload "exp" with
      | none => true
      | some (.number t) => options.now - options.clockTolerance < t
      | some _ => false) &&
    (match payload "nbf" with
      | none => true
      | some (.number t) => t ≤ options.now + options.clockTolerance
      | some _ => false)

theorem isAccepted_iff {options : VerifyOptions} {payload : JWTPayload} :
    isAccepted options payload = true ↔ Accepted options payload := by
  unfold isAccepted
  simp only [Bool.and_eq_true, decide_eq_true_eq]
  constructor
  -- A claim that is there has to have the right form, and to pass.
  · rintro ⟨⟨⟨hiss, haud⟩, hexp⟩, hnbf⟩
    refine ⟨hiss, fun audience ha => ?_, fun claim hclaim => ?_, fun claim hclaim => ?_⟩
    · rw [ha] at haud
      cases hclaim : payload "aud" with
      | none => simp [hclaim] at haud
      | some claim => exact ⟨claim, rfl, by simpa [hclaim] using haud⟩
    · rw [hclaim] at hexp
      cases claim with
      | number t => exact ⟨t, rfl, by simpa using hexp⟩
      | _ => cases hexp
    · rw [hclaim] at hnbf
      cases claim with
      | number t => exact ⟨t, rfl, by simpa using hnbf⟩
      | _ => cases hnbf
  · intro h
    refine ⟨⟨⟨h.iss, ?_⟩, ?_⟩, ?_⟩
    · cases ha : options.audience with
      | none => rfl
      | some audience =>
          rcases h.aud audience ha with ⟨claim, hclaim, hmem⟩
          simpa [hclaim] using hmem
    · cases hclaim : payload "exp" with
      | none => rfl
      | some claim =>
          rcases h.exp claim hclaim with ⟨t, rfl, ht⟩
          simpa using ht
    · cases hclaim : payload "nbf" with
      | none => rfl
      | some claim =>
          rcases h.nbf claim hclaim with ⟨t, rfl, ht⟩
          simpa using ht

/-- The library that signs and checks. A key is known by its `kid`. -/
structure Jose where
  Key : Type
  Token : Type
  kid : Key → String
  sign : Key → JWTPayload → Token
  readJwtKid : Token → Option String
  jwtVerify : Token → List Key → VerifyOptions → Except VerifyError JWTPayload
  readJwtKid_sign (key : Key) (payload : JWTPayload) :
    readJwtKid (sign key payload) = some (kid key)
  of_jwtVerify {key : Key} {payload verified : JWTPayload} {keys : List Key}
    {options : VerifyOptions} (h : jwtVerify (sign key payload) keys options = .ok verified) :
    Accepted options payload ∧ verified = payload
  jwtVerify_of {key : Key} {payload : JWTPayload} {keys : List Key} {options : VerifyOptions}
    (hkey : key ∈ keys) (hkids : (keys.map kid).Nodup) (h : Accepted options payload) :
    jwtVerify (sign key payload) keys options = .ok payload

/-- A library whose tokens show their key and payload. -/
def openJose : Jose where
  Key := String
  Token := String × JWTPayload
  kid key := key
  sign key payload := (key, payload)
  readJwtKid token := some token.1
  jwtVerify token keys options :=
    if token.1 ∈ keys ∧ isAccepted options token.2 then .ok token.2
    else .error (.invalidToken "unexpected claim value")
  readJwtKid_sign _ _ := rfl
  of_jwtVerify h := by
    split at h
    · next hok =>
        cases h
        exact ⟨isAccepted_iff.mp hok.2, rfl⟩
    · cases h
  jwtVerify_of hkey _ h := if_pos ⟨hkey, isAccepted_iff.mpr h⟩

variable {jose : Jose}

/-- `signJwt` -/
def signJwt (jose : Jose) (key : jose.Key) (options : SignOptions) : jose.Token :=
  jose.sign key options.payload

/-- `DEFAULT_CLOCK_TOLERANCE_SECONDS` -/
def defaultClockTolerance : Int := 30

/-- `verifyJwt`, with the default tolerance as all its callers use it. -/
def verifyJwt (jose : Jose) (token : jose.Token) (jwks : List jose.Key) (issuer : String)
    (audience : Option String) (now : Int) : Except VerifyError JWTPayload :=
  jose.jwtVerify token jwks ⟨issuer, audience, now, defaultClockTolerance⟩

/-- `JwksSource`: the keys, fetched again or not, or why there are none. -/
abbrev JwksSource (jose : Jose) : Type := Bool → Except String (List jose.Key)

/-- `hasKid` -/
def hasKid (jose : Jose) (jwks : List jose.Key) (kid : String) : Bool :=
  jwks.any fun key => jose.kid key = kid

/-- `verifyJwtWithSource` -/
def verifyJwtWithSource (jose : Jose) (token : jose.Token) (source : JwksSource jose)
    (issuer : String) (audience : Option String) (now : Int) :
    Except VerifyError JWTPayload :=
  match jose.readJwtKid token with
  | none => .error (.invalidToken "kid missing")
  | some kid =>
      match source false with
      | .error reason => .error (.jwksUnavailable reason)
      | .ok cached =>
          -- An unknown key id asks the source once for newer keys.
          match if hasKid jose cached kid then .ok cached else source true with
          | .error reason => .error (.jwksUnavailable reason)
          | .ok jwks => verifyJwt jose token jwks issuer audience now

section Payload

theorem spread_append (claims more : List (String × Option Claim)) (n : String) :
    spread (claims ++ more) n = (spread more n).or (spread claims n) := by
  induction claims with
  | nil => simp [spread]
  | cons claim rest ih =>
      rcases claim with ⟨name, value⟩
      simp only [List.cons_append, spread, ih]
      -- A later claim of the same name wins.
      cases spread more n with
      | none => simp
      | some later => simp

variable (options : SignOptions)

theorem payload_iss : options.payload "iss" = some (.string options.issuer) := by
  simp [SignOptions.payload, spread_append, spread]

theorem payload_aud : options.payload "aud" = some options.audience := by
  simp [SignOptions.payload, spread_append, spread]

theorem payload_sub : options.payload "sub" = some (.string options.subject) := by
  simp [SignOptions.payload, spread_append, spread]

theorem payload_exp : options.payload "exp" = some (.number options.expiresAt) := by
  simp [SignOptions.payload, spread_append, spread]

/-- The other claims are those that were passed. -/
theorem payload_claim {name : String} (h : name ∉ ["iss", "aud", "sub", "iat", "exp"]) :
    options.payload name = spread options.claims name := by
  simp only [List.mem_cons, List.not_mem_nil, or_false, not_or] at h
  simp [SignOptions.payload, spread_append, spread, h]

end Payload

section Verification

variable {key : jose.Key} {options : SignOptions} {issuer : String} {audience : Option String}
  {now : Int} {verified : JWTPayload}

theorem verifyJwt_sign {jwks : List jose.Key}
    (h : verifyJwt jose (signJwt jose key options) jwks issuer audience now = .ok verified) :
    Accepted ⟨issuer, audience, now, defaultClockTolerance⟩ options.payload ∧
      verified = options.payload :=
  jose.of_jwtVerify h

theorem verifyJwtWithSource_sign {source : JwksSource jose}
    (h : verifyJwtWithSource jose (signJwt jose key options) source issuer audience now =
      .ok verified) :
    Accepted ⟨issuer, audience, now, defaultClockTolerance⟩ options.payload ∧
      verified = options.payload := by
  unfold verifyJwtWithSource at h
  split at h
  · cases h
  · split at h
    · cases h
    · split at h
      · cases h
      · exact verifyJwt_sign h

theorem verifyJwt_accepted {jwks : List jose.Key} (hkey : key ∈ jwks)
    (hkids : (jwks.map jose.kid).Nodup)
    (h : Accepted ⟨issuer, audience, now, defaultClockTolerance⟩ options.payload) :
    verifyJwt jose (signJwt jose key options) jwks issuer audience now =
      .ok options.payload :=
  jose.jwtVerify_of hkey hkids h

/-- A source that has the key accepts what meets the expectations. -/
theorem verifyJwtWithSource_accepted {source : JwksSource jose} {jwks : List jose.Key}
    (hsource : source false = .ok jwks) (hkey : key ∈ jwks) (hkids : (jwks.map jose.kid).Nodup)
    (h : Accepted ⟨issuer, audience, now, defaultClockTolerance⟩ options.payload) :
    verifyJwtWithSource jose (signJwt jose key options) source issuer audience now =
      .ok options.payload := by
  have hkid : hasKid jose jwks (jose.kid key) = true :=
    List.any_eq_true.mpr ⟨key, hkey, decide_eq_true rfl⟩
  unfold verifyJwtWithSource
  simp only [signJwt, jose.readJwtKid_sign, hsource, hkid, if_true]
  exact verifyJwt_accepted hkey hkids h

end Verification

end Sandbox
