import Sandbox.Auth.Calls
import Sandbox.Interleave.Sequential

/-!
# A Small Installation

One service, one tenant and one user, with the values that runs of the server
on them draw. The digests are those of the values in `digests`; any other
value keeps a digest of its own, so that different values never meet.

## Main definitions

* `tableKey`: Digests given by a table.
* `smallDeps`, `smallIdentity`: The installation.
* `turns`, `loginMoves`, `authorizeMoves`, `exchangeMoves`, `refreshMoves`:
  Parts of schedules.

## Theorems

* `tableKey_injective`: Different values have different digests.
-/

namespace Sandbox.Auth

open Interleave Ttl

section Digests

/-- The digest a table gives a value. What is not in the table is marked. -/
def tableKey : List (String × String) → String → String
  | [], value => "#" ++ value
  | (v, digest) :: table, value => if value = v then digest else tableKey table value

/-- A digest of a table is in it or marked. -/
theorem tableKey_cases (table : List (String × String)) (value : String) :
    tableKey table value ∈ table.map (·.2) ∨ tableKey table value = "#" ++ value := by
  induction table with
  | nil => exact .inr rfl
  | cons entry table ih =>
      rcases entry with ⟨v, digest⟩
      rw [tableKey, List.map_cons, List.mem_cons]
      split
      · exact .inl (.inl rfl)
      · exact ih.imp .inr id

/-- A table without repetitions and without marked digests keeps values
    apart. -/
theorem tableKey_injective {table : List (String × String)} (hnodup : (table.map (·.2)).Nodup)
    (hmark : ∀ digest ∈ table.map (·.2), digest.toList.head? ≠ some '#') :
    Function.Injective (tableKey table) := by
  -- A value outside of the table gets a mark that no digest has.
  have hmarked : ∀ value : String, ("#" ++ value).toList.head? = some '#' := by
    intro value
    rw [String.toList_append]
    rfl
  induction table with
  | nil =>
      intro a b hab
      exact (String.append_right_inj "#").mp hab
  | cons entry table ih =>
      rcases entry with ⟨v, digest⟩
      simp only [List.map_cons, List.nodup_cons] at hnodup
      simp only [List.map_cons, List.mem_cons, forall_eq_or_imp] at hmark
      -- The rest of the table never answers the digest of this entry.
      have hother : ∀ value, tableKey table value ≠ digest := by
        intro value heq
        rcases tableKey_cases table value with hmem | hval
        · exact hnodup.1 (heq ▸ hmem)
        · exact hmark.1 (heq ▸ hval ▸ hmarked value)
      intro a b hab
      rw [tableKey, tableKey] at hab
      split at hab
      · next ha =>
          split at hab
          · next hb => exact ha.trans hb.symm
          · exact absurd hab.symm (hother b)
      · split at hab
        · exact absurd hab (hother a)
        · exact ih hnodup.2 hmark.2 hab

/-- The digests of the values that the runs of the small installation draw. -/
def digests : List (String × String) :=
  [("pending-1-00000000000000000000000000000000A", "W49zWJalDYNrqoO0M7EYn21bBFey5f3aJZM7n_QNh2M"),
   ("pending-2-00000000000000000000000000000000A", "E5QEaQfkbbTqJBSEac76QtqeVG2bmIBe7aL7y6BjBTo"),
   ("cookie-1-000000000000000000000000000000000A", "ydY7cyMgppl-eCQJOMMiCWxjYdV3dbFFovAQ2dU1DXk"),
   ("cookie-2-000000000000000000000000000000000A", "yb1-EZSvxxiUylQdc8Xsuwkh422VK4WUF0AhJPgbuts"),
   ("rid-1-000000000000000000000000000000000000A", "mVGGBHhGCLr8KIOI0vFnXbVxckJuTnwphVDFFy8oCx4"),
   ("code-1-00000000000000000000000000000000000A", "q4KAQvljItyqJZLa2DGLj4PNfOcTiJynkSRjeYNPr-Q"),
   ("refresh-1-00000000000000000000000000000000A", "n8uzl44H_TJt4oBhYottEEZ-TG1mWtsg88jS_tTJs94"),
   ("refresh-2-00000000000000000000000000000000A", "09juvXlDyij_9EzQREEDjz-HkFBVvb65ggvk36LLk14"),
   ("dBjftJeZ4CVP-mB92K27uhbUJU1p1r_wW1gFWFOEjXk", "E9Melhoa2OwvFrEMTJguCHaoeK1t8URWbuGJSstw-cM"),
   ("crm-secret", "DZrMSRDqNdPJqi0LEVDJBK2C01JR-aT9MPB1yLcXiXc")]

end Digests

section Values

def pendingId1 : String := "pending-1-00000000000000000000000000000000A"
def pendingId2 : String := "pending-2-00000000000000000000000000000000A"
def cookie1 : String := "cookie-1-000000000000000000000000000000000A"
def cookie2 : String := "cookie-2-000000000000000000000000000000000A"
def sid1 : String := "sid-1-000000000000000000000000000000000000A"
def sid2 : String := "sid-2-000000000000000000000000000000000000A"
def rid1 : String := "rid-1-000000000000000000000000000000000000A"
def code1 : String := "code-1-00000000000000000000000000000000000A"
def refresh1 : String := "refresh-1-00000000000000000000000000000000A"
def refresh2 : String := "refresh-2-00000000000000000000000000000000A"
def family1 : String := "family-1-000000000000A"
def jti1 : String := "jti-1-000000000000000A"
def jti2 : String := "jti-2-000000000000000A"
def verifier : String := "dBjftJeZ4CVP-mB92K27uhbUJU1p1r_wW1gFWFOEjXk"

/-- The one sealed value, and what is in it. -/
def sealedTokens : String := "v1.sealed"
def cognitoTokens : CognitoTokens := ⟨"cognito-access", "cognito-id", "cognito-refresh", 4600⟩

def smallDeps : Deps where
  issuer := "https://auth.localhost"
  keyOf := tableKey digests
  computeCodeChallenge := tableKey digests
  verifySecret secret stored := stored = "sha256$" ++ tableKey digests secret
  sealCognitoTokens _ _ := sealedTokens
  unsealCognitoTokens text := if text = sealedTokens then some cognitoTokens else none
  sealSecret _ secret := secret
  unsealSecret text := some text
  lower text := String.ofList (text.toList.map Char.toLower)

theorem smallDeps_keyOf_injective : Function.Injective smallDeps.keyOf :=
  tableKey_injective (by decide +kernel) (by decide +kernel)

def crm : OidcClient where
  id := "01J00000000000000000000CRM"
  clientId := "crm"
  audience := "crm-api"
  redirectUriTemplate := "https://\x7btenant\x7d.crm.localhost/auth/callback"
  secretHashes := ["sha256$DZrMSRDqNdPJqi0LEVDJBK2C01JR-aT9MPB1yLcXiXc"]
  allowedScopes := ["openid"]
  status := .active
  backchannelLogoutUri := some "https://crm.localhost/auth/backchannel-logout"

def alice : User where
  id := "01J0000000000000000000USER"
  cognitoSub := some "alice-sub"
  email := "alice@example.com"
  name := none
  status := .active

def acme : Tenant := ⟨"01J0000000000000000000ACME", "acme", .active⟩

def smallIdentity : Identity where
  users := [alice]
  tenants := [acme]
  clients := [crm]
  contracts := [⟨acme.id, crm.id, .active⟩]
  memberships := [⟨acme.id, crm.id, alice.id, .active⟩]
  mfaMethods := []

def smallStart : State := State.start 1000 smallIdentity

def callback : String := "https://acme.crm.localhost/auth/callback"

def browser : RequestEnvironment := ⟨"127.0.0.1", "Firefox"⟩

def crmParams : RawParams where
  clientId := some "crm"
  redirectUri := some callback
  responseType := some "code"
  state := some "state"
  nonce := some "nonce"
  codeChallengeMethod := some "S256"
  codeChallenge := some "E9Melhoa2OwvFrEMTJguCHaoeK1t8URWbuGJSstw-cM"
  scope := some "openid"

end Values

section Schedules

abbrev Moves : Type := List (Move Outside AuthCall Change)

/-- A number of steps of one thread that need nothing from outside. -/
def turns (index count : Nat) : Moves :=
  List.replicate count (.run index (.ulid ""))

/-- A login with a password and a code, by two calls from an index on. -/
def loginMoves (index : Nat) (pendingId cookieValue sid : String) : Moves :=
  [.spawn (.postLogin ⟨"alice@example.com", "password"⟩ browser ""),
    .run index (.authenticated (.ok (.totpRequired "session" "alice"))),
    .run index (.random pendingId)] ++ turns index 1 ++
  [.spawn (.postChallenge pendingId "123456" none browser)] ++ turns (index + 1) 1 ++
  [.run (index + 1) (.totp (.ok ⟨"alice-sub", "alice@example.com", none, cognitoTokens⟩))] ++
  turns (index + 1) 5 ++
  [.run (index + 1) (.random cookieValue), .run (index + 1) (.random sid),
    .run (index + 1) (.random "iv")] ++ turns (index + 1) 6 ++
  [.run (index + 1) (.audit "event" true)]

/-- A code is issued under a session. -/
def authorizeMoves (index : Nat) (cookieValue code : String) : Moves :=
  [.spawn (.authorize crmParams (some cookieValue) browser)] ++ turns index 9 ++
  [.run index (.random code)] ++ turns index 7

/-- A code is exchanged. -/
def exchangeMoves (index : Nat) (code familyId refreshToken jti : String) : Moves :=
  [.spawn (.exchange "crm" "crm-secret" ⟨code, callback, verifier⟩)] ++ turns index 8 ++
  [.run index (.random familyId), .run index (.random refreshToken)] ++ turns index 5 ++
  [.run index (.random jti)] ++ turns index 2

/-- A refresh token is exchanged for the next. -/
def refreshMoves (index : Nat) (old new jti : String) : Moves :=
  [.spawn (.refresh "crm" "crm-secret" old)] ++ turns index 12 ++
  [.run index (.random new)] ++ turns index 3 ++ [.run index (.random jti)] ++ turns index 1

/-- A login, a code and its exchange, by four calls. -/
def firstTokenMoves : Moves :=
  loginMoves 0 pendingId1 cookie1 sid1 ++ authorizeMoves 2 cookie1 code1 ++
    exchangeMoves 3 code1 family1 refresh1 jti1

end Schedules

section Turns

abbrev AuthTurns : Type := List (Turn Outside AuthCall Change)

/-- A login with a password and a code. -/
def loginTurns (pendingId cookieValue sid : String) (cookie : Option String) : AuthTurns :=
  [.call (.postLogin ⟨"alice@example.com", "password"⟩ browser "")
      [.authenticated (.ok (.totpRequired "session" "alice")), .random pendingId],
    .call (.postChallenge pendingId "123456" cookie browser)
      [.totp (.ok ⟨"alice-sub", "alice@example.com", none, cognitoTokens⟩), .random cookieValue,
        .random sid, .random "iv", .audit "event" true]]

/-- A code is issued under a session. -/
def authorizeTurn (cookieValue code : String) : Turn Outside AuthCall Change :=
  .call (.authorize crmParams (some cookieValue) browser) [.random code, .audit "event" true]

/-- A code is exchanged. -/
def exchangeTurn (code familyId refreshToken jti : String) : Turn Outside AuthCall Change :=
  .call (.exchange "crm" "crm-secret" ⟨code, callback, verifier⟩)
    [.random familyId, .random refreshToken, .random jti]

/-- A refresh token is exchanged for the next. -/
def refreshTurn (old new jti : String) : Turn Outside AuthCall Change :=
  .call (.refresh "crm" "crm-secret" old) [.random new, .random jti]

/-- A login, a code and its exchange. -/
def firstTokenTurns : AuthTurns :=
  loginTurns pendingId1 cookie1 sid1 none ++
    [authorizeTurn cookie1 code1, exchangeTurn code1 family1 refresh1 jti1]

end Turns

end Sandbox.Auth
