import Sandbox.Interleave.Pool
import Sandbox.Shared.SessionExpiry
import Sandbox.Shared.Text
import Sandbox.Ttl.Store
import Sandbox.Web.Provider
import Sandbox.Whatwg.Reference

/-!
# The State of a Service's Web Process

A service's web process keeps its users' tokens and gives the browser only
the id of a session. One process serves one service; the tenant is the host a
request comes to, and the keys of the stores are tenant and id with a colon
between.

Answers from outside are the random values, the replies of the authorization
server and of the service's API, and the keys that tokens are checked with.

Events mark the actions that statements about runs speak of. They change
nothing and nothing reads them.

## Main definitions

* `ServiceConfig`, `OidcClientConfig`: A service, and a service at a tenant's
  host.
* `TenantSession`, `PreAuthState`: What is stored.
* `WebState`, `Outside`, `Event`, `WebProg`: The state, answers, events and
  programs.
* `sessionKey`, `sidKey`, `preAuthKey`: The keys.

## Theorems

* `sessionKey_inj`: Keys of tenants whose slugs have no colon tell tenants
  and ids apart.
-/

namespace Sandbox.Web

open Interleave Ttl

/-- A service as the client of the authorization server. -/
structure ServiceConfig where
  clientId : String
  clientSecret : String
  scopes : List String
  /-- The service's API, which is the audience of its Access Tokens. -/
  apiBaseUrl : Whatwg.Url
  name : String
  deriving DecidableEq

/-- A service at the host of a tenant. -/
structure OidcClientConfig extends ServiceConfig where
  tenantSlug : String
  redirectUri : String
  deriving DecidableEq

/-- The browser has the `id`, everything else stays here. -/
structure TenantSession where
  id : String
  tenantSlug : String
  userId : String
  tenantId : String
  sid : String
  email : Option String
  name : Option String
  accessToken : String
  accessTokenExpiresAt : Int
  refreshToken : String
  csrfToken : String
  createdAt : Int
  lastSeenAt : Int
  deriving DecidableEq

/-- A login that waits for its callback. -/
structure PreAuthState where
  state : String
  nonce : String
  codeVerifier : String
  returnTo : String
  deriving DecidableEq

/-- What the token endpoint answers. -/
structure TokenResponse (jose : Jose) where
  accessToken : String
  expiresIn : Int
  idToken : Option jose.Token
  refreshToken : String

/-- What the service's API answers. -/
structure Response where
  status : Nat
  wwwAuthenticate : Option String
  contentType : Option String
  body : String
  deriving DecidableEq

section Policy

/-- Idle limit of half an hour, absolute limit of twelve hours. -/
def tenantExpiry : SessionExpiry where
  idleSeconds := 30 * 60
  absoluteSeconds := 12 * 60 * 60

def preAuthTtl : Int := 30 * 60
/-- An Access Token that lasts no longer than this is refreshed first. -/
def refreshMargin : Int := 60
def refreshLockTtl : Int := 10
def refreshWaitAttempts : Nat := 30

end Policy

namespace TenantSession

def isExpired (session : TenantSession) (now : Int) : Bool :=
  tenantExpiry.isExpired session.createdAt session.lastSeenAt now

def remainingTtl (session : TenantSession) (now : Int) : Int :=
  tenantExpiry.remainingTtl session.createdAt now

def shouldTouch (session : TenantSession) (now : Int) : Bool :=
  SessionExpiry.shouldTouch session.lastSeenAt now

end TenantSession

structure WebState where
  now : Int
  /-- The random values handed out so far. -/
  issued : List String
  sessions : Ttl.Map String TenantSession
  /-- From a `sid` to the keys of its sessions. -/
  sessionsBySid : Sets String String
  preAuth : Ttl.Map String PreAuthState
  refreshLocks : Ttl.Map String String

/-- What comes from outside the process. -/
inductive Outside (jose : Jose)
  | random (value : String)
  | discovered (reply : Except ProviderError String)
  | tokens (reply : Except ProviderError (TokenResponse jose))
  | revoked (reply : Except ProviderError Unit)
  | jwks (source : JwksSource jose)
  | response (response : Response)
  | none

/-- What a run can be asked about. -/
inductive Event
  | preAuthStored (tenantSlug id : String) (preAuth : PreAuthState)
  | preAuthTaken (tenantSlug id : String) (found : Option PreAuthState)
  | codeSent (redirectUri code codeVerifier : String)
  | sessionCreated (session : TenantSession) (claims : JWTPayload)
  | sessionSaved (session : TenantSession)
  | sessionsDestroyed (keys : List String)
  | sessionInContext (tenantSlug : String) (session : TenantSession)
  | lockAsked (key : String) (acquired : Bool)
  | lockFreed (key : String)
  | refreshSent (key refreshToken : String)
  /-- The Access Token and the Refresh Token of the answer, if there is one. -/
  | refreshAnswered (key : String) (tokens : Option (String × String))
  | fetched (url : Whatwg.Url) (accessToken : String) (expired : Bool)

/-- Programs of the process. -/
abbrev WebProg (jose : Jose) : Type → Type 1 := Prog WebState (Outside jose) Event

/-- What the process is configured with. -/
structure WebDeps (jose : Jose) where
  issuer : String
  publicScheme : String
  baseHost : String
  service : ServiceConfig
  /-- `String.prototype.toLowerCase` -/
  toLowerCase : String → String
  computeCodeChallenge : String → String
  /-- The host parser of URLs, and its serializer. -/
  parseHost : List Char → Option String

section Keys

def sessionKey (tenantSlug id : String) : String := tenantSlug ++ ":" ++ id

def sidKey (sid : String) : String := "sid:" ++ sid

def preAuthKey (client : OidcClientConfig) (id : String) : String :=
  client.tenantSlug ++ ":" ++ id

/-- Two texts cut at their first colon. -/
theorem append_colon_inj {a b x y : List Char} (ha : ':' ∉ a) (hb : ':' ∉ b)
    (h : a ++ ':' :: x = b ++ ':' :: y) : a = b ∧ x = y := by
  -- The first colon of both sides is at the same place.
  induction a generalizing b with
  | nil =>
      cases b with
      | nil => exact ⟨rfl, (List.cons.inj h).2⟩
      | cons c b => exact absurd (List.cons.inj h).1 fun heq => hb (heq ▸ List.mem_cons_self)
  | cons c a ih =>
      cases b with
      | nil => exact absurd (List.cons.inj h).1.symm fun heq => ha (heq ▸ List.mem_cons_self)
      | cons d b =>
          rcases List.cons.inj h with ⟨rfl, htail⟩
          rcases ih (fun hm => ha (List.mem_cons_of_mem _ hm))
            (fun hm => hb (List.mem_cons_of_mem _ hm)) htail with ⟨rfl, rfl⟩
          exact ⟨rfl, rfl⟩

/-- Keys of tenants whose slugs have no colon tell tenants and ids apart,
    whatever the ids are. -/
theorem sessionKey_inj {slug slug' id id' : String} (h : ':' ∉ slug.toList)
    (h' : ':' ∉ slug'.toList) (heq : sessionKey slug id = sessionKey slug' id') :
    slug = slug' ∧ id = id' := by
  have hlist := congrArg String.toList heq
  simp only [sessionKey, String.toList_append, List.append_assoc] at hlist
  rcases append_colon_inj h h' hlist with ⟨hslug, hid⟩
  exact ⟨String.toList_inj.mp hslug, String.toList_inj.mp hid⟩

end Keys

section Stores

def sessions : Store WebState String TenantSession where
  now := WebState.now
  entries := WebState.sessions
  replace m s := { s with sessions := m }

def sessionsBySid : SetStore WebState String String where
  now := WebState.now
  entries := WebState.sessionsBySid
  replace m s := { s with sessionsBySid := m }

def preAuth : Store WebState String PreAuthState where
  now := WebState.now
  entries := WebState.preAuth
  replace m s := { s with preAuth := m }

def refreshLocks : Store WebState String String where
  now := WebState.now
  entries := WebState.refreshLocks
  replace m s := { s with refreshLocks := m }

end Stores

section Primitives

variable {jose : Jose}

def nowSeconds : WebProg jose Int := .read (·.now)

/-- A random value that was not handed out before. `randomToken()` makes 32
    bytes. -/
def randomToken : WebProg jose String :=
  .ask fun i s =>
    match i with
    | .random v =>
        if isBase64Url 32 v = true ∧ v ∉ s.issued then
          some (v, { s with issued := v :: s.issued })
        else none
    | _ => none

/-- Wait. Only time passes. -/
def sleep : WebProg jose Unit := .write fun s => s

end Primitives

end Sandbox.Web
