import Sandbox.Interleave.Pool
import Sandbox.Web.ApiClient

/-!
# The Routes of the Web Process

What a request to the web process runs. All routes but the back-channel
logout begin with `tenantContext`, which finds the tenant by the `Host` of the
request and the session by its cookie, so every other route is given a
client and perhaps a session.

A request carries the values of its cookies as they were sent. The values a
browser is told to keep are part of the answer.

## Main definitions

* `resolveClient`, `resolveClientById`: From a host or an id to a client.
* `tenantContext`: What every request of a tenant's host begins with.
* `login`, `callback`, `logout`, `sessionInfo`, `proxy`, `backchannel`: The
  routes.
* `WebCall`, `webSystem`: All requests of a process.

## Theorems

* `resolveClient_slug`, `resolveClient_service`: What a resolved client is.
-/

namespace Sandbox.Web

open Interleave Ttl

variable {jose : Jose}

section Clients

variable (deps : WebDeps jose)

/-- `resolveClient` of `createClientResolvers` -/
def resolveClient (host : Option String) : Option OidcClientConfig :=
  match host with
  | none => none
  | some host =>
      let lower := deps.toLowerCase host
      let suffix := "." ++ deps.toLowerCase deps.baseHost
      -- The Host is the slug, a dot and the base host.
      if !suffix.toList.isSuffixOf lower.toList then none
      else
        let slug := lower.toList.take (lower.toList.length - suffix.toList.length)
        if !isSlug slug then none
        else some
          { deps.service with
            tenantSlug := String.ofList slug
            redirectUri := deps.publicScheme ++ "://" ++ lower ++ "/auth/callback" }

/-- `resolveClientById` of `createClientResolvers` -/
def resolveClientById (clientId : String) : Option ServiceConfig :=
  if clientId = deps.service.clientId then some deps.service else none

variable {deps} {host : Option String} {client : OidcClientConfig}

/-- A resolved client is the service at a host whose first label is a slug. -/
theorem resolveClient_eq_some (h : resolveClient deps host = some client) :
    ∃ lower slug, isSlug slug = true ∧ client = { deps.service with
      tenantSlug := String.ofList slug
      redirectUri := deps.publicScheme ++ "://" ++ lower ++ "/auth/callback" } := by
  unfold resolveClient at h
  split at h
  · cases h
  · next host =>
      dsimp only at h
      split at h
      · cases h
      · split at h
        · cases h
        · next hslug =>
            refine ⟨_, _, ?_, (Option.some.inj h).symm⟩
            simpa using hslug

theorem resolveClient_slug (h : resolveClient deps host = some client) :
    isSlug client.tenantSlug.toList = true := by
  rcases resolveClient_eq_some h with ⟨lower, slug, hslug, rfl⟩
  show isSlug (String.ofList slug).toList = true
  rwa [String.toList_ofList]

theorem resolveClient_service (h : resolveClient deps host = some client) :
    client.toServiceConfig = deps.service := by
  rcases resolveClient_eq_some h with ⟨_, _, _, rfl⟩
  rfl

end Clients

section Answers

/-- What becomes of a cookie. -/
inductive CookieChange
  | keep
  | clear
  | write (value : String)
  deriving DecidableEq

/-- What the page needs of a session. Tokens stay here. -/
structure SessionUser where
  id : String
  email : Option String
  name : Option String
  csrfToken : String
  deriving DecidableEq

inductive Reply
  /-- To the authorization endpoint with these parameters. -/
  | authorize (endpoint : String) (parameters : List (String × String))
  | redirect (location : String)
  | page (title message : String) (status : Nat)
  | error (error : String) (status : Nat)
  | session (service : ServiceConfig) (tenantSlug : String) (user : Option SessionUser)
  | upstream (status : Nat) (contentType : Option String) (body : String)
  | empty
  deriving DecidableEq

structure Answer where
  reply : Reply
  sessionCookie : CookieChange
  preAuthCookie : CookieChange
  deriving DecidableEq

/-- An answer that leaves the cookies alone. -/
def Reply.only (reply : Reply) : Answer := ⟨reply, .keep, .keep⟩

/-- An answer that clears the cookie of a finished login. -/
def Reply.clearPreAuth (reply : Reply) : Answer := ⟨reply, .keep, .clear⟩

def retryLogin (message : String) (status : Nat) : Reply :=
  .page "ログインをやり直してください" message status

def temporaryError (status : Nat) : Reply :=
  .page "一時的なエラーです" "しばらくしてから再試行してください。" status

def renderTokenError : ProviderError → Reply
  | .invalidGrant => retryLogin "認可コードが無効です。" 401
  | .invalidClient => temporaryError 500
  | _ => temporaryError 503

def renderAuthorizationError (client : OidcClientConfig) (error : String)
    (description : Option String) : Reply :=
  if error ≠ "access_denied" then
    .page "ログインに失敗しました" "サービスからやり直してください。" 400
  else if description = some "not_contracted" then
    .page "このサービスは契約されていません"
      ("テナント " ++ client.tenantSlug ++ " は " ++ client.name ++
        " を契約していません。契約状況を確認してください。") 403
  else if description = some "tenant_suspended" then
    .page "テナントは利用停止中です" "管理者に確認してください。" 403
  else
    .page "アクセス権がありません"
      ("テナント " ++ client.tenantSlug ++
        " へのアクセス権がありません。管理者に招待を依頼してください。") 403

end Answers

section Context

/-- What a request of a tenant's host is handled with. -/
structure TenantContext where
  client : OidcClientConfig
  session : Option TenantSession

/-- The session of a cookie, touched. -/
def contextSession (client : OidcClientConfig) (cookie : Option String) :
    WebProg jose (Option TenantSession) := do
  let session ← loadSession client cookie
  match session with
  | none => pure none
  | some session => do
      let touched ← touchSession session
      Prog.emit (.sessionInContext client.tenantSlug touched)
      pure (some touched)

/-- A cookie without a session is cleared, unless it is written anew. -/
def clearStale (session : Option TenantSession) (cookie : Option String) (answer : Answer) :
    Answer :=
  if session.isNone && cookie.isSome && answer.sessionCookie = .keep then
    { answer with sessionCookie := .clear }
  else answer

/-- What comes before every route of a tenant's host. -/
def tenantContext (deps : WebDeps jose) (host cookie : Option String)
    (next : TenantContext → WebProg jose Answer) : WebProg jose Answer :=
  match resolveClient deps host with
  | none => pure (Reply.only
      (.page "不明なテナントです" "このホストは登録されていません。" 400))
  | some client => do
      let session ← contextSession client cookie
      let answer ← next ⟨client, session⟩
      pure (clearStale session cookie answer)

end Context

section Login

/-- A character of `CONTROL_CHARACTERS`. -/
def isControlCharacter (c : Char) : Bool := c.toNat ≤ 0x1f || c.toNat == 0x7f

/-- Only an absolute path of the same host is a place to return to. -/
def sanitizeReturnTo (value : Option String) : String :=
  match value with
  | none => "/"
  | some value =>
      match value.toList with
      | '/' :: rest =>
          -- `//host`, and what a browser reads as that, is another host.
          if rest.head? = some '/' || rest.any (fun c => c == '\\' || isControlCharacter c) then "/"
          else value
      | _ => "/"

/-- The URL of the authorization endpoint, once it is known. -/
def getDiscovery : WebProg jose (Except ProviderError String) :=
  .ask fun i s =>
    match i with
    | .discovered reply => some (reply, s)
    | _ => none

def authorizationParameters (deps : WebDeps jose) (client : OidcClientConfig)
    (preAuth : PreAuthState) : List (String × String) :=
  [("response_type", "code"), ("client_id", client.clientId),
    ("redirect_uri", client.redirectUri), ("scope", join ' ' client.scopes),
    ("state", preAuth.state), ("nonce", preAuth.nonce),
    ("code_challenge", deps.computeCodeChallenge preAuth.codeVerifier),
    ("code_challenge_method", "S256")]

/-- `/auth/login` -/
def login (deps : WebDeps jose) (returnTo : Option String) (context : TenantContext) :
    WebProg jose Answer := do
  let discovery ← getDiscovery
  match discovery with
  | .error _ => pure (temporaryError 503).only
  | .ok endpoint => do
      -- The cookie gets the id, the authorization server the rest.
      let preAuthId ← randomToken
      let codeVerifier ← randomToken
      let state ← randomToken
      let nonce ← randomToken
      let pending : PreAuthState := ⟨state, nonce, codeVerifier, sanitizeReturnTo returnTo⟩
      preAuth.setLogged (.preAuthStored context.client.tenantSlug preAuthId pending)
        (preAuthKey context.client preAuthId) pending preAuthTtl
      pure ⟨.authorize endpoint (authorizationParameters deps context.client pending), .keep,
        .write preAuthId⟩

/-- The parameters of a callback. -/
structure CallbackQuery where
  state : Option String
  iss : Option String
  error : Option String
  errorDescription : Option String
  code : Option String
  deriving DecidableEq

/-- Present a code to the authorization server. The request is sent first and
    answered later. -/
def exchangeCode (client : OidcClientConfig) (code codeVerifier : String) :
    WebProg jose (Except ProviderError (TokenResponse jose)) := do
  Prog.emit (.codeSent client.redirectUri code codeVerifier)
  .ask fun i s =>
    match i with
    | .tokens reply => some (reply, s)
    | _ => none

/-- The keys the authorization server publishes, as far as they are known. -/
def jwksSource : WebProg jose (JwksSource jose) :=
  .ask fun i s =>
    match i with
    | .jwks source => some (source, s)
    | _ => none

/-- Take the login a cookie names. It can be taken once. -/
def takePreAuth (client : OidcClientConfig) (cookie : Option String) :
    WebProg jose (Option PreAuthState) :=
  match cookie with
  | none => pure none
  | some preAuthId =>
      preAuth.getAndDeleteLogged (.preAuthTaken client.tenantSlug preAuthId)
        (preAuthKey client preAuthId)

/-- The session a browser had before does not outlive a new login. -/
def destroyExisting (client : OidcClientConfig) (cookie : Option String) : WebProg jose Unit := do
  let existing ← loadSession client cookie
  match existing with
  | none => pure ()
  | some existing => destroySession existing

/-- The session of a login whose ID Token has been verified. -/
def enterSession (client : OidcClientConfig) (cookie : Option String) (preAuth : PreAuthState)
    (claims : JWTPayload) (tokens : TokenResponse jose) : WebProg jose Answer :=
  match claims.string? "sub", claims.string? "sid", claims.string? "tenant_id" with
  | some sub, some sid, some tenantId =>
      -- The host decides the tenant, and the ID Token has to name it.
      if claims "tenant_slug" ≠ some (.string client.tenantSlug) then
        pure (retryLogin "テナントが一致しません。" 401).clearPreAuth
      else do
        -- The browser gets a new id, and what it had before is not left behind.
        destroyExisting client cookie
        let session ← createSession claims
          { client := client
            userId := sub
            tenantId := tenantId
            sid := sid
            email := claims.string? "email"
            name := claims.string? "name"
            tokens := tokens }
        pure ⟨.redirect preAuth.returnTo, .write session.id, .clear⟩
  | _, _, _ => pure (retryLogin "認証結果が不完全です。" 401).clearPreAuth

/-- What is done with the tokens of a code. -/
def verifyLogin (deps : WebDeps jose) (client : OidcClientConfig) (cookie : Option String)
    (preAuth : PreAuthState) (tokens : TokenResponse jose) : WebProg jose Answer :=
  match tokens.idToken with
  | none => pure (retryLogin "ID Token がありません。" 401).clearPreAuth
  | some idToken => do
      let source ← jwksSource
      let now ← nowSeconds
      -- The nonce ties the ID Token to the login that was begun here.
      match OidcProvider.verifyIdToken ⟨deps.issuer, source⟩ now idToken client.clientId
          preAuth.nonce with
      | .error _ => pure (retryLogin "認証結果を検証できませんでした。" 401).clearPreAuth
      | .ok claims => enterSession client cookie preAuth claims tokens

/-- What is done with the parameters of a callback and its login. -/
def answerCallback (deps : WebDeps jose) (client : OidcClientConfig) (cookie : Option String)
    (preAuth : PreAuthState) (query : CallbackQuery) : WebProg jose Answer :=
  -- The callback has to belong to the login that was taken.
  if query.state ≠ some preAuth.state then
    pure (retryLogin "ログイン要求が一致しません。" 400).clearPreAuth
  -- `iss` may be missing, but it may not be another issuer's.
  else if query.iss.any (· ≠ deps.issuer) then
    pure (retryLogin "ログイン要求が一致しません。" 400).clearPreAuth
  else
    match query.error with
    | some error =>
        pure (renderAuthorizationError client error query.errorDescription).clearPreAuth
    | none =>
        match query.code with
        | none => pure (retryLogin "認可コードがありません。" 400).clearPreAuth
        | some code =>
            if code = "" then pure (retryLogin "認可コードがありません。" 400).clearPreAuth
            else do
              let tokens ← exchangeCode client code preAuth.codeVerifier
              match tokens with
              | .error e => pure (renderTokenError e).clearPreAuth
              | .ok tokens => verifyLogin deps client cookie preAuth tokens

/-- `/auth/callback` -/
def callback (deps : WebDeps jose) (cookie preAuthCookie : Option String)
    (query : CallbackQuery) (context : TenantContext) : WebProg jose Answer := do
  let preAuth ← takePreAuth context.client preAuthCookie
  -- The login was taken before anything is checked, so it cannot be tried again.
  match preAuth with
  | none => pure (retryLogin "ログイン要求の有効期限が切れています。" 400).clearPreAuth
  | some preAuth => answerCallback deps context.client cookie preAuth query

end Login

section Others

/-- Give a Refresh Token back to the authorization server. -/
def revoke : WebProg jose (Except ProviderError Unit) :=
  .ask fun i s =>
    match i with
    | .revoked reply => some (reply, s)
    | _ => none

/-- `/auth/logout` -/
def logout (csrf : Option String) (context : TenantContext) : WebProg jose Answer :=
  match context.session with
  | none => pure ⟨.redirect "/", .clear, .keep⟩
  | some session =>
      if csrf ≠ some session.csrfToken then
        pure (Reply.only (.page "ページを再読み込みしてください"
          "フォームの有効期限が切れています。" 403))
      else do
        -- The answer makes no difference, the session ends here anyway.
        let _ ← revoke
        destroySession session
        pure ⟨.redirect "/?logged_out=1", .clear, .keep⟩

/-- `/auth/backchannel-logout` -/
def backchannel (deps : WebDeps jose) (logoutToken : Option jose.Token) : WebProg jose Answer :=
  match logoutToken with
  | none => pure (Reply.only (.error "invalid_request" 400))
  | some logoutToken => do
      let source ← jwksSource
      let now ← nowSeconds
      match OidcProvider.verifyLogoutToken ⟨deps.issuer, source⟩ now logoutToken with
      | .error _ => pure (Reply.only (.error "invalid_request" 400))
      | .ok claims =>
          -- The audience has to be this service.
          match resolveClientById deps claims.audience with
          | none => pure (Reply.only (.error "invalid_request" 400))
          | some _ => do
              let _ ← destroySessionsBySid claims.sid
              pure (Reply.only .empty)

/-- `/session` -/
def sessionInfo (context : TenantContext) : WebProg jose Answer :=
  pure (Reply.only (.session context.client.toServiceConfig context.client.tenantSlug
    (context.session.map fun session =>
      ⟨session.userId, session.email, session.name, session.csrfToken⟩)))

/-- A request to be passed on to the API. -/
structure ApiRequest where
  method : String
  /-- The path without the query, as the framework gives it: percent-decoded,
      so that `/api/%5Cb` comes as `/api/\b`. -/
  path : String
  /-- The query with its question mark, or nothing. -/
  search : String
  csrf : Option String
  contentType : Option String

def isSafeMethod (method : String) : Bool :=
  method == "GET" || method == "HEAD" || method == "OPTIONS"

/-- What the path and the query are to the API: `/api` is cut off. -/
def ApiRequest.reference (request : ApiRequest) : List Char :=
  request.path.toList.drop "/api".length ++ request.search.toList

/-- What is passed on has no body, or one of JSON. -/
def ApiRequest.isSupported (request : ApiRequest) : Bool :=
  isSafeMethod request.method ||
    request.contentType.all fun type => "application/json".toList.isPrefixOf type.toList

/-- `/api/*` -/
def proxy (deps : WebDeps jose) (request : ApiRequest) (context : TenantContext) :
    WebProg jose Answer :=
  match context.session with
  | none => pure (Reply.only (.error "unauthenticated" 401))
  | some session =>
      -- A method that writes has to carry the token of the session.
      if !isSafeMethod request.method && request.csrf ≠ some session.csrfToken then
        pure (Reply.only (.error "csrf_mismatch" 403))
      else
        -- `new URL` throws where the reference cannot be read.
        match Whatwg.resolve deps.parseHost context.client.apiBaseUrl request.reference with
        | none => pure (Reply.only (.error "server_error" 500))
        | some url =>
            if !request.isSupported then
              pure (Reply.only (.error "unsupported_media_type" 415))
            else do
              let result ← apiFetch context.client session url
              match result with
              | .error .sessionExpired => pure (Reply.only (.error "unauthenticated" 401))
              | .error (.providerUnavailable _) =>
                  pure (Reply.only (.error "temporarily_unavailable" 503))
              | .ok (response, _) =>
                  pure (Reply.only (.upstream response.status response.contentType response.body))

end Others

section System

/-- A request to the web process, with the cookies it carries. -/
inductive WebCall (jose : Jose)
  | login (host cookie returnTo : Option String)
  | callback (host cookie preAuthCookie : Option String) (query : CallbackQuery)
  | logout (host cookie csrf : Option String)
  | session (host cookie : Option String)
  | api (host cookie : Option String) (request : ApiRequest)
  | backchannel (logoutToken : Option jose.Token)

/-- What a request runs. -/
def respond (deps : WebDeps jose) : WebCall jose → WebProg jose Answer
  | .login host cookie returnTo => tenantContext deps host cookie (login deps returnTo)
  | .callback host cookie preAuthCookie query =>
      tenantContext deps host cookie (callback deps cookie preAuthCookie query)
  | .logout host cookie csrf => tenantContext deps host cookie (logout csrf)
  | .session host cookie => tenantContext deps host cookie sessionInfo
  | .api host cookie request => tenantContext deps host cookie (proxy deps request)
  | .backchannel logoutToken => backchannel deps logoutToken

/-- All requests of a process. Outside them only time passes. -/
def webSystem (deps : WebDeps jose) :
    System WebState (Outside jose) Event (WebCall jose) Nat (fun _ => Answer) where
  body := respond deps
  env seconds s := some { s with now := s.now + seconds }

/-- The stores of a process that has just started. -/
def WebState.start (now : Int) : WebState where
  now := now
  issued := []
  sessions := Ttl.empty
  sessionsBySid := Ttl.empty
  preAuth := Ttl.empty
  refreshLocks := Ttl.empty

end System

end Sandbox.Web
