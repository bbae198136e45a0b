import Sandbox.Web.Retry
import Sandbox.Web.Tenants

/-!
# Where Access Tokens Are Sent

A request to `/api/` is passed on to the service's API together with the
Access Token of its session. The URL it is sent to is the rest of its path,
resolved against the URL of the API, and the rest begins with the slash that
was before it. Another slash makes it a reference that names a host.

The runs here are those of one request with anything happening to the store
in between, so they are its part of every interleaving.

## Main definitions

* `ApiRequest.isPassed`: A request that gets as far as the API.
* `Fetches`: The API is only called at one URL.

## Theorems

* `fetches_apiFetch`: Both attempts of a call are made at the same URL.
* `proxy_confined_iff`: Tokens stay with the API exactly if the path names no
  other host.
-/

namespace Sandbox.Web

open Interleave Ttl

variable {jose : Jose}

/-- A request that is not refused before it is passed on. -/
def ApiRequest.isPassed (request : ApiRequest) (session : TenantSession) : Bool :=
  (isSafeMethod request.method || request.csrf = some session.csrfToken) && request.isSupported

/-- If this is a request to the API, it is one at this URL. -/
def Fetches (url : Whatwg.Url) : Event → Prop
  | .fetched url' _ _ => url' = url
  | _ => True

/-- Any change of the store. -/
abbrev anyChange (_ _ : WebState) : Prop := True

variable {client : OidcClientConfig} {session : TenantSession} {url : Whatwg.Url}

theorem fetches_of_quiet (e : Event) (h : Quiet e) : Fetches url e := by
  cases e with
  | fetched url' accessToken expired => exact absurd h (not_quiet_fetched _ _ _)
  | _ => trivial

theorem fetches_ensureFreshAccessToken (client : OidcClientConfig) (session : TenantSession) :
    Within anyChange (Fetches url) (ensureFreshAccessToken client session : WebProg jose _) :=
  within_mono (quiet_ensureFreshAccessToken client session) (fun _ _ h => h) fetches_of_quiet

theorem fetches_fetch (accessToken : String) :
    Within anyChange (Fetches url) (fetch url accessToken : WebProg jose _) := by
  refine within_act (fun _ _ _ _ _ => trivial) ?_
  rintro response e he
  cases he
  rfl

/-- Both attempts are made at the URL that was asked for. -/
theorem fetches_apiFetch (client : OidcClientConfig) (session : TenantSession) :
    Within anyChange (Fetches url) (apiFetch client session url : WebProg jose _) := by
  refine within_bind (fetches_ensureFreshAccessToken client session) fun fresh => ?_
  cases fresh with
  | error e => exact within_pure _
  | ok fresh =>
      refine within_bind (fetches_fetch _) fun response => ?_
      split
      · exact within_pure _
      · refine within_bind (fetches_ensureFreshAccessToken client _) fun forced => ?_
        cases forced with
        | error e => exact within_pure _
        | ok session => exact within_bind (fetches_fetch _) fun _ => within_pure _

section Proxy

variable {deps : WebDeps jose} {request : ApiRequest}

/-- A request that is passed on is sent to where its path leads. -/
theorem fetches_proxy (h : ∀ url, Whatwg.resolve deps.parseHost client.apiBaseUrl
      request.reference = some url → request.isPassed session = true →
      url.origin = client.apiBaseUrl.origin) :
    Within anyChange
      (fun e => ∀ url accessToken expired, e = .fetched url accessToken expired →
        url.origin = client.apiBaseUrl.origin)
      (proxy deps request ⟨client, some session⟩) := by
  unfold proxy
  dsimp only
  split
  · exact within_pure _
  · next hcsrf =>
      split
      · exact within_pure _
      · next url hurl =>
          split
          · exact within_pure _
          · next hsupported =>
              -- The request passed both checks, so its URL is confined.
              have hpassed : request.isPassed session = true := by
                simp only [ApiRequest.isPassed, Bool.and_eq_true, Bool.or_eq_true,
                  decide_eq_true_eq]
                simp at hcsrf hsupported
                refine ⟨?_, hsupported⟩
                by_cases hsafe : isSafeMethod request.method = true
                · exact .inl hsafe
                · exact .inr (hcsrf (by simpa using hsafe))
              refine within_bind (within_mono (fetches_apiFetch client session)
                (fun _ _ h => h) fun e he => ?_) fun result => ?_
              · rintro url' accessToken expired rfl
                rcases (he : url' = url) with rfl
                exact h url' hurl hpassed
              · split
                all_goals exact within_pure _

/-- A token that lasts is sent at once. -/
theorem alone_apiFetch_intro (url : Whatwg.Url) (s : WebState)
    (hlasts : needsRefresh session s.now = false) :
    ∃ answer, Alone anyChange s (apiFetch client session url : WebProg jose _)
      [.fetched url session.accessToken false] answer s := by
  have hensure : Alone anyChange s (ensureFreshAccessToken client session : WebProg jose _) []
      (.ok session) s := by
    unfold ensureFreshAccessToken
    refine alone_silent_intro (alone_nowSeconds_intro s) ?_
    rw [if_pos (by rw [hlasts]; rfl)]
    exact .done
  have hfetch : Alone anyChange s (fetch url session.accessToken : WebProg jose _)
      [.fetched url session.accessToken false] ⟨200, none, none, ""⟩ s :=
    alone_fetch_intro url session.accessToken ⟨200, none, none, ""⟩ s
  refine ⟨.ok (⟨200, none, none, ""⟩, session), alone_silent_intro hensure ?_⟩
  show Alone anyChange s _ ([] ++ [Event.fetched url session.accessToken false]) _ _
  exact alone_bind_intro hfetch .done

/-- A request that gets as far as the API can be sent there. -/
theorem alone_proxy_intro (hpassed : request.isPassed session = true)
    (hurl : Whatwg.resolve deps.parseHost client.apiBaseUrl request.reference = some url)
    (s : WebState) (hlasts : needsRefresh session s.now = false) :
    ∃ answer, Alone anyChange s (proxy deps request ⟨client, some session⟩)
      [.fetched url session.accessToken false] answer s := by
  rcases Bool.and_eq_true_iff.mp hpassed with ⟨hcsrf, hsupported⟩
  -- A method that is not safe came with the right token.
  have hnot : ¬ ((!isSafeMethod request.method && decide (request.csrf ≠ some session.csrfToken))
      = true) := by
    intro h
    rcases Bool.and_eq_true_iff.mp h with ⟨hforbidden, hother⟩
    rcases Bool.or_eq_true_iff.mp hcsrf with hsafe | hsame
    · rw [hsafe] at hforbidden
      cases hforbidden
    · exact of_decide_eq_true hother (of_decide_eq_true hsame)
  have hcall : ∃ result, Alone anyChange s (apiFetch client session url : WebProg jose _)
      [.fetched url session.accessToken false] result s := alone_apiFetch_intro url s hlasts
  rcases hcall with ⟨result, hfetch⟩
  unfold proxy
  dsimp only
  rw [if_neg hnot, hurl]
  dsimp only
  rw [if_neg (by rw [hsupported]; exact Bool.false_ne_true)]
  refine alone_answer_intro hfetch ?_
  rcases result with (_ | _) | ⟨response, _⟩
  all_goals exact ⟨_, rfl⟩

end Proxy

/-- Every URL that a request sends its session's Access Token to has the
    origin of the API, exactly if the request is refused before or the rest of
    its path names no other origin. -/
theorem proxy_confined_iff (deps : WebDeps jose) (client : OidcClientConfig)
    (session : TenantSession) (request : ApiRequest) :
    (∀ s es answer s', Alone anyChange s (proxy deps request ⟨client, some session⟩) es answer s' →
      ∀ url accessToken expired, .fetched url accessToken expired ∈ es →
        url.origin = client.apiBaseUrl.origin) ↔
      (request.isPassed session = true →
        Whatwg.StaysAt deps.parseHost client.apiBaseUrl request.reference) := by
  constructor
  · intro hall hpassed
    refine Whatwg.resolve_origin_iff.mp fun url hurl => ?_
    -- At this second the token of the session has more than the margin left.
    let s : WebState := .start (session.accessTokenExpiresAt - 61)
    have hlasts : needsRefresh session s.now = false := by
      have hgt : ¬ session.accessTokenExpiresAt - (session.accessTokenExpiresAt - 61) ≤
          refreshMargin := by
        unfold refreshMargin
        omega
      exact decide_eq_false hgt
    rcases alone_proxy_intro hpassed hurl s hlasts with ⟨answer, hrun⟩
    exact hall s _ answer s hrun url session.accessToken false (List.mem_singleton_self _)
  · intro hstays s es answer s' hrun url accessToken expired hmem
    have hwithin : Within anyChange _ (proxy deps request ⟨client, some session⟩) :=
      fetches_proxy fun url hurl hpassed =>
        Whatwg.resolve_origin_iff.mpr (hstays hpassed) url hurl
    exact (alone_within (R := anyChange) (fun _ => trivial) (fun _ _ _ _ _ => trivial)
      (fun _ _ _ => trivial) hrun hwithin).2 _ hmem url accessToken expired rfl

section Example

/-- A path with an empty first segment. -/
def emptySegment : ApiRequest := ⟨"GET", "/api//evil.test/x", "", none, none⟩

/-- The token of a session is sent to a host of the caller's choice. -/
theorem token_sent_elsewhere :
    ∃ es answer s', Alone anyChange loggedIn
      (proxy crmWeb emptySegment ⟨acmeCrm, some aliceSession⟩) es answer s' ∧
      ∃ url, .fetched url aliceSession.accessToken false ∈ es ∧
        url.origin = ⟨"https", "evil.test", none⟩ ∧ url.origin ≠ acmeCrm.apiBaseUrl.origin := by
  have hurl : Whatwg.resolve crmWeb.parseHost acmeCrm.apiBaseUrl emptySegment.reference =
      some ⟨⟨"https", "evil.test", none⟩, "/x".toList⟩ := by decide +kernel
  have hrun : ∃ answer, Alone anyChange loggedIn
      (proxy crmWeb emptySegment ⟨acmeCrm, some aliceSession⟩)
      [.fetched ⟨⟨"https", "evil.test", none⟩, "/x".toList⟩ aliceSession.accessToken false]
      answer loggedIn :=
    alone_proxy_intro (by decide +kernel) hurl loggedIn (by decide +kernel)
  rcases hrun with ⟨answer, hrun⟩
  exact ⟨_, answer, loggedIn, hrun, _, List.mem_singleton_self _, rfl, by decide +kernel⟩

end Example

end Sandbox.Web
