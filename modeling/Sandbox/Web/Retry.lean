import Sandbox.Interleave.Drift
import Sandbox.Interleave.Sequential
import Sandbox.Web.ApiClient

/-!
# The Retry After an Expired Token

When the API says that an Access Token has expired, the request is repeated.
Whether it is repeated with a new token depends on what is stored at that
moment: if the stored session can still be loaded and by its own account has
a token that lasts, that token is used again, whatever the API has just said
about it. In all other cases a refresh comes first, or there is no second
request.

A run here is one request alone, with time passing whenever it likes.

## Main definitions

* `Ticks`: Time passes.
* `FreshStored`: The store has a session with a token that lasts.
* `RetriedRefreshed`: What follows a challenge uses a refreshed token.
* `Challenged`: A run up to the challenge.

## Theorems

* `alone_loadSession`, `alone_waitForRefresh`, `alone_refreshLocked`: What
  the parts of the second attempt do when no such session is stored.
* `alone_apiFetch`: A run has no challenge, or splits at it.
* `retry_refreshes_iff`: The second attempt refreshes exactly then.
-/

namespace Sandbox.Web

open Interleave Ttl

variable {jose : Jose}

/-- Time passes. -/
def Ticks (s s' : WebState) : Prop := ∃ seconds : Nat, s' = { s with now := s.now + seconds }

/-- The store has a session that can be loaded and whose token lasts. -/
def FreshStored (s : WebState) (client : OidcClientConfig) (id : String) : Prop :=
  id ≠ "" ∧ ∃ stored, Ttl.get s.sessions s.now (sessionKey client.tenantSlug id) = some stored ∧
    stored.isExpired s.now = false ∧ needsRefresh stored s.now = false

/-- After a challenge, requests are sent only with Access Tokens that a
    refresh after it has answered. Events are listed the latest first. -/
def RetriedRefreshed (es : List Event) : Prop :=
  ∀ later between before url url' accessToken rejected expired,
    es = later ++ .fetched url accessToken expired :: (between ++
      .fetched url' rejected true :: before) →
    ∃ key refreshToken, .refreshAnswered key (some (accessToken, refreshToken)) ∈ between

/-- A run of `apiFetch` up to the challenge: the session used, the events so
    far and the state then. -/
def Challenged (jose : Jose) (client : OidcClientConfig) (session : TenantSession)
    (url : Whatwg.Url)
    (s : WebState) (es : List Event) (fresh : TenantSession) (s₂ : WebState) : Prop :=
  ∃ s₁ es₀ response, Response.isExpired response = true ∧
    Alone Ticks s (ensureFreshAccessToken client session : WebProg jose _) es₀ (.ok fresh) s₁ ∧
    Alone Ticks s₁ (fetch url fresh.accessToken : WebProg jose _)
      [.fetched url fresh.accessToken true] response s₂ ∧
    es = [.fetched url fresh.accessToken true] ++ es₀

section Calm

/-- A session that needs a refresh goes on needing it. -/
theorem needsRefresh_mono {session : TenantSession} {now now' : Int} (hle : now ≤ now')
    (h : needsRefresh session now = true) : needsRefresh session now' = true := by
  simp only [needsRefresh, decide_eq_true_eq] at h ⊢
  omega

/-- A token said to have ended is to be refreshed. -/
theorem needsRefresh_ended (session : TenantSession) {now : Int} (h : 0 ≤ now) :
    needsRefresh { session with accessTokenExpiresAt := 0 } now = true := by
  have hle : 0 - now ≤ refreshMargin := by
    unfold refreshMargin
    omega
  exact decide_eq_true hle

/-- Time does not run backwards, and no fresh session appears. -/
def Calm (client : OidcClientConfig) (id : String) (s s' : WebState) : Prop :=
  s.now ≤ s'.now ∧ (¬ FreshStored s client id → ¬ FreshStored s' client id)

variable {client : OidcClientConfig} {id : String}

theorem calm_refl (s : WebState) : Calm client id s s := ⟨Int.le_refl _, fun h => h⟩

theorem calm_trans (s₁ s₂ s₃ : WebState) (h : Calm client id s₁ s₂) (h' : Calm client id s₂ s₃) :
    Calm client id s₁ s₃ :=
  ⟨Int.le_trans h.1 h'.1, fun hn => h'.2 (h.2 hn)⟩

/-- What is fresh later was fresh before, if nothing was written. -/
theorem calm_of_sessions {s s' : WebState} (hnow : s.now ≤ s'.now)
    (hsessions : ∀ key stored, Ttl.get s'.sessions s'.now key = some stored →
      Ttl.get s.sessions s'.now key = some stored) : Calm client id s s' := by
  refine ⟨hnow, fun hn ⟨hid, stored, hget, hexpired, hneeds⟩ => hn ⟨hid, stored, ?_, ?_, ?_⟩⟩
  · exact Ttl.get_mono hnow (hsessions _ stored hget)
  · by_contra h
    have htrue : stored.isExpired s'.now = true :=
      SessionExpiry.isExpired_mono hnow (eq_true_of_ne_false h)
    rw [hexpired] at htrue
    cases htrue
  · by_contra h
    have htrue := needsRefresh_mono hnow (eq_true_of_ne_false h)
    rw [hneeds] at htrue
    cases htrue

theorem calm_ticks (s s' : WebState) (h : Ticks s s') : Calm client id s s' := by
  rcases h with ⟨seconds, rfl⟩
  exact calm_of_sessions (by show s.now ≤ s.now + seconds; omega) fun _ _ h => h

theorem calm_drifts {s s' : WebState} (h : Drifts Ticks s s') : Calm client id s s' := by
  induction h with
  | refl => exact calm_refl _
  | tail _ hstep ih => exact calm_trans _ _ _ ih (calm_ticks _ _ hstep)

/-- A session is only removed. -/
theorem within_destroySession (session : TenantSession) :
    Within (Calm client id) (fun _ => True) (destroySession session : WebProg jose Unit) := by
  refine within_bind (within_both ?_ ?_) fun _ => ?_
  · exact within_write fun s => calm_of_sessions (Int.le_refl s.now) fun key stored h =>
      (Ttl.get_delete_eq_some h).2
  · exact within_write fun s => calm_of_sessions (Int.le_refl s.now) fun key stored h => h
  · exact within_logged (fun s => calm_refl s) fun _ => trivial

end Calm

section NothingFresh

variable {client : OidcClientConfig} {session : TenantSession} {s s' : WebState}
  {es : List Event}

/-- What is loaded when nothing fresh is stored needs a refresh. -/
theorem alone_loadSession {id : String} {loaded : Option TenantSession}
    (h : Alone Ticks s (loadSession client (some id) : WebProg jose _) es loaded s')
    (hnone : ¬ FreshStored s client id) :
    Calm client id s s' ∧ ∀ latest, loaded = some latest → needsRefresh latest s'.now = true := by
  rw [loadSession] at h
  by_cases hid : id = ""
  · rw [if_pos hid] at h
    rcases alone_done h with ⟨_, rfl, hdrift⟩
    exact ⟨calm_drifts hdrift, fun _ hl => nomatch hl⟩
  rw [if_neg hid] at h
  rcases alone_bind h with ⟨found, s₁, es₁, es₂, hget, h₁, _⟩
  rcases alone_read hget with ⟨_, s₀, hdrift, rfl, hdrift'⟩
  have hcalm : Calm client id s s₁ :=
    calm_trans _ _ _ (calm_drifts hdrift) (calm_drifts hdrift')
  have hnone₀ : ¬ FreshStored s₀ client id := (calm_drifts hdrift).2 hnone
  cases hfound : Ttl.get s₀.sessions s₀.now (sessionKey client.tenantSlug id) with
  | none =>
      have hread : Ttl.get (sessions.entries s₀) (sessions.now s₀)
          (sessionKey client.tenantSlug id) = none := hfound
      simp only [hread] at h₁
      rcases alone_done h₁ with ⟨_, rfl, hdrift₁⟩
      exact ⟨calm_trans _ _ _ hcalm (calm_drifts hdrift₁), fun _ hl => nomatch hl⟩
  | some stored =>
      have hread : Ttl.get (sessions.entries s₀) (sessions.now s₀)
          (sessionKey client.tenantSlug id) = some stored := hfound
      simp only [hread] at h₁
      rcases alone_bind h₁ with ⟨now, s₃, es₃, es₄, hnow, h₃, _⟩
      rcases alone_read hnow with ⟨_, s₅, hdrift₅, rfl, hdrift₃⟩
      have hcalm₃ : Calm client id s s₃ := calm_trans _ _ _ hcalm
        (calm_trans _ _ _ (calm_drifts hdrift₅) (calm_drifts hdrift₃))
      by_cases hexpired : stored.isExpired s₅.now = true
      · rw [if_pos hexpired] at h₃
        rcases alone_bind h₃ with ⟨_, s₆, es₅, es₆, hdestroy, h₆, _⟩
        rcases alone_done h₆ with ⟨_, rfl, hdrift₆⟩
        have hcalm₆ : Calm client id s₃ s₆ :=
          (alone_within calm_refl calm_trans calm_ticks hdestroy (within_destroySession stored)).1
        exact ⟨calm_trans _ _ _ hcalm₃ (calm_trans _ _ _ hcalm₆ (calm_drifts hdrift₆)),
          fun _ hl => nomatch hl⟩
      · rw [if_neg hexpired] at h₃
        rcases alone_done h₃ with ⟨_, rfl, hdrift₆⟩
        refine ⟨calm_trans _ _ _ hcalm₃ (calm_drifts hdrift₆), fun latest hl => ?_⟩
        cases hl
        -- Not expired later, so not expired when it was read; it was not fresh then.
        have hcalm₀ : Calm client id s₀ s₁ := calm_drifts hdrift'
        have hcalm₅ : Calm client id s₁ s₅ := calm_drifts hdrift₅
        have hcalm₇ : Calm client id s₅ s' :=
          calm_trans _ _ _ (calm_drifts hdrift₃) (calm_drifts hdrift₆)
        have hle : s₀.now ≤ s₅.now := Int.le_trans hcalm₀.1 hcalm₅.1
        have hlive : stored.isExpired s₀.now = false := by
          by_contra hdead
          exact hexpired (SessionExpiry.isExpired_mono hle (eq_true_of_ne_false hdead))
        have hneeds : needsRefresh stored s₀.now = true := by
          by_contra hfresh
          exact hnone₀ ⟨hid, stored, hfound, hlive, eq_false_of_ne_true hfresh⟩
        exact needsRefresh_mono (Int.le_trans hle hcalm₇.1) hneeds

/-- Waiting does not make a session fresh. -/
theorem alone_waitForRefresh (attempts : Nat) {answer : Except ApiAccessError TenantSession} :
    ∀ {s s' : WebState} {es : List Event},
      Alone Ticks s (waitForRefresh client session attempts : WebProg jose _) es answer s' →
      ¬ FreshStored s client session.id → ∀ latest, answer ≠ .ok latest := by
  induction attempts with
  | zero =>
      intro s s' es h _ latest
      rcases alone_done h with ⟨_, rfl, _⟩
      exact fun heq => nomatch heq
  | succ attempts ih =>
      intro s s' es h hnone
      rw [waitForRefresh] at h
      rcases alone_bind h with ⟨_, s₁, _, _, hsleep, h₁, _⟩
      rcases alone_write hsleep with ⟨_, s₀, hdrift, hdrift'⟩
      -- While this request sleeps, nobody stores a fresh session.
      have hnone₁ : ¬ FreshStored s₁ client session.id :=
        (calm_drifts hdrift').2 ((calm_drifts hdrift).2 hnone)
      rcases alone_bind h₁ with ⟨loaded, s₂, _, _, hload, h₂, _⟩
      rcases alone_loadSession hload hnone₁ with ⟨hcalm, hneeds⟩
      cases loaded with
      | none =>
          rcases alone_done h₂ with ⟨_, rfl, _⟩
          exact fun _ heq => nomatch heq
      | some latest =>
          rcases alone_bind h₂ with ⟨now, s₃, _, _, hnow, h₃, _⟩
          rcases alone_read hnow with ⟨_, s₅, hdrift₅, rfl, hdrift₃⟩
          have hcalm₅ : Calm client session.id s₂ s₅ := calm_drifts hdrift₅
          -- The session that was read still needs a refresh.
          have hstill := needsRefresh_mono hcalm₅.1 (hneeds latest rfl)
          rw [if_neg (by rw [hstill]; exact Bool.false_ne_true)] at h₃
          exact ih h₃ ((calm_drifts hdrift₃).2 (hcalm₅.2 (hcalm.2 hnone₁)))

/-- A refresh that succeeds gives the answered Access Token. -/
theorem alone_refresh {updated : TenantSession}
    (h : Alone Ticks s (refresh session : WebProg jose _) es (.ok updated) s') :
    ∃ key refreshToken,
      .refreshAnswered key (some (updated.accessToken, refreshToken)) ∈ es := by
  rw [refresh] at h
  rcases alone_bind h with ⟨refreshed, s₁, es₁, es₂, hrefresh, h₁, rfl⟩
  cases refreshed with
  | error e =>
      cases e with
      | invalidGrant =>
          rcases alone_bind h₁ with ⟨_, _, _, _, _, h₂, _⟩
          exact nomatch (alone_done h₂).2.1
      | _ => exact nomatch (alone_done h₁).2.1
  | ok tokens =>
      rcases alone_bind h₁ with ⟨now, _, _, es₃, _, h₂, _⟩
      rcases alone_bind h₂ with ⟨saved, _, _, es₄, hsave, h₃, _⟩
      have hsaved : updated = saved := Except.ok.inj (alone_done h₃).2.1
      -- What is saved has the answered tokens.
      have htoken : saved.accessToken = tokens.accessToken := by
        rcases alone_bind hsave with ⟨_, _, _, _, _, h₄, _⟩
        rcases alone_bind h₄ with ⟨_, _, _, _, _, h₅, _⟩
        rw [(alone_done h₅).2.1]
      -- The answer is the last event of the request.
      rw [providerRefresh] at hrefresh
      rcases alone_bind hrefresh with ⟨_, _, es₅, es₆, _, hanswer, rfl⟩
      rcases alone_act hanswer with ⟨i, _, reply, _, es₇, _, _, hdone, rfl⟩
      rcases alone_done hdone with ⟨rfl, heq, _⟩
      subst heq
      refine ⟨sessionKey session.tenantSlug session.id, tokens.refreshToken, ?_⟩
      rw [hsaved, htoken]
      exact List.mem_append_right _ (List.mem_append_left _ (List.mem_singleton_self _))

/-- With the lock and nothing fresh, only a refresh gives a session. -/
theorem alone_refreshLocked {updated : TenantSession}
    (h : Alone Ticks s (refreshLocked client session : WebProg jose _) es (.ok updated) s')
    (hnone : ¬ FreshStored s client session.id) (hneeds : needsRefresh session s.now = true) :
    ∃ key refreshToken,
      .refreshAnswered key (some (updated.accessToken, refreshToken)) ∈ es := by
  rw [refreshLocked] at h
  rcases alone_bind h with ⟨loaded, s₁, es₁, es₂, hload, h₁, rfl⟩
  rcases alone_loadSession hload hnone with ⟨hcalm, hloaded⟩
  have hlatest : needsRefresh (loaded.getD session) s₁.now = true := by
    cases loaded with
    | none => exact needsRefresh_mono hcalm.1 hneeds
    | some latest => exact hloaded latest rfl
  rcases alone_bind h₁ with ⟨now, s₂, es₃, es₄, hnow, h₂, rfl⟩
  rcases alone_read hnow with ⟨_, s₃, hdrift, rfl, _⟩
  have hcalm₃ : Calm client session.id s₁ s₃ := calm_drifts hdrift
  rw [if_neg (by rw [needsRefresh_mono hcalm₃.1 hlatest]; exact Bool.false_ne_true)] at h₂
  rcases alone_refresh h₂ with ⟨key, refreshToken, hmem⟩
  exact ⟨key, refreshToken, List.mem_append_left _ (List.mem_append_left _ hmem)⟩

/-- A token that has to be refreshed is, if nothing fresh is stored. -/
theorem alone_ensureFreshAccessToken {updated : TenantSession}
    (h : Alone Ticks s (ensureFreshAccessToken client session : WebProg jose _) es
      (.ok updated) s')
    (hnone : ¬ FreshStored s client session.id) (hneeds : needsRefresh session s.now = true) :
    ∃ key refreshToken,
      .refreshAnswered key (some (updated.accessToken, refreshToken)) ∈ es := by
  rw [ensureFreshAccessToken] at h
  rcases alone_bind h with ⟨now, s₁, es₁, es₂, hnow, h₁, rfl⟩
  rcases alone_read hnow with ⟨_, s₀, hdrift, rfl, hdrift'⟩
  have hcalm : Calm client session.id s s₁ :=
    calm_trans _ _ _ (calm_drifts hdrift) (calm_drifts hdrift')
  have hcalm₀ : Calm client session.id s s₀ := calm_drifts hdrift
  rw [if_neg (by rw [needsRefresh_mono hcalm₀.1 hneeds]; exact Bool.false_ne_true)] at h₁
  rcases alone_bind h₁ with ⟨locked, s₂, es₃, es₄, hlock, h₂, rfl⟩
  rcases alone_logged hlock with ⟨_, s₃, hdrift₃, _, hdrift₂⟩
  -- Asking for the lock leaves the sessions as they are.
  have hlocked : Calm client session.id s s₂ := by
    refine calm_trans _ _ _ hcalm (calm_trans _ _ _ (calm_drifts hdrift₃)
      (calm_trans _ _ _ ?_ (calm_drifts hdrift₂)))
    exact calm_of_sessions (Int.le_refl s₃.now) fun _ _ hget => hget
  -- With the lock it refreshes, and without it, it waits in vain.
  by_cases hheld : locked = true
  · subst hheld
    rw [if_neg (fun hfalse => nomatch hfalse)] at h₂
    rcases alone_bind h₂ with ⟨result, s₄, es₅, es₆, hrefresh, h₃, rfl⟩
    rcases alone_bind h₃ with ⟨_, _, es₇, es₈, _, h₄, rfl⟩
    have hresult : Except.ok updated = result := (alone_done h₄).2.1
    subst hresult
    rcases alone_refreshLocked hrefresh (hlocked.2 hnone)
      (needsRefresh_mono hlocked.1 hneeds) with ⟨key, refreshToken, hmem⟩
    refine ⟨key, refreshToken, ?_⟩
    simp only [List.mem_append]
    exact .inl (.inl (.inr hmem))
  · rw [if_pos (by simpa using hheld)] at h₂
    exact absurd rfl (alone_waitForRefresh _ h₂ (hlocked.2 hnone) updated)

end NothingFresh

section Quiet

/-- No request to the API. -/
def Quiet : Event → Prop
  | .fetched _ _ _ => False
  | _ => True

theorem not_quiet_fetched (url : Whatwg.Url) (accessToken : String) (expired : Bool) :
    ¬ Quiet (.fetched url accessToken expired) := fun h => h

/-- Any change, and no request to the API. -/
abbrev WithinQuiet {α : Type} (p : WebProg jose α) : Prop := Within (fun _ _ => True) Quiet p

theorem quiet_destroySession (session : TenantSession) :
    WithinQuiet (destroySession session : WebProg jose Unit) := by
  refine within_bind (within_both ?_ ?_) fun _ => ?_
  · exact within_write fun _ => trivial
  · exact within_write fun _ => trivial
  · exact within_logged (fun _ => trivial) fun _ => trivial

theorem quiet_loadSession (client : OidcClientConfig) (id : Option String) :
    WithinQuiet (loadSession client id : WebProg jose _) := by
  unfold loadSession
  cases id with
  | none => exact within_pure _
  | some id =>
      dsimp only
      split
      · exact within_pure _
      · refine within_bind (within_read fun _ => trivial) fun found => ?_
        cases found with
        | none => exact within_pure _
        | some session =>
            refine within_bind (within_read fun _ => trivial) fun now => ?_
            split
            · exact within_bind (quiet_destroySession session) fun _ => within_pure _
            · exact within_pure _

theorem quiet_refresh (session : TenantSession) :
    WithinQuiet (refresh session : WebProg jose _) := by
  refine within_bind (within_bind (within_logged (fun _ => trivial) fun _ => trivial) fun _ => ?_)
    fun refreshed => ?_
  · refine within_act (fun _ _ _ _ _ => trivial) fun reply e he => ?_
    cases he
    trivial
  · cases refreshed with
    | error e =>
        cases e with
        | invalidGrant => exact within_bind (quiet_destroySession session) fun _ => within_pure _
        | _ => exact within_pure _
    | ok tokens =>
        refine within_bind (within_read fun _ => trivial) fun now => within_bind ?_ fun _ =>
          within_pure _
        refine within_bind (within_read fun _ => trivial) fun now => ?_
        exact within_bind (within_logged (fun _ => trivial) fun _ => trivial) fun _ => within_pure _

/-- Waiting for a refresh sends nothing to the API. -/
theorem quiet_waitForRefresh (client : OidcClientConfig) (session : TenantSession)
    (attempts : Nat) : WithinQuiet (waitForRefresh client session attempts : WebProg jose _) := by
  induction attempts with
  | zero => exact within_pure _
  | succ attempts ih =>
      refine within_bind (within_write fun _ => trivial) fun _ =>
        within_bind (quiet_loadSession _ _) fun loaded => ?_
      cases loaded with
      | none => exact within_pure _
      | some latest =>
          refine within_bind (within_read fun _ => trivial) fun now => ?_
          split
          · exact within_pure _
          · exact ih

/-- Making the token fresh sends nothing to the API. -/
theorem quiet_ensureFreshAccessToken (client : OidcClientConfig) (session : TenantSession) :
    WithinQuiet (ensureFreshAccessToken client session : WebProg jose _) := by
  refine within_bind (within_read fun _ => trivial) fun now => ?_
  split
  · exact within_pure _
  · refine within_bind (within_logged (fun _ => trivial) fun _ => trivial) fun locked => ?_
    split
    · exact quiet_waitForRefresh _ _ _
    · refine within_bind (within_bind (quiet_loadSession _ _) fun loaded =>
        within_bind (within_read fun _ => trivial) fun now => ?_) fun result =>
        within_bind (within_logged (fun _ => trivial) fun _ => trivial) fun _ => within_pure _
      split
      · exact within_pure _
      · exact quiet_refresh _

/-- Making a token fresh sends no request to the API. -/
theorem quiet_events {client : OidcClientConfig} {session : TenantSession}
    {answer : Except ApiAccessError TenantSession} {s s' : WebState} {es : List Event}
    (h : Alone Ticks s (ensureFreshAccessToken client session : WebProg jose _) es answer s') :
    ∀ e ∈ es, Quiet e :=
  (alone_within (R := fun _ _ => True) (fun _ => trivial) (fun _ _ _ _ _ => trivial)
    (fun _ _ _ => trivial) h (quiet_ensureFreshAccessToken client session)).2

end Quiet

section Second

/-- A request cannot be among events without one. -/
theorem split_quiet {mid later rest before : List Event} {x y : Event}
    (hmid : ∀ e ∈ mid, Quiet e) (hx : ¬ Quiet x) (h : mid ++ y :: before = later ++ x :: rest) :
    later = mid ∧ x = y ∧ rest = before ∨ ∃ later', before = later' ++ x :: rest := by
  -- The quiet events are passed one by one, since `x` is none of them.
  induction mid generalizing later with
  | nil =>
      cases later with
      | nil =>
          rcases List.cons.inj h with ⟨rfl, rfl⟩
          exact .inl ⟨rfl, rfl, rfl⟩
      | cons e later => exact .inr ⟨later, (List.cons.inj h).2⟩
  | cons e mid ih =>
      cases later with
      | nil => exact absurd ((List.cons.inj h).1 ▸ hmid e List.mem_cons_self) hx
      | cons d later =>
          rcases List.cons.inj h with ⟨rfl, htail⟩
          rcases ih (fun d hd => hmid d (List.mem_cons_of_mem _ hd)) htail with
            ⟨rfl, hxy, hrest⟩ | hbefore
          · exact .inl ⟨rfl, hxy, hrest⟩
          · exact .inr hbefore

theorem not_quiet_mem {es later rest : List Event} {x : Event} (hes : ∀ e ∈ es, Quiet e)
    (hx : ¬ Quiet x) : es ≠ later ++ x :: rest := by
  rintro rfl
  exact hx (hes x (List.mem_append_right _ List.mem_cons_self))

/-- With one request there is nothing to show. -/
theorem retriedRefreshed_one {mid before : List Event} {y : Event} (hmid : ∀ e ∈ mid, Quiet e)
    (hbefore : ∀ e ∈ before, Quiet e) : RetriedRefreshed (mid ++ y :: before) := by
  intro later between before' url url' accessToken rejected expired h
  rcases split_quiet hmid (not_quiet_fetched _ _ _) h with ⟨_, _, hrest⟩ | ⟨later', hrest⟩
  · exact absurd hrest.symm (not_quiet_mem hbefore (not_quiet_fetched _ _ _))
  · exact absurd hrest (not_quiet_mem hbefore (not_quiet_fetched _ _ _))

/-- Of two requests, the second must have a token answered after the first. -/
theorem retriedRefreshed_two {mid before : List Event} {url : Whatwg.Url} {accessToken : String}
    {expired : Bool}
    {y : Event} (hmid : ∀ e ∈ mid, Quiet e) (hbefore : ∀ e ∈ before, Quiet e)
    (h : ∃ key refreshToken, .refreshAnswered key (some (accessToken, refreshToken)) ∈ mid) :
    RetriedRefreshed (.fetched url accessToken expired :: (mid ++ y :: before)) := by
  intro later between before' url' url'' accessToken' rejected expired' heq
  cases later with
  | nil =>
      rcases List.cons.inj heq with ⟨hfetched, htail⟩
      cases hfetched
      rcases split_quiet hmid (not_quiet_fetched _ _ _) htail with ⟨rfl, _, _⟩ | ⟨later', hrest⟩
      · exact h
      · exact absurd hrest (not_quiet_mem hbefore (not_quiet_fetched _ _ _))
  | cons e later =>
      exact retriedRefreshed_one hmid hbefore later between before' url' url'' accessToken'
        rejected expired' (List.cons.inj heq).2

/-- A request to the API has one event, with the token it carries. -/
theorem alone_fetch {url : Whatwg.Url} {accessToken : String} {response : Response}
    {s s' : WebState}
    {es : List Event}
    (h : Alone Ticks s (fetch url accessToken : WebProg jose _) es response s') :
    es = [.fetched url accessToken response.isExpired] := by
  rcases alone_act h with ⟨_, _, b, _, es', _, _, hdone, rfl⟩
  rcases alone_done hdone with ⟨rfl, rfl, _⟩
  rfl

theorem alone_fetch_intro {G : WebState → WebState → Prop} (url : Whatwg.Url)
    (accessToken : String) (response : Response) (s : WebState) :
    Alone G s (fetch url accessToken : WebProg jose _)
      [.fetched url accessToken response.isExpired] response s := by
  show Alone G s _
    ([] ++ Option.toList (some (Event.fetched url accessToken response.isExpired))) _ _
  exact .step (.act (i := Outside.response response) rfl) .done

variable {client : OidcClientConfig} {session fresh : TenantSession} {url : Whatwg.Url}
  {s s₂ s' : WebState} {es₁ : List Event}

/-- A run without a challenge has one request at most, and a run with one goes
    on with the second attempt. -/
theorem alone_apiFetch {es : List Event} {answer : Except ApiAccessError (Response × TenantSession)}
    (h : Alone Ticks s (apiFetch client session url : WebProg jose _) es answer s') :
    RetriedRefreshed es ∨
      ∃ es₁ fresh s₂ es₂, Challenged jose client session url s es₁ fresh s₂ ∧
        Alone Ticks s₂ (retryExpired client fresh url : WebProg jose _) es₂ answer s' ∧
        es = es₂ ++ es₁ := by
  rw [apiFetch] at h
  rcases alone_bind h with ⟨ensured, s₁, es₀, es₃, hensure, h₁, rfl⟩
  have hquiet := quiet_events hensure
  cases ensured with
  | error e =>
      rcases alone_done h₁ with ⟨rfl, _, _⟩
      refine .inl fun later between before url url' accessToken rejected expired heq => ?_
      exact absurd heq (not_quiet_mem hquiet (not_quiet_fetched _ _ _))
  | ok fresh =>
      rcases alone_bind h₁ with ⟨response, s₂, es₄, es₂, hfetch, h₂, rfl⟩
      rcases alone_fetch hfetch with rfl
      -- Only an expired answer leads to a second request.
      by_cases hexpired : response.isExpired = true
      · rw [hexpired] at hfetch h₂ ⊢
        refine .inr ⟨_, fresh, s₂, es₂, ⟨s₁, es₀, response, hexpired, hensure, hfetch, rfl⟩, h₂, ?_⟩
        exact List.append_assoc _ _ _
      · rw [if_pos (by simpa using hexpired)] at h₂
        rcases alone_done h₂ with ⟨rfl, _, _⟩
        have hnothing : ∀ e ∈ ([] : List Event), Quiet e := fun e he => absurd he List.not_mem_nil
        exact .inl (retriedRefreshed_one hnothing hquiet)

/-- The second attempt has a refreshed token if nothing fresh is stored. -/
theorem retriedRefreshed_of_not_freshStored {es₂ : List Event}
    {answer : Except ApiAccessError (Response × TenantSession)} (hnow : 0 ≤ s₂.now)
    (h : Challenged jose client session url s es₁ fresh s₂)
    (hretry : Alone Ticks s₂ (retryExpired client fresh url : WebProg jose _) es₂ answer s')
    (hnone : ¬ FreshStored s₂ client fresh.id) : RetriedRefreshed (es₂ ++ es₁) := by
  rcases h with ⟨s₁, es₀, response, _, hensure, _, rfl⟩
  have hquiet := quiet_events hensure
  rw [retryExpired] at hretry
  rcases alone_bind hretry with ⟨forced, s₃, mid, es₃, hforced, h₃, rfl⟩
  have hmid := quiet_events hforced
  cases forced with
  | error e =>
      rcases alone_done h₃ with ⟨rfl, _, _⟩
      exact retriedRefreshed_one hmid hquiet
  | ok updated =>
      -- No fresh version is stored, so a refresh was answered before the second attempt.
      have hanswered := alone_ensureFreshAccessToken hforced hnone (needsRefresh_ended fresh hnow)
      rcases alone_bind h₃ with ⟨response, _, es₄, es₅, hfetch, h₄, rfl⟩
      rcases alone_done h₄ with ⟨rfl, _, _⟩
      rcases alone_fetch hfetch with rfl
      exact retriedRefreshed_two hmid hquiet hanswered

end Second

section Again

variable {client : OidcClientConfig} {session fresh stored : TenantSession} {s : WebState}

theorem alone_nowSeconds_intro {G : WebState → WebState → Prop} (s : WebState) :
    Alone G s (nowSeconds : WebProg jose _) [] s.now s :=
  alone_atomic_intro .none _ s

/-- A stored session that is alive is loaded without a change. -/
theorem alone_loadSession_intro {id : String} (hid : id ≠ "")
    (hget : Ttl.get s.sessions s.now (sessionKey client.tenantSlug id) = some stored)
    (hlive : stored.isExpired s.now = false) :
    Alone Ticks s (loadSession client (some id) : WebProg jose _) [] (some stored) s := by
  have hread : Alone Ticks s
      (sessions.get (sessionKey client.tenantSlug id) : WebProg jose _) [] (some stored) s := by
    rw [← hget]
    exact alone_atomic_intro .none _ s
  have hrest : Alone Ticks s ((nowSeconds : WebProg jose _) >>= fun now =>
      if stored.isExpired now then destroySession stored >>= fun _ => pure none
      else pure (some stored)) [] (some stored) s := by
    refine alone_silent_intro (alone_nowSeconds_intro s) ?_
    rw [if_neg (by rw [hlive]; exact Bool.false_ne_true)]
    exact .done
  unfold loadSession
  dsimp only
  rw [if_neg hid]
  exact alone_silent_intro hread hrest

/-- Who waits finds what is fresh at once. -/
theorem alone_waitForRefresh_intro (attempts : Nat) (hid : session.id ≠ "")
    (hget : Ttl.get s.sessions s.now (sessionKey client.tenantSlug session.id) = some stored)
    (hlive : stored.isExpired s.now = false) (hlasts : needsRefresh stored s.now = false) :
    Alone Ticks s (waitForRefresh client session (attempts + 1) : WebProg jose _) [] (.ok stored)
      s := by
  have hrest : Alone Ticks s ((nowSeconds : WebProg jose _) >>= fun now =>
      if !needsRefresh stored now then pure (.ok stored)
      else waitForRefresh client session attempts) [] (.ok stored) s := by
    refine alone_silent_intro (alone_nowSeconds_intro s) ?_
    rw [if_pos (by rw [hlasts]; rfl)]
    exact .done
  have hload : Alone Ticks s (loadSession client (some session.id) : WebProg jose _) [] _ s :=
    alone_loadSession_intro hid hget hlive
  have hsleep : Alone Ticks s (sleep : WebProg jose Unit) [] () s :=
    alone_atomic_intro .none _ s
  exact alone_silent_intro hsleep (alone_silent_intro hload hrest)

/-- Who has the lock uses what is fresh. -/
theorem alone_refreshLocked_intro (hid : session.id ≠ "")
    (hget : Ttl.get s.sessions s.now (sessionKey client.tenantSlug session.id) = some stored)
    (hlive : stored.isExpired s.now = false) (hlasts : needsRefresh stored s.now = false) :
    Alone Ticks s (refreshLocked client session : WebProg jose _) [] (.ok stored) s := by
  have hrest : Alone Ticks s ((nowSeconds : WebProg jose _) >>= fun now =>
      if !needsRefresh stored now then pure (.ok stored)
      else refresh stored) [] (.ok stored) s := by
    refine alone_silent_intro (alone_nowSeconds_intro s) ?_
    rw [if_pos (by rw [hlasts]; rfl)]
    exact .done
  exact alone_silent_intro (alone_loadSession_intro hid hget hlive) hrest

/-- With something fresh in the store, the second attempt can do without a
    refresh, whether the lock is free or not. -/
theorem alone_ensureFreshAccessToken_intro (hid : session.id ≠ "")
    (hget : Ttl.get s.sessions s.now (sessionKey client.tenantSlug session.id) = some stored)
    (hlive : stored.isExpired s.now = false) (hlasts : needsRefresh stored s.now = false)
    (hneeds : needsRefresh session s.now = true) :
    ∃ es s', Alone Ticks s (ensureFreshAccessToken client session : WebProg jose _) es (.ok stored)
        s' ∧
      ∀ key answer, .refreshAnswered key answer ∉ es := by
  let key := sessionKey client.tenantSlug session.id
  have hlock : Alone Ticks s (refreshLocks.setIfAbsentLogged (.lockAsked key) key "1"
        refreshLockTtl : WebProg jose _)
      [.lockAsked key (Ttl.setIfAbsent s.refreshLocks s.now key "1" refreshLockTtl).1]
      (Ttl.setIfAbsent s.refreshLocks s.now key "1" refreshLockTtl).1
      { s with refreshLocks := (Ttl.setIfAbsent s.refreshLocks s.now key "1" refreshLockTtl).2 } :=
    alone_act_intro (i := .none) rfl
  -- Either this request takes the lock, or it waits for the one that has it.
  cases hheld : (Ttl.setIfAbsent s.refreshLocks s.now key "1" refreshLockTtl).1 with
  | true =>
      rw [hheld] at hlock
      let locks := (Ttl.setIfAbsent s.refreshLocks s.now key "1" refreshLockTtl).2
      have hfree : Alone Ticks { s with refreshLocks := locks }
          (refreshLocks.deleteLogged (.lockFreed key) key : WebProg jose _) [.lockFreed key] ()
          { s with refreshLocks := Ttl.delete locks key } :=
        alone_act_intro (i := .none) rfl
      refine ⟨[.lockFreed key] ++ [.lockAsked key true],
        { s with refreshLocks := Ttl.delete locks key }, ?_, by simp⟩
      unfold ensureFreshAccessToken
      refine alone_silent_intro (alone_nowSeconds_intro s) ?_
      rw [if_neg (by rw [hneeds]; exact Bool.false_ne_true)]
      refine alone_bind_intro hlock ?_
      refine alone_silent_intro (alone_refreshLocked_intro hid hget hlive hlasts) ?_
      show Alone Ticks _ _ ([] ++ [Event.lockFreed key]) _ _
      exact alone_bind_intro hfree .done
  | false =>
      rw [hheld] at hlock
      let locks := (Ttl.setIfAbsent s.refreshLocks s.now key "1" refreshLockTtl).2
      refine ⟨[] ++ [.lockAsked key false], { s with refreshLocks := locks }, ?_, by simp⟩
      unfold ensureFreshAccessToken
      refine alone_silent_intro (alone_nowSeconds_intro s) ?_
      rw [if_neg (by rw [hneeds]; exact Bool.false_ne_true)]
      exact alone_bind_intro hlock (alone_waitForRefresh_intro _ hid hget hlive hlasts)

/-- Then the second attempt is not preceded by a refresh. -/
theorem not_retriedRefreshed_of_freshStored {url : Whatwg.Url} {s₀ : WebState} {es₁ : List Event}
    (hnow : 0 ≤ s.now) (h : Challenged jose client session url s₀ es₁ fresh s)
    (hfresh : FreshStored s client fresh.id) :
    ∃ es₂ answer s', Alone Ticks s (retryExpired client fresh url : WebProg jose _) es₂ answer s' ∧
      ¬ RetriedRefreshed (es₂ ++ es₁) := by
  rcases h with ⟨s₁, es₀, response, _, _, _, rfl⟩
  rcases hfresh with ⟨hid, stored, hget, hlive, hlasts⟩
  -- The stored version still looks fresh, so it is used without a refresh.
  have hused : ∃ es s', Alone Ticks s
      (ensureFreshAccessToken client { fresh with accessTokenExpiresAt := 0 } : WebProg jose _) es
      (.ok stored) s' ∧ ∀ key answer, .refreshAnswered key answer ∉ es :=
    alone_ensureFreshAccessToken_intro hid hget hlive hlasts (needsRefresh_ended fresh hnow)
  rcases hused with ⟨es, s', hensure, hunanswered⟩
  have hfetch : Alone Ticks s' (fetch url stored.accessToken : WebProg jose _)
      [.fetched url stored.accessToken false] ⟨200, none, none, ""⟩ s' :=
    alone_fetch_intro url stored.accessToken ⟨200, none, none, ""⟩ s'
  refine ⟨_, _, s', alone_bind_intro hensure (alone_bind_intro hfetch .done), fun hall => ?_⟩
  rcases hall [] es es₀ url url stored.accessToken fresh.accessToken false rfl with
    ⟨key, refreshToken, hmem⟩
  exact hunanswered key _ hmem

end Again

/-- A run of a call either has no second request, or splits at the challenge
    into a run up to it and a second attempt. The second attempts after a
    challenge all use a refreshed token exactly if the store has no session
    with a token that lasts when the challenge arrives. -/
theorem retry_refreshes_iff (client : OidcClientConfig) (session : TenantSession) (url : Whatwg.Url)
    (s : WebState) :
    (∀ es answer s', Alone Ticks s (apiFetch client session url : WebProg jose _) es answer s' →
      RetriedRefreshed es ∨
        ∃ es₁ fresh s₂ es₂, Challenged jose client session url s es₁ fresh s₂ ∧
          Alone Ticks s₂ (retryExpired client fresh url : WebProg jose _) es₂ answer s' ∧
          es = es₂ ++ es₁) ∧
    ∀ es₁ fresh s₂, 0 ≤ s₂.now → Challenged jose client session url s es₁ fresh s₂ →
      ((∀ es₂ answer s',
          Alone Ticks s₂ (retryExpired client fresh url : WebProg jose _) es₂ answer s' →
          RetriedRefreshed (es₂ ++ es₁)) ↔
        ¬ FreshStored s₂ client fresh.id) := by
  refine ⟨fun es answer s' h => alone_apiFetch h, fun es₁ fresh s₂ hnow h => ⟨?_, ?_⟩⟩
  · intro hall hfresh
    rcases not_retriedRefreshed_of_freshStored hnow h hfresh with ⟨es₂, answer, s', hretry, hbad⟩
    exact hbad (hall es₂ answer s' hretry)
  · intro hnone es₂ answer s' hretry
    exact retriedRefreshed_of_not_freshStored hnow h hretry hnone

section Example

/-- The CRM at the host of a tenant. -/
def acmeCrm : OidcClientConfig where
  clientId := "crm"
  clientSecret := "secret"
  scopes := ["openid"]
  apiBaseUrl := ⟨⟨"https", "crm-api.test", none⟩, ['/']⟩
  name := "CRM"
  tenantSlug := "acme"
  redirectUri := "https://acme.crm.test/auth/callback"

/-- A session whose Access Token has fifteen minutes left by its own account. -/
def aliceSession : TenantSession where
  id := "S"
  tenantSlug := "acme"
  userId := "alice"
  tenantId := "T"
  sid := "sid"
  email := none
  name := none
  accessToken := "A"
  accessTokenExpiresAt := 1900
  refreshToken := "R"
  csrfToken := "C"
  createdAt := 1000
  lastSeenAt := 1000

/-- The list of the end users. -/
def endUsersUrl : Whatwg.Url := ⟨⟨"https", "crm-api.test", none⟩, "/v1/end-users".toList⟩

def loggedIn : WebState where
  now := 1000
  issued := []
  sessions := Ttl.set Ttl.empty 1000 (sessionKey "acme" "S") aliceSession 43200
  sessionsBySid := Ttl.empty
  preAuth := Ttl.empty
  refreshLocks := Ttl.empty

/-- What the API says of a token that has ended for it, by a clock that is
    ahead or after a change of its rules. -/
def expiredResponse : Response :=
  ⟨401, some "Bearer error=\"invalid_token\", error_description=\"expired\"", none, ""⟩

/-- The request is sent again with the token that was rejected. -/
def usesTokenAgain : List Event → Bool
  | [.fetched url token false, .lockFreed key', .lockAsked key _, .fetched url' token' true] =>
      decide (url = url') && token == token' && key == key'
  | _ => false

/-- The rejected token is used again. -/
theorem rejected_token_used_again :
    ∃ token es answer s', Alone Ticks loggedIn
      (apiFetch acmeCrm aliceSession endUsersUrl : WebProg openJose _) es answer s' ∧
        ¬ RetriedRefreshed es ∧
      ∃ url key acquired, es = [.fetched url token false, .lockFreed key, .lockAsked key acquired,
        .fetched url token true] := by
  let run : Option (List Event × _ × WebState) :=
    Prog.runAlone .none 40 [.response expiredResponse, .response ⟨200, none, none, ""⟩] loggedIn
      (apiFetch acmeCrm aliceSession endUsersUrl : WebProg openJose _)
  have hplay : (run.any fun r => usesTokenAgain r.1) = true := by decide +kernel
  rcases (Option.any_eq_true _ _).mp hplay with ⟨⟨es, answer, s'⟩, hrun, htest⟩
  dsimp only [usesTokenAgain] at htest
  split at htest
  · next url token key' key acquired url' token' =>
      rcases Bool.and_eq_true_iff.mp htest with ⟨hsame, hkey⟩
      rcases Bool.and_eq_true_iff.mp hsame with ⟨hurl, htoken⟩
      rcases beq_iff_eq.mp hkey with rfl
      rcases of_decide_eq_true hurl with rfl
      rcases beq_iff_eq.mp htoken with rfl
      refine ⟨token, _, answer, s', alone_of_exec (exec_of_runAlone _ _ _ _ _ _ _ _ hrun),
        fun hall => ?_, url, key, acquired, rfl⟩
      rcases hall [] [.lockFreed key, .lockAsked key acquired] [] url url token token false rfl with
        ⟨_, _, hmem⟩
      simp at hmem
  · cases htest

end Example

end Sandbox.Web
