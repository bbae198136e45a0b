import Sandbox.Auth.Blocks

/-!
# What Requests Do to Sessions

A session is kept three times: as a value under the digest of its cookie, in
the index from its `sid`, and as a record in the database. Six things are done
to them. A session is created in all three places at once, it is touched, it is
dropped because it has expired or because its browser logged in again, and it is
revoked. Everything else leaves the three parts alone.

The theorems say which program does which of them, even if other programs
change the other parts meanwhile. Nothing further is needed about the programs
to show that the three parts agree.

## Main definitions

* `noSessions`: The parts of the state that hold nothing of a session.
* `Created`, `Touched`, `Dropped`, `Sought`, `Marked`: What programs do.
* `SessionStep`: A step of a request, seen from its sessions.

## Theorems

* `amid_createSsoSession`, `amid_touchSsoSession`, `amid_destroySsoSession`,
  `amid_loadSsoSessionByKey`, `amid_findSsoSessionBySid`,
  `amid_revokeSessionBySid`: The programs.
-/

namespace Sandbox.Auth

open Interleave Ttl

/-- The parts that hold sessions, their index and their records. -/
def sessionParts : List Field := [.ssoSessions, .sidIndex, .sessions]

/-- The parts that hold no session, no index of sessions and no record of one. -/
def noSessions : List Field :=
  [.authorizationRequests, .authorizationCodes, .refreshTokens, .refreshTokenFamilies,
    .sidRefreshFamilies, .mfaPending, .users, .memberships, .mfaMethods, .sessionClients,
    .audit, .outbox]

section Relations

/-- A session was put in all three places under a fresh cookie and `sid`. -/
structure Created (deps : Deps) (a : CreatedSsoSession) (s s' : State) : Prop where
  changes : Changes (sessionParts ++ noSessions) s s'
  freshCookie : a.cookieValue ∉ s.issued
  freshSid : a.session.sid ∉ s.issued
  issuedCookie : a.cookieValue ∈ s'.issued
  issuedSid : a.session.sid ∈ s'.issued
  nonempty : a.cookieValue ≠ ""
  id : a.session.id = deps.keyOf a.cookieValue
  createdAt : a.session.createdAt = s.now
  lastSeenAt : a.session.lastSeenAt = s.now
  ssoSessions : s'.ssoSessions =
    Ttl.set s.ssoSessions s.now a.session.id a.session ssoExpiry.absoluteSeconds
  sidIndex : s'.sidIndex =
    Ttl.set s.sidIndex s.now a.session.sid a.session.id ssoExpiry.absoluteSeconds
  sessions : ∃ environment : RequestEnvironment, s'.sessions = s.sessions ++
    [⟨a.session.sid, a.session.userId, environment.ip, environment.userAgent, s.now, s.now, none,
      none⟩]

/-- A session and its record were seen now. -/
structure Touched (x : SsoSession) (s s' : State) : Prop where
  changes : Changes (.ssoSessions :: .sessions :: noSessions) s s'
  ssoSessions : s'.ssoSessions =
    Ttl.set s.ssoSessions s.now x.id { x with lastSeenAt := s.now } (x.remainingTtl s.now)
  sessions : ∃ environment : RequestEnvironment, s'.sessions = s.sessions.map fun r =>
    if r.id = x.sid then
      { r with ip := environment.ip, userAgent := environment.userAgent, lastSeenAt := s.now }
    else r

/-- A session and its index were deleted. -/
structure Dropped (x : SsoSession) (s s' : State) : Prop where
  changes : Changes (.ssoSessions :: .sidIndex :: noSessions) s s'
  ssoSessions : s'.ssoSessions = Ttl.delete s.ssoSessions x.id
  sidIndex : s'.sidIndex = Ttl.delete s.sidIndex x.sid

/-- The session that a `sid` led to was dropped, if there was one. -/
inductive Sought (sid : String) (s s' : State) : Prop
  | found {key : String} {x : SsoSession} (hkey : Ttl.get s.sidIndex s.now sid = some key)
      (hx : Ttl.get s.ssoSessions s.now key = some x) (h : Dropped x s s')
  | missing (hnone : ∀ key, Ttl.get s.sidIndex s.now sid = some key →
      Ttl.get s.ssoSessions s.now key = none) (h : Changes noSessions s s')

/-- The record of a session was marked. -/
structure Marked (sid : String) (s s' : State) : Prop where
  changes : Changes (.sessions :: noSessions) s s'
  sessions : ∃ reason : SessionRevokeReason, s'.sessions = s.sessions.map fun r =>
    if r.id = sid ∧ r.revokedAt = none then
      { r with revokedAt := some s.now, revokeReason := some reason }
    else r

end Relations

/-- A step of a request, seen from its sessions. A login may end the session
    with the key `leaving`, which is not the one that it creates. -/
inductive SessionStep (deps : Deps) (leaving : Option String) : State → State → Prop
  | aside {s s' : State} (h : Changes noSessions s s') : SessionStep deps leaving s s'
  | created {s s' : State} {a : CreatedSsoSession} (h : Created deps a s s')
      (hne : leaving ≠ some a.session.id) : SessionStep deps leaving s s'
  | touched {s s' : State} {x : SsoSession} (h : Touched x s s')
      (hx : s.presented x.id = some x) : SessionStep deps leaving s s'
  | expired {s s' : State} {key : String} {x : SsoSession} (h : Dropped x s s')
      (hx : Ttl.get s.ssoSessions s.now key = some x) (hexp : x.isExpired s.now = true) :
      SessionStep deps leaving s s'
  | ended {s s' : State} {key : String} {x : SsoSession} (h : Dropped x s s')
      (hkey : leaving = some key) (hx : s.presented key = some x) : SessionStep deps leaving s s'
  | revoked {s s₁ s' : State} {sid : String} (h : Sought sid s s₁) (hmark : Marked sid s₁ s') :
      SessionStep deps leaving s s'

section Programs

variable {s s' : State} {es : List Event} {deps : Deps}

/-- A random value that is drawn while others change things. -/
theorem amid_randomToken {fs : List Field} {bytes : Nat} {v : String}
    (h : Amid (Changes fs) s (randomToken bytes) es v s') :
    v ∉ s.issued ∧ v ∈ s'.issued ∧ isBase64Url bytes v = true ∧ Changes fs s s' := by
  have hwithin := (amid_within (moves_changes fs) (fun _ _ => id) h touches_randomToken).1
  rcases amid_action h with ⟨s₁, i, s₂, hbefore, hrun, hafter, _⟩
  cases i <;> first | cases hrun | skip
  simp only at hrun
  split at hrun
  · next hvalue =>
      cases hrun
      exact ⟨fun hmem => hvalue.2 (hbefore.issued hmem),
        hafter.issued List.mem_cons_self, hvalue.1, hwithin⟩
  · cases hrun

theorem amid_nowSeconds {fs : List Field} {now : Int}
    (h : Amid (Changes fs) s nowSeconds es now s') : now = s.now ∧ Changes fs s s' := by
  rcases amid_read h with ⟨s₁, hbefore, rfl, hafter, _⟩
  exact ⟨hbefore.now, hbefore.trans hafter⟩

/-- Of two programs, the left one sees what the right one changes as well. -/
theorem amid_left {α β : Type} {fs gs : List Field} {p : AuthProg α} {q : AuthProg β} {ab : α × β}
    (h : Amid (Changes fs) s (Prog.both p q) es ab s') (hq : Touches gs q) :
    ∃ es₁, Amid (Changes (gs ++ fs)) s p es₁ ab.1 s' ∧ ∀ e ∈ es₁, e ∈ es :=
  amid_both_left (moves_changes _) (fun _ _ hch => hch.mono (List.subset_append_right _ _)) h
    (hq.mono (List.subset_append_left _ _))

theorem amid_right {α β : Type} {fs gs : List Field} {p : AuthProg α} {q : AuthProg β} {ab : α × β}
    (h : Amid (Changes fs) s (Prog.both p q) es ab s') (hp : Touches gs p) :
    ∃ es₁, Amid (Changes (gs ++ fs)) s q es₁ ab.2 s' ∧ ∀ e ∈ es₁, e ∈ es :=
  amid_both_right (moves_changes _) (fun _ _ hch => hch.mono (List.subset_append_right _ _)) h
    (hp.mono (List.subset_append_left _ _))

/-- A program among others changes what it touches and what they change. -/
theorem amid_touches {α : Type} {fs gs : List Field} {p : AuthProg α} {a : α}
    (h : Amid (Changes fs) s p es a s') (hp : Touches gs p) : Changes (gs ++ fs) s s' :=
  (amid_within (moves_changes _) (fun _ _ hch => hch.mono (List.subset_append_right _ _)) h
    (hp.mono (List.subset_append_left _ _))).1

/-- A program that touches only parts that the others change as well. -/
theorem amid_among {α : Type} {fs gs : List Field} {p : AuthProg α} {a : α}
    (h : Amid (Changes fs) s p es a s') (hp : Touches gs p) (hsub : gs ⊆ fs) : Changes fs s s' :=
  (amid_touches h hp).mono (List.append_subset.mpr ⟨hsub, List.Subset.refl _⟩)

theorem amid_destroySsoSession {x : SsoSession} {a : Unit}
    (h : Amid (Changes noSessions) s (destroySsoSession x) es a s') : Dropped x s s' := by
  have hchanges := amid_touches h touches_destroySsoSession
  rcases amid_bind changes_refl h with ⟨_, s₁, _, _, hboth, hdone, _⟩
  have hlast := (amid_done hdone).2.2
  refine ⟨hchanges, ?_, ?_⟩
  · rcases amid_left hboth (touches_delete onField_sidIndex) with ⟨_, hdelete, _⟩
    rcases amid_write hdelete with ⟨s₂, hbefore, hafter, _⟩
    rw [show s'.ssoSessions = s₁.ssoSessions from hlast.same .ssoSessions (by decide),
      show s₁.ssoSessions = _ from hafter.same .ssoSessions (by decide),
      ← show s₂.ssoSessions = s.ssoSessions from hbefore.same .ssoSessions (by decide)]
    rfl
  · rcases amid_right hboth (touches_delete onField_ssoSessions) with ⟨_, hdelete, _⟩
    rcases amid_write hdelete with ⟨s₂, hbefore, hafter, _⟩
    rw [show s'.sidIndex = s₁.sidIndex from hlast.same .sidIndex (by decide),
      show s₁.sidIndex = _ from hafter.same .sidIndex (by decide),
      ← show s₂.sidIndex = s.sidIndex from hbefore.same .sidIndex (by decide)]
    rfl

/-- What loading by a key does and finds. -/
inductive Loaded (key : String) (s s' : State) : Option SsoSession → Prop
  | missing (hnone : Ttl.get s.ssoSessions s.now key = none) (h : Changes noSessions s s') :
      Loaded key s s' none
  | expired {x : SsoSession} (hx : Ttl.get s.ssoSessions s.now key = some x)
      (hexp : x.isExpired s.now = true) (h : Dropped x s s') : Loaded key s s' none
  | alive {x : SsoSession} (hx : s.presented key = some x) (h : Changes noSessions s s') :
      Loaded key s s' (some x)

/-- What comes before is about other parts. -/
theorem Dropped.after {x : SsoSession} {s₁ : State} (h : Dropped x s₁ s')
    (hbefore : Changes noSessions s s₁) : Dropped x s s' where
  changes := (hbefore.mono (by decide)).trans h.changes
  ssoSessions := by
    rw [h.ssoSessions, show s₁.ssoSessions = s.ssoSessions from
      hbefore.same .ssoSessions (by decide)]
  sidIndex := by
    rw [h.sidIndex, show s₁.sidIndex = s.sidIndex from hbefore.same .sidIndex (by decide)]

/-- What comes afterwards is about other parts. -/
theorem Dropped.before {x : SsoSession} {s₁ : State} (h : Dropped x s s₁)
    (hafter : Changes noSessions s₁ s') : Dropped x s s' where
  changes := h.changes.trans (hafter.mono (by decide))
  ssoSessions := (hafter.same .ssoSessions (by decide)).trans h.ssoSessions
  sidIndex := (hafter.same .sidIndex (by decide)).trans h.sidIndex

/-- What a key presents is not changed by other parts. -/
theorem Changes.presented (h : Changes noSessions s s') (key : String) :
    s'.presented key = s.presented key := by
  unfold State.presented
  rw [h.now, show s'.ssoSessions = s.ssoSessions from h.same .ssoSessions (by decide)]

theorem amid_loadSsoSessionByKey {key : String} {a : Option SsoSession}
    (h : Amid (Changes noSessions) s (loadSsoSessionByKey key) es a s') : Loaded key s s' a := by
  rcases amid_bind changes_refl h with ⟨stored, s₁, _, _, hget, hrest, _⟩
  rcases amid_read hget with ⟨s₀, hbefore, hstored, hafter, _⟩
  have hfirst := hbefore.trans hafter
  -- The read sees the entry as it was at the beginning.
  have hread : Ttl.get s.ssoSessions s.now key = stored := by
    rw [hstored, ← show s₀.ssoSessions = s.ssoSessions from hbefore.same .ssoSessions (by decide),
      ← hbefore.now]
    rfl
  cases stored with
  | none =>
      rcases amid_done hrest with ⟨_, rfl, hlast⟩
      exact .missing hread (hfirst.trans hlast)
  | some x =>
      rcases amid_bind changes_refl hrest with ⟨now, s₂, _, _, hnow, hif, _⟩
      rcases amid_nowSeconds hnow with ⟨rfl, hsecond⟩
      rw [hfirst.now] at hif
      have hbefore₂ := hfirst.trans hsecond
      split at hif
      -- An expired session is removed within the same call.
      · next hexp =>
          rcases amid_bind changes_refl hif with ⟨_, s₃, _, _, hdestroy, hdone, _⟩
          rcases amid_done hdone with ⟨_, rfl, hlast⟩
          exact .expired hread hexp
            (((amid_destroySsoSession hdestroy).after hbefore₂).before hlast)
      · next hexp =>
          rcases amid_done hif with ⟨_, rfl, hlast⟩
          exact .alive (presented_eq_some.mpr ⟨hread, Bool.eq_false_of_not_eq_true hexp⟩)
            (hbefore₂.trans hlast)

theorem amid_createSsoSession {user : User} {authenticated : CognitoAuthenticated}
    {environment : RequestEnvironment} {a : CreatedSsoSession}
    (h : Amid (Changes noSessions) s (createSsoSession deps user authenticated environment) es a
      s') :
    Created deps a s s' ∧ .sessionStored a.session ∈ es := by
  have hchanges := amid_touches h touches_createSsoSession
  rcases amid_bind changes_refl h with ⟨now, s₁, _, es₂, hnow, h₂, rfl⟩
  rcases amid_nowSeconds hnow with ⟨rfl, hch₁⟩
  -- The cookie's value and the `sid` are drawn one after the other.
  rcases amid_bind changes_refl h₂ with ⟨cookie, s₂, _, es₃, hcookie, h₃, rfl⟩
  rcases amid_randomToken hcookie with ⟨hfresh, hissued, hform, hch₂⟩
  rcases amid_bind changes_refl h₃ with ⟨sid, s₃, _, es₄, hsid, h₄, rfl⟩
  rcases amid_randomToken hsid with ⟨hfreshSid, hissuedSid, _, hch₃⟩
  rcases amid_bind changes_refl h₄ with ⟨iv, s₄, _, es₅, hiv, h₅, rfl⟩
  have hch₄ : Changes noSessions s₃ s₄ := amid_among hiv touches_randomIv (List.nil_subset _)
  rcases amid_bind changes_refl h₅ with ⟨_, s₅, es₆, es₇, hboth, hdone, rfl⟩
  rcases amid_done hdone with ⟨rfl, rfl, hch₆⟩
  have hch : Changes noSessions s s₄ := ((hch₁.trans hch₂).trans hch₃).trans hch₄
  have hlater : s₄.issued ⊆ s'.issued :=
    List.Subset.trans (amid_touches hboth (touches_both
      ((touches_setLogged onField_ssoSessions rfl).mono (by decide : _ ⊆ sessionParts))
      (touches_both ((touches_setLogged onField_sidIndex rfl).mono (by decide))
        (touches_sessionsCreate.mono (by decide))))).issued hch₆.issued
  -- Each of the three writes happens amid the two others.
  rcases amid_left hboth (touches_both
    ((touches_setLogged onField_sidIndex rfl).mono (by decide : _ ⊆ [Field.sidIndex, .sessions]))
    (touches_sessionsCreate.mono (by decide))) with ⟨_, hstore, hmem⟩
  rcases amid_right hboth (touches_setLogged onField_ssoSessions rfl) with ⟨_, hothers, _⟩
  rcases amid_left hothers touches_sessionsCreate with ⟨_, hindex, _⟩
  rcases amid_right hothers (touches_setLogged onField_sidIndex rfl) with ⟨_, hcreate, _⟩
  rcases amid_logged hstore with ⟨s₆, hbefore₁, _, hafter₁, hlog⟩
  rcases amid_logged hindex with ⟨s₇, hbefore₂, _, hafter₂, _⟩
  refine ⟨⟨hchanges, fun hmem => hfresh (hch₁.issued hmem),
    fun hmem => hfreshSid (hch₂.issued (hch₁.issued hmem)),
    hlater (hch₄.issued (hch₃.issued hissued)), hlater (hch₄.issued hissuedSid), ?_, rfl, rfl,
    rfl, ?_, ?_, environment, ?_⟩, ?_⟩
  -- The empty string is no random value.
  · rintro rfl
    exact absurd hform (by decide)
  -- Each part is what its one write left there.
  · rw [show s'.ssoSessions = s₅.ssoSessions from hch₆.same .ssoSessions (by decide),
      show s₅.ssoSessions = _ from hafter₁.same .ssoSessions (by decide),
      ← show s₄.ssoSessions = s.ssoSessions from hch.same .ssoSessions (by decide),
      ← show s₆.ssoSessions = s₄.ssoSessions from hbefore₁.same .ssoSessions (by decide),
      ← hch.now, ← hbefore₁.now]
    rfl
  · rw [show s'.sidIndex = s₅.sidIndex from hch₆.same .sidIndex (by decide),
      show s₅.sidIndex = _ from hafter₂.same .sidIndex (by decide),
      ← show s₄.sidIndex = s.sidIndex from hch.same .sidIndex (by decide),
      ← show s₇.sidIndex = s₄.sidIndex from hbefore₂.same .sidIndex (by decide),
      ← hch.now, ← hbefore₂.now]
    rfl
  · rcases amid_action hcreate with ⟨s₈, _, s₉, hbefore₃, hrun, hafter₃, _⟩
    simp only at hrun
    split at hrun
    · cases hrun
    · cases hrun
      rw [show s'.sessions = s₅.sessions from hch₆.same .sessions (by decide),
        show s₅.sessions = _ from hafter₃.same .sessions (by decide),
        ← show s₄.sessions = s.sessions from hch.same .sessions (by decide),
        ← show s₈.sessions = s₄.sessions from hbefore₃.same .sessions (by decide)]
  · refine List.mem_append_left _ (List.mem_append_left _ (List.mem_append_left _
      (List.mem_append_left _ (List.mem_append_right _ (hmem _ ?_)))))
    rw [hlog]
    exact List.mem_singleton_self _

theorem amid_touchSsoSession {x : SsoSession} {client : OidcClient} {tenantId : String}
    {environment : RequestEnvironment} {a : SsoSession}
    (h : Amid (Changes noSessions) s (touchSsoSession x client tenantId environment) es a s') :
    Touched x s s' := by
  have hchanges := amid_touches h touches_touchSsoSession
  rcases amid_bind changes_refl h with ⟨now, s₁, _, _, hnow, h₂, _⟩
  rcases amid_nowSeconds hnow with ⟨rfl, hch₁⟩
  rcases amid_bind changes_refl h₂ with ⟨answers, s₂, _, _, hboth, hrest, _⟩
  -- What follows the writes is at most an entry of the log.
  have hch₃ : Changes noSessions s₂ s' := by
    refine amid_among hrest (?_ : Touches [.audit] _) (by decide)
    split
    · exact touches_pure _
    · split
      · exact touches_bind touches_recordAudit fun _ => touches_pure _
      · exact touches_pure _
  -- The session, the visit and the record are written at once.
  rcases amid_left hboth (touches_both
    ((touches_setLogged onField_ssoSessions rfl).mono
      (by decide : _ ⊆ [Field.ssoSessions, .sessionClients]))
    (touches_recordClient.mono (by decide))) with ⟨_, hrecord, _⟩
  rcases amid_right hboth touches_sessionsTouch with ⟨_, hothers, _⟩
  rcases amid_left hothers touches_recordClient with ⟨_, hstore, _⟩
  rcases amid_logged hstore with ⟨s₃, hbefore, _, hafter, _⟩
  refine ⟨hchanges.mono (by decide), ?_, environment, ?_⟩
  -- The entry is what the one save left, since the others write elsewhere.
  · rw [show s'.ssoSessions = s₂.ssoSessions from hch₃.same .ssoSessions (by decide),
      show s₂.ssoSessions = _ from hafter.same .ssoSessions (by decide),
      ← show s₁.ssoSessions = s.ssoSessions from hch₁.same .ssoSessions (by decide),
      ← show s₃.ssoSessions = s₁.ssoSessions from hbefore.same .ssoSessions (by decide)]
    have hclock : s₃.now = s.now := hbefore.now.trans hch₁.now
    rw [← hclock]
    rfl
  · rcases amid_atomic hrecord with ⟨s₄, hbefore', _, hafter', _⟩
    rw [show s'.sessions = s₂.sessions from hch₃.same .sessions (by decide),
      show s₂.sessions = _ from hafter'.same .sessions (by decide),
      ← show s₁.sessions = s.sessions from hch₁.same .sessions (by decide),
      ← show s₄.sessions = s₁.sessions from hbefore'.same .sessions (by decide)]

/-- What comes before the search is about other parts. -/
theorem Sought.after {sid : String} {s₁ : State} (h : Sought sid s₁ s')
    (hbefore : Changes noSessions s s₁) : Sought sid s s' := by
  have hindex : s₁.sidIndex = s.sidIndex := hbefore.same .sidIndex (by decide)
  have hsessions : s₁.ssoSessions = s.ssoSessions := hbefore.same .ssoSessions (by decide)
  cases h with
  | found hkey hx h =>
      rw [hindex, hbefore.now] at hkey
      rw [hsessions, hbefore.now] at hx
      exact .found hkey hx (h.after hbefore)
  | missing hnone h =>
      rw [hindex, hsessions, hbefore.now] at hnone
      exact .missing hnone (hbefore.trans h)

/-- What comes after the search is about other parts. -/
theorem Sought.before {sid : String} {s₁ : State} (h : Sought sid s s₁)
    (hafter : Changes noSessions s₁ s') : Sought sid s s' := by
  cases h with
  | found hkey hx h => exact .found hkey hx (h.before hafter)
  | missing hnone h => exact .missing hnone (h.trans hafter)

/-- What searching by a `sid` does and finds. -/
inductive FoundBySid (sid : String) (s s' : State) : Option SsoSession → Prop
  | gone (h : Sought sid s s') : FoundBySid sid s s' none
  | alive {key : String} {x : SsoSession} (hkey : Ttl.get s.sidIndex s.now sid = some key)
      (hx : s.presented key = some x) (h : Changes noSessions s s') : FoundBySid sid s s' (some x)

theorem amid_findSsoSessionBySid {sid : String} {a : Option SsoSession}
    (h : Amid (Changes noSessions) s (findSsoSessionBySid sid) es a s') :
    FoundBySid sid s s' a := by
  rcases amid_bind changes_refl h with ⟨stored, s₁, _, _, hget, hrest, _⟩
  rcases amid_logged hget with ⟨s₀, hbefore, hstored, hafter, _⟩
  have hfirst := hbefore.trans hafter
  -- The read sees the index as it was at the beginning.
  have hread : Ttl.get s.sidIndex s.now sid = stored := by
    rw [hstored, ← show s₀.sidIndex = s.sidIndex from hbefore.same .sidIndex (by decide),
      ← hbefore.now]
    rfl
  cases stored with
  | none =>
      rcases amid_done hrest with ⟨_, rfl, hlast⟩
      exact .gone (.missing (fun key hkey => nomatch hread.symm.trans hkey) (hfirst.trans hlast))
  | some key =>
      -- The session is then loaded as it was.
      have hsame : Ttl.get s₁.ssoSessions s₁.now key = Ttl.get s.ssoSessions s.now key := by
        rw [hfirst.now, show s₁.ssoSessions = s.ssoSessions from
          hfirst.same .ssoSessions (by decide)]
      cases amid_loadSsoSessionByKey hrest with
      | missing hnone hlast =>
          refine .gone (.missing (fun key' hkey' => ?_) (hfirst.trans hlast))
          cases hread.symm.trans hkey'
          exact hsame.symm.trans hnone
      | expired hx _ hdrop => exact .gone (.found hread (hsame.symm.trans hx) (hdrop.after hfirst))
      | alive hx hlast =>
          exact .alive hread ((hfirst.presented key).symm.trans hx) (hfirst.trans hlast)

theorem amid_markRevoked {sid : String} {reason : SessionRevokeReason} {a : Unit}
    (h : Amid (Changes noSessions) s (do let now ← nowSeconds; Sessions.markRevoked sid reason now)
      es a s') : Marked sid s s' := by
  have hchanges := amid_touches h
    (touches_bind touches_nowSeconds fun _ => touches_markRevoked)
  rcases amid_bind changes_refl h with ⟨now, s₁, _, _, hnow, hmark, _⟩
  rcases amid_nowSeconds hnow with ⟨rfl, hbefore⟩
  rcases amid_write hmark with ⟨s₂, hbefore₂, hafter, _⟩
  refine ⟨hchanges, reason, ?_⟩
  rw [show s'.sessions = _ from hafter.same .sessions (by decide),
    ← show s₂.sessions = s.sessions from (hbefore.trans hbefore₂).same .sessions (by decide)]

/-- Ending the session that was found drops it. -/
theorem amid_revokeFoundSession {sid : String} {s₀ : State} {session : Option SsoSession} {a : Unit}
    (hfound : FoundBySid sid s₀ s session)
    (h : Amid (Changes noSessions) s (revokeFoundSession deps session sid) es a s') :
    Sought sid s₀ s' := by
  cases hfound with
  | gone hsought => exact hsought.before (amid_done h).2.2
  | alive hkey hx hbefore =>
      rcases amid_bind changes_refl h with ⟨families, s₁, _, _, hlist, h₁, _⟩
      have hch₁ : Changes noSessions s s₁ :=
        amid_among hlist touches_listRefreshFamilies (List.nil_subset _)
      rcases amid_bind changes_refl h₁ with ⟨_, s₂, _, _, hboth, hforget, _⟩
      have hch₃ : Changes noSessions s₂ s' :=
        amid_among hforget (touches_delete onField_sidRefreshFamilies) (by decide)
      rcases amid_right hboth (touches_all fun _ _ => touches_revokeRefreshTokenFamily) with
        ⟨_, hrest, _⟩
      rcases amid_right hrest (touches_revokeCognitoTokens : Touches [] _) with ⟨_, hdestroy, _⟩
      have hdrop := amid_destroySsoSession (hdestroy.mono fun _ _ hch => hch.mono (by decide))
      exact .found hkey (presented_eq_some.mp hx).1
        ((hdrop.after (hbefore.trans hch₁)).before hch₃)

/-- What comes after the mark is about other parts. -/
theorem Marked.before {sid : String} {s₁ : State} (h : Marked sid s s₁)
    (hafter : Changes noSessions s₁ s') : Marked sid s s' where
  changes := h.changes.trans (hafter.mono (by decide))
  sessions := h.sessions.imp fun _ heq =>
    (show s'.sessions = s₁.sessions from hafter.same .sessions (by decide)).trans heq

theorem amid_revokeSessionBySid {sid : String} {reason : SessionRevokeReason}
    {environment : Option RequestEnvironment} {a : Unit}
    (h : Amid (Changes noSessions) s (revokeSessionBySid deps sid reason environment) es a s') :
    ∃ s₁, Sought sid s s₁ ∧ Marked sid s₁ s' := by
  rcases amid_bind changes_refl h with ⟨found, s₁, _, _, hboth, h₁, _⟩
  rcases amid_left hboth (touches_findWithClients : Touches [] _) with ⟨_, hfind, _⟩
  rcases amid_bind changes_refl h₁ with ⟨_, s₂, _, _, hend, h₂, _⟩
  have hsought := amid_revokeFoundSession (amid_findSsoSessionBySid hfind) hend
  rcases amid_bind changes_refl h₂ with ⟨told, s₃, _, _, htold, h₃, _⟩
  rcases amid_right htold (touches_all fun _ _ => touches_notifyClientById) with ⟨_, hmark, _⟩
  have hmarked := amid_markRevoked (hmark.mono fun _ _ hch => hch.mono (by decide))
  rcases amid_bind changes_refl h₃ with ⟨_, s₄, _, _, haudit, hemit, _⟩
  have hch₄ : Changes noSessions s₃ s₄ := amid_among haudit touches_recordAudit (by decide)
  rcases amid_logged hemit with ⟨s₅, hbefore, _, hafter, _⟩
  exact ⟨s₂, hsought, hmarked.before (hch₄.trans (hbefore.trans hafter))⟩

end Programs

end Sandbox.Auth
