import Sandbox.Auth.FamilyCuts
import Sandbox.Auth.TokenAnswers

/-!
# Ending a Session

A session is ended by its `sid`. After a run of requests that do not overlap
every session that can be presented is found that way, and it is listed to its
user. Ending it takes the session and its index, marks its record and revokes
the tokens that rest on it, and it leaves all other sessions, records, tokens
and codes alone.

The codes that rest on it stay in the store. They are of no use, as the token
endpoint looks at the session, and no session ever gets the `sid` again.

## Main definitions

* `Ended`: What ending a session does.
* `Over`: What holds from then on.
* `Refused`: What is refused then.

## Theorems

* `exec_revokeSession`: The steps of the use case.
* `session_end_exact`: What is ended, and that nothing else is.
* `Over.step`: Every step preserves that it is over.
* `ended_session_is_over`: No tokens and no codes rest on it later.
* `session_revocation_exact`: What is refused from then on, and what is left.
-/

namespace Sandbox.Auth.SessionEnd

open Interleave Ttl

/-- The parts that ending a session changes. -/
def endedParts : List Field :=
  [.ssoSessions, .sidIndex, .sessions, .refreshTokens, .sidRefreshFamilies, .audit, .outbox]

/-- A session was ended. -/
structure Ended (sid : String) (s s' : State) (es : List Event) : Prop where
  sought : ∃ s₁, Sought sid s s₁ ∧ Marked sid s₁ s'
  tokens : ∀ key, s'.refreshTokens key = s.refreshTokens key ∨
    (∃ ref ∈ refsOf s sid, key ∈ members s.refreshTokenFamilies s.now ref.familyId) ∧
      ∃ e e', s.refreshTokens key = some e ∧ s'.refreshTokens key = some e' ∧
        e'.value = { e.value with status := .revoked }
  lists : ∀ sid', sid' ≠ sid → s'.sidRefreshFamilies sid' = s.sidRefreshFamilies sid'
  revoked : ∀ key x, Ttl.get s.sidIndex s.now sid = some key → s.presented key = some x →
    ∀ ref ∈ refsOf s sid, .familyRevoked ref.familyId ∈ es
  changes : Changes endedParts s s'

section UseCase

variable {deps : Deps} {s s' s₀ : State} {es : List Event} {sid key : String} {x : SsoSession}
  {fs : List Field}

/-- A session that can be presented is found by its `sid`. -/
theorem amid_findPresented {a : Option SsoSession} (hfs : fs ⊆ noSessions)
    (h : Amid (Changes fs) s (findSsoSessionBySid sid) es a s')
    (hkey : Ttl.get s.sidIndex s.now sid = some key) (hx : s.presented key = some x) :
    a = some x := by
  have h' : Amid (Changes noSessions) s (findSsoSessionBySid sid) es a s' :=
    h.mono fun _ _ hch => hch.mono hfs
  rcases amid_bind changes_refl h' with ⟨stored, s₁, _, _, hget, hload, _⟩
  rcases amid_logged hget with ⟨s₂, hbefore, hstored, hafter, _⟩
  have hfirst := hbefore.trans hafter
  -- Nothing around the call touches the index or the sessions.
  have hread : Ttl.get s.sidIndex s.now sid = stored := by
    rw [hstored, ← show s₂.sidIndex = s.sidIndex from hbefore.same .sidIndex (by decide),
      ← hbefore.now]
    rfl
  rw [hkey] at hread
  subst hread
  have hx₁ : s₁.presented key = some x := (hfirst.presented key).trans hx
  cases amid_loadSsoSessionByKey hload with
  | missing hnone _ => cases hnone.symm.trans (presented_eq_some.mp hx₁).1
  | expired hx₂ hexp _ =>
      cases hx₂.symm.trans (presented_eq_some.mp hx₁).1
      exact absurd ((presented_eq_some.mp hx₁).2.symm.trans hexp) Bool.false_ne_true
  | alive hx₂ _ => rw [← hx₂, hx₁]

theorem exec_refsOf {refs : List RefreshFamilyRef}
    (h : Exec s (listRefreshFamilies sid) es refs s') : refs = refsOf s sid ∧ s' = s := by
  rcases exec_bind h with ⟨found, s₁, _, _, hread, hdone, _⟩
  rcases exec_read hread with ⟨_, rfl, rfl⟩
  rcases exec_done hdone with ⟨_, rfl, rfl⟩
  exact ⟨rfl, rfl⟩

/-- What is done with the families of a session that was found. -/
theorem exec_revokeFound {session : Option SsoSession} {a : Unit}
    (h : Exec s (revokeFoundSession deps session sid) es a s') :
    (∀ key, s'.refreshTokens key = s.refreshTokens key ∨
      (∃ ref ∈ refsOf s sid, key ∈ members s.refreshTokenFamilies s.now ref.familyId) ∧
        ∃ e e', s.refreshTokens key = some e ∧ s'.refreshTokens key = some e' ∧
          e'.value = { e.value with status := .revoked }) ∧
    (∀ sid', sid' ≠ sid → s'.sidRefreshFamilies sid' = s.sidRefreshFamilies sid') ∧
    (session.isSome → ∀ ref ∈ refsOf s sid, .familyRevoked ref.familyId ∈ es) ∧
    Changes endedParts s s' := by
  cases session with
  | none =>
      rcases exec_done h with ⟨_, _, rfl⟩
      exact ⟨fun _ => .inl rfl, fun _ _ => rfl, (fun hc => by cases hc), changes_refl _⟩
  | some session =>
      rcases exec_bind h with ⟨refs, s₁, es₁, _, hlist, h₁, rfl⟩
      rcases exec_refsOf hlist with ⟨rfl, rfl⟩
      rcases exec_bind h₁ with ⟨_, s₂, es₂, _, hboth, hforget, rfl⟩
      rcases exec_write hforget with ⟨_, rfl⟩
      have hamid : Amid (Changes []) s₁ _ es₂ _ s₂ := amid_of_exec changes_refl hboth
      -- The families are revoked while the session is destroyed.
      have hothers : Touches [.ssoSessions, .sidIndex]
          (Prog.both (revokeCognitoTokens deps session) (destroySsoSession session)) :=
        touches_both touches_revokeCognitoTokens touches_destroySsoSession
      have hch := amid_touches hamid (touches_both
        ((touches_all fun _ _ => touches_revokeRefreshTokenFamily).mono
          (by decide : _ ⊆ [Field.refreshTokens, .refreshTokenFamilies, .ssoSessions, .sidIndex]))
        (hothers.mono (by decide)))
      rcases amid_left hamid hothers with ⟨es₃, hall, hes⟩
      -- Only the listed families lose their tokens.
      have hretired : Retired (fun f => ∃ ref ∈ refsOf s₁ sid, ref.familyId = f) s₁ s₂ :=
        amid_retired hall (by decide) ((closed_keeps _ _).all fun ref href =>
          keeps_retireFamily ⟨ref, href, rfl⟩)
      refine ⟨fun key => ?_, fun sid' hne => ?_, fun _ ref href => ?_, ?_⟩
      · refine (hretired.tokens key).imp_right ?_
        rintro ⟨⟨_, ⟨ref, href, rfl⟩, hkey⟩, hvalue⟩
        exact ⟨⟨ref, href, hkey⟩, hvalue⟩
      · exact (delete_of_ne _ hne).trans (congrFun hretired.lists sid')
      · have hwide := hall.mono fun _ _ hch => hch.mono
          (by decide : _ ⊆ familyParts ++ [Field.ssoSessions, .sidIndex])
        refine List.mem_append_left _ (List.mem_append_right _ (hes _ ?_))
        exact mem_of_amid_revokeAll hwide (by decide) ref href
      -- The set of the `sid` is dropped at the end.
      · have hforget' : Changes [.sidRefreshFamilies] s₂ _ :=
          onField_sidRefreshFamilies (Ttl.delete s₂.sidRefreshFamilies sid) s₂
        have hall' := (hch.mono (by decide : _ ⊆ .refreshTokenFamilies :: endedParts)).trans
          (hforget'.mono (by decide))
        exact hall'.unchanged hretired.sets

/-- Ending a session. -/
theorem exec_revokeSession {reason : SessionRevokeReason}
    {environment : Option RequestEnvironment} {a : Unit}
    (h : Exec s (revokeSessionBySid deps sid reason environment) es a s') : Ended sid s s' es := by
  have hwhole : Amid (Changes noSessions) s _ es a s' := amid_of_exec changes_refl h
  rcases amid_revokeSessionBySid hwhole with ⟨s₄, hsought, hmark⟩
  rcases exec_bind h with ⟨found, s₁, es₁, _, hboth, h₁, rfl⟩
  rcases exec_bind h₁ with ⟨_, s₂, es₂, _, hfound, h₂, rfl⟩
  rcases exec_bind h₂ with ⟨told, s₃, _, _, htold, h₃, rfl⟩
  -- The look-up before, and the notices and the record after, write no token.
  have hfirst : Changes [.ssoSessions, .sidIndex] s s₁ :=
    (exec_touches hboth (touches_both touches_findSsoSessionBySid touches_findWithClients)).1
  have hlast : Changes [.sidIndex, .sessions, .audit, .outbox] s₂ s' := by
    have hnotified := (exec_touches htold (touches_both
      ((touches_all fun _ _ => touches_notifyClientById).mono
        (by decide : _ ⊆ [Field.outbox, .sessions]))
      (touches_bind touches_nowSeconds fun _ => touches_markRevoked.mono (by decide)))).1
    have hrest := (exec_touches h₃ (touches_bind
      (touches_recordAudit.mono (by decide : _ ⊆ [Field.audit, .sidIndex]))
      fun _ => touches_emit (by decide : Field.sidIndex ∈ _))).1
    exact (hnotified.mono (by decide)).trans (hrest.mono (by decide))
  rcases exec_revokeFound hfound with ⟨htokens, hlists, hrevoked, hch⟩
  -- So the families that are revoked are those listed at the beginning.
  have hrefs : refsOf s₁ sid = refsOf s sid := by
    unfold refsOf
    rw [show s₁.sidRefreshFamilies = s.sidRefreshFamilies from
      hfirst.same .sidRefreshFamilies (by decide), hfirst.now]
  have hbefore : s₁.refreshTokens = s.refreshTokens := hfirst.same .refreshTokens (by decide)
  have hsets : s₁.refreshTokenFamilies = s.refreshTokenFamilies :=
    hfirst.same .refreshTokenFamilies (by decide)
  have hafter : s'.refreshTokens = s₂.refreshTokens := hlast.same .refreshTokens (by decide)
  rw [hbefore, hsets, hfirst.now, hrefs] at htokens
  refine ⟨⟨s₄, hsought, hmark⟩, fun key => hafter ▸ htokens key, fun sid' hne => ?_,
    fun key x hkey hx ref href => ?_,
    (hfirst.mono (by decide)).trans (hch.trans (hlast.mono (by decide)))⟩
  · rw [show s'.sidRefreshFamilies = s₂.sidRefreshFamilies from
        hlast.same .sidRefreshFamilies (by decide), hlists sid' hne,
      show s₁.sidRefreshFamilies = s.sidRefreshFamilies from
      hfirst.same .sidRefreshFamilies (by decide)]
  · have hamid : Amid (Changes []) s _ es₁ found s₁ := amid_of_exec changes_refl hboth
    -- A session that is presented is found by its `sid`.
    rcases amid_left hamid (touches_findWithClients : Touches [] _) with ⟨_, hfind, _⟩
    have hsome : found.1 = some x := amid_findPresented (List.nil_subset _) hfind hkey hx
    have hmem := hrevoked (by rw [hsome]; rfl) ref (hrefs ▸ href)
    exact List.mem_append_left _ (List.mem_append_right _ hmem)

end UseCase

section Exactness

variable {deps : Deps} {s s' : State} {es : List Event} {sid : String}

/-- A session that can be presented is found by its `sid`. -/
theorem index_of_presented {key : String} {x : SsoSession} (hrec : Recorded deps s)
    (hx : s.presented key = some x) : Ttl.get s.sidIndex s.now x.sid = some key := by
  rcases get_eq_some.mp (presented_eq_some.mp hx).1 with ⟨e, he, hlive, rfl⟩
  exact get_eq_some.mpr ⟨_, hrec.indexed key e he hlive, hlive, rfl⟩

/-- Marking a record leaves the others, in their order. -/
theorem others_of_marked (h : Marked sid s s') :
    (s'.sessions.filter fun r => r.id ≠ sid) = s.sessions.filter fun r => r.id ≠ sid := by
  rcases h.sessions with ⟨reason, hmarked⟩
  rw [hmarked, List.filter_map]
  have hid : (fun r : AuthSessionRecord => decide (r.id ≠ sid)) ∘ (fun r =>
      if r.id = sid ∧ r.revokedAt = none then
        { r with revokedAt := some s.now, revokeReason := some reason }
      else r) = fun r => decide (r.id ≠ sid) := by
    funext r
    rw [Function.comp_apply]
    split
    · rfl
    · rfl
  rw [hid]
  refine (List.map_congr_left fun r hr => if_neg fun hboth => ?_).trans (List.map_id _)
  exact of_decide_eq_true (List.mem_filter.mp hr).2 hboth.1

/-- The sessions that are left are those with another `sid`. -/
theorem Ended.sessions (h : Ended sid s s' es) (hrec : Recorded deps s) :
    (∀ k e, s'.ssoSessions k = some e → s.ssoSessions k = some e) ∧
    (∀ k e, s.ssoSessions k = some e → e.value.sid ≠ sid → s'.ssoSessions k = some e) ∧
    (∀ sid', sid' ≠ sid → s'.sidIndex sid' = s.sidIndex sid') ∧
    ((s'.sessions.filter fun r => r.id ≠ sid) = s.sessions.filter fun r => r.id ≠ sid) ∧
    Absent s' sid := by
  rcases h.sought with ⟨s₁, hsought, hmark⟩
  have hgone := (hrec.sought hsought).2
  have hsessions : s'.ssoSessions = s₁.ssoSessions := hmark.changes.same .ssoSessions (by decide)
  have hindex : s'.sidIndex = s₁.sidIndex := hmark.changes.same .sidIndex (by decide)
  have hrecords : (s'.sessions.filter fun r => r.id ≠ sid) =
      s.sessions.filter fun r => r.id ≠ sid := by
    rw [others_of_marked hmark, show s₁.sessions = s.sessions from
      hsought.changes.same .sessions (by decide)]
  have habsent : Absent s' sid := by
    unfold Absent
    rw [hsessions, hmark.changes.now]
    exact hgone
  rw [hsessions, hindex]
  cases hsought with
  | missing hnone hch =>
      rw [show s₁.ssoSessions = s.ssoSessions from hch.same .ssoSessions (by decide),
        show s₁.sidIndex = s.sidIndex from hch.same .sidIndex (by decide)]
      exact ⟨fun _ _ he => he, fun _ _ he _ => he, fun _ _ => rfl, hrecords, habsent⟩
  | @found key x hkey hx hdrop =>
      -- The index leads to a session with the `sid`, and only that is dropped.
      rcases get_eq_some.mp hx with ⟨d, hd, _, rfl⟩
      rcases get_eq_some.mp hkey with ⟨i, hi, _, rfl⟩
      have hsid : d.value.sid = sid := (hrec.leads sid i hi).only d hd
      have hid : d.value.id = i.value := hrec.id _ d hd
      rw [hdrop.ssoSessions, hdrop.sidIndex, hsid, hid]
      refine ⟨fun k e he => (delete_eq_some he).2, fun k e he hne => ?_,
        fun sid' hne => delete_of_ne _ hne, hrecords, habsent⟩
      rw [delete_of_ne]
      · exact he
      · rintro rfl
        cases hd.symm.trans he
        exact hne hsid

/-- A session that can be presented is listed to its user. -/
theorem listed_of_presented {key : String} {x : SsoSession}
    {listed : List AuthSessionWithClients} (hrec : Recorded deps s)
    (hx : s.presented key = some x)
    (hlist : Exec s (Sessions.listActiveByUser x.userId) es listed s') :
    ∃ row ∈ listed, row.record.id = x.sid ∧ Sessions.isActive row.record s.now = true := by
  rcases get_eq_some.mp (presented_eq_some.mp hx).1 with ⟨e, he, hlive, rfl⟩
  rcases hrec.recorded key e he hlive with ⟨r, hr, hof⟩
  rcases SessionExpiry.lt_of_not_isExpired (presented_eq_some.mp hx).2 with ⟨hidle, habsolute⟩
  have hactive : Sessions.isActive r s.now = true := by
    refine ListedSessions.isActive_iff.mpr ⟨hof.revokedAt, ?_, ?_⟩
    · rw [hof.lastSeenAt]
      exact hidle
    · rw [hof.createdAt]
      exact habsolute
  exact ⟨_, ((exec_listActive hlist).2 _).mpr ⟨r, hr, hof.userId, hactive, rfl⟩, hof.id, hactive⟩

/-- No token of an ended session that could be presented can be used. -/
theorem inactive_of_ended {reason : SessionRevokeReason} {environment : Option RequestEnvironment}
    {a : Unit} {key : String} {t : RefreshToken} (hs : Settled deps s) (hcolons : NoColons s)
    (hexec : Exec s (AuthCall.body deps (.revokeSessionBySid sid reason environment)) es a s')
    (hget : Ttl.get s'.refreshTokens s'.now key = some t) (hsid : t.sid = sid)
    (hx : (s.presented t.ssoSessionId).isSome) : t.status ≠ .active := by
  intro hactive
  have hended : Ended sid s s' es := exec_revokeSession hexec
  rcases Option.isSome_iff_exists.mp hx with ⟨x, hx⟩
  rcases get_eq_some.mp hget with ⟨e, he, hlive, rfl⟩
  rcases hended.tokens key with hsame | ⟨_, _, d, _, hd, hvalue⟩
  · -- The token was there before, so its family was found and revoked.
    have he' : s.refreshTokens key = some e := hsame ▸ he
    have hbefore : Ttl.get s.refreshTokens s.now key = some e.value :=
      get_eq_some.mpr ⟨e, he', hended.changes.now ▸ hlive, rfl⟩
    rcases hs.sourced with ⟨origin, hg⟩
    have hrooted := (hg.known _ _ (hg.tokens key e he')).2.2
    have hx' := hx
    rcases get_eq_some.mp (presented_eq_some.mp hx').1 with ⟨d, hd, _, rfl⟩
    have hkey := index_of_presented hs.recorded hx
    rw [show d.value.sid = sid from (hrooted.refers.only d hd).trans hsid] at hkey
    have href := hs.refsOf_complete hcolons hbefore hactive hx
    rw [hsid] at href
    have hmem := hended.revoked _ _ hkey hx _ href
    exact hs.noUsable hexec (fun _ _ _ hc => by cases hc) (fun _ _ _ hc => by cases hc) hmem key
      e.value hget rfl hactive
  · cases hd.symm.trans he
    rw [hvalue] at hactive
    cases hactive

/-- A token that changes rests on the session that is ended, and it becomes
    revoked. -/
theorem Ended.changed (h : Ended sid s s' es) (hg : Sourced deps s) (hcolons : NoColons s)
    (key : String) : s'.refreshTokens key = s.refreshTokens key ∨
      ∃ e e', s.refreshTokens key = some e ∧ s'.refreshTokens key = some e' ∧
        e'.value = { e.value with status := .revoked } ∧ e.value.sid = sid := by
  refine (h.tokens key).imp_right ?_
  rintro ⟨⟨ref, href, hkey⟩, e, e', he, he', hvalue⟩
  -- It was found under the session, and its family rests there.
  rcases hg with ⟨origin, hg⟩
  rcases hg.refsOf_sound hcolons href with ⟨o, ho, hsid, _⟩
  rcases mem_members.mp hkey with ⟨keys, hkeys, _, hmem⟩
  have hfamily := (hg.sets _ keys hkeys key hmem).2 e he
  have horigin : some e.value.origin = some o := (hg.tokens key e he).symm.trans (hfamily ▸ ho)
  cases horigin
  exact ⟨e, e', he, he', hvalue, hsid⟩

theorem not_presented_of_absent (h : Absent s sid) (key : String) (x : SsoSession)
    (hx : s.presented key = some x) : x.sid ≠ sid := by
  rcases get_eq_some.mp (presented_eq_some.mp hx).1 with ⟨e, he, hlive, rfl⟩
  exact h key e he hlive

/-- After any run, ending a session by its `sid` ends what it should. Every
    session that can be presented is found by its `sid` and listed to its
    user. None with the `sid` can be presented afterwards, and if one could
    before then no token that rests on it can be used. The sessions with
    another `sid` are the same, no more and no fewer, and so are their index,
    their records, their tokens and their lists, and every other part. -/
theorem session_end_exact (hinj : Function.Injective deps.keyOf) (now : Int) (db : Identity)
    (hdb : db.UniqueClients) (ls : List (Happening Event AuthCall Change Answer)) (s : State)
    (h : Runs (authSystem deps) (State.start now db) ls s) (hls : ∀ l ∈ ls, Unguessed deps l)
    (hcolons : NoColons s) :
    (∀ key x, s.presented key = some x → Ttl.get s.sidIndex s.now x.sid = some key ∧
      ∀ es listed s', Exec s (Sessions.listActiveByUser x.userId) es listed s' →
        ∃ row ∈ listed, row.record.id = x.sid) ∧
    ∀ sid reason environment es a s',
      Exec s (AuthCall.body deps (.revokeSessionBySid sid reason environment)) es a s' →
      (∀ key x, s'.presented key = some x → x.sid ≠ sid) ∧
      (∀ key t, Ttl.get s'.refreshTokens s'.now key = some t → t.sid = sid →
        (s.presented t.ssoSessionId).isSome → t.status ≠ .active) ∧
      (∀ k e, e.value.sid ≠ sid → (s'.ssoSessions k = some e ↔ s.ssoSessions k = some e)) ∧
      (∀ sid', sid' ≠ sid → s'.sidIndex sid' = s.sidIndex sid' ∧
        s'.sidRefreshFamilies sid' = s.sidRefreshFamilies sid') ∧
      ((s'.sessions.filter fun r => r.id ≠ sid) = s.sessions.filter fun r => r.id ≠ sid) ∧
      (∀ key, s'.refreshTokens key = s.refreshTokens key ∨
        ∃ e e', s.refreshTokens key = some e ∧ s'.refreshTokens key = some e' ∧
          e'.value = { e.value with status := .revoked } ∧ e.value.sid = sid) ∧
      Changes endedParts s s' := by
  have hs := settled_of_runs hinj hdb h hls
  -- The list shows what the records say, and a live session has an active one.
  refine ⟨fun key x hx => ⟨index_of_presented hs.recorded hx, fun es listed s' hlist => ?_⟩, ?_⟩
  · rcases listed_of_presented hs.recorded hx hlist with ⟨row, hrow, hid, _⟩
    exact ⟨row, hrow, hid⟩
  · intro sid reason environment es a s' hexec
    have hended : Ended sid s s' es := exec_revokeSession hexec
    rcases hended.sessions hs.recorded with ⟨honly, hothers, hindex, hrecords, habsent⟩
    exact ⟨not_presented_of_absent habsent,
      fun key t hget hsid hx => inactive_of_ended hs hcolons hexec hget hsid hx,
      fun k e hne => ⟨honly k e, fun he => hothers k e he hne⟩,
      fun sid' hne => ⟨hindex sid' hne, hended.lists sid' hne⟩, hrecords,
      hended.changed hs.sourced hcolons, hended.changes⟩

end Exactness

section Later

variable {deps : Deps} {may : String → String → String → Prop} {leaving : Option String}
  {sid : String} {s₁ s s' : State}

/-- No session with the `sid` is alive or will be, and the unused codes that
    rest on it were there in the state `s₁` already. -/
structure Over (sid : String) (s₁ s : State) : Prop where
  known : sid ∈ s.issued
  absent : Absent s sid
  codes : ∀ k e grant, s.authorizationCodes k = some e → e.value = .unused grant →
    grant.sid = sid → s₁.authorizationCodes k = some e

theorem absent_drop {x : SsoSession} (h : Absent s sid) (hdrop : Dropped x s s') :
    Absent s' sid := by
  intro k e he hlive
  rw [hdrop.ssoSessions] at he
  exact h k e (delete_eq_some he).2 (hdrop.changes.now ▸ hlive)

theorem absent_aside {fs : List Field} (h : Absent s sid) (hch : Changes fs s s')
    (hfs : .ssoSessions ∉ fs) : Absent s' sid := by
  unfold Absent
  rw [show s'.ssoSessions = s.ssoSessions from hch.same .ssoSessions hfs, hch.now]
  exact h

/-- A session that is gone does not come back. -/
theorem absent_step (h : Absent s sid) (hrec : Recorded deps s) (hknown : sid ∈ s.issued)
    (hstep : SessionStep deps leaving s s') : Absent s' sid := by
  cases hstep with
  | aside hch => exact absent_aside h hch (by decide)
  | created hcreated _ =>
      intro k e he hlive hsid
      rw [hcreated.ssoSessions] at he
      rcases put_eq_some he with ⟨_, rfl⟩ | ⟨_, he⟩
      · -- A new session gets a fresh `sid`.
        exact hcreated.freshSid (hsid ▸ hknown)
      · exact h k e he (hcreated.changes.now ▸ hlive) hsid
  | touched htouched hx =>
      intro k e he hlive hsid
      rw [htouched.ssoSessions] at he
      rcases put_eq_some he with ⟨_, rfl⟩ | ⟨_, he⟩
      -- A touched session was live before.
      · rcases hrec.stored hx with ⟨d, hd, hlive', rfl⟩
        exact h _ d hd hlive' hsid
      · exact h k e he (htouched.changes.now ▸ hlive) hsid
  | expired hdrop _ _ => exact absent_drop h hdrop
  | ended hdrop _ _ => exact absent_drop h hdrop
  | revoked hsought hmark =>
      refine absent_aside ?_ hmark.changes (by decide)
      cases hsought with
      | found _ _ hdrop => exact absent_drop h hdrop
      | missing _ hch => exact absent_aside h hch (by decide)

/-- Every step preserves that a session is over. -/
theorem Over.step (h : Over sid s₁ s) (hrec : Recorded deps s)
    (hinj : Function.Injective deps.keyOf) (hstep : GrantStep deps may leaving s s') :
    Over sid s₁ s' := by
  refine ⟨(sessionSteps_changes hstep.sessions).issued h.known, ?_, ?_⟩
  -- By induction on the steps of the sessions within this one.
  · have habsent : ∀ s', Relation.ReflTransGen (SessionStep deps leaving) s s' → Absent s' sid := by
      intro s' hsteps
      induction hsteps with
      | refl => exact h.absent
      | tail hsteps hstep ih =>
          exact absent_step ih (recorded_steps hrec hinj hsteps)
            ((sessionSteps_changes hsteps).issued h.known) hstep
    exact habsent _ hstep.sessions
  · intro k e grant he hgrant hsid
    cases hstep.change with
    | fewer hf => exact h.codes k e grant (hf.codes k e grant he hgrant) hgrant hsid
    | redeemed hr => exact h.codes k e grant (hr.codes ▸ he) hgrant hsid
    | rotated hr => exact h.codes k e grant (hr.codes ▸ he) hgrant hsid
    | granted hg =>
        rw [hg.codes] at he
        rcases put_eq_some he with ⟨_, rfl⟩ | ⟨_, he⟩
        · -- A code is granted under a session that is presented.
          cases hgrant
          rcases hg.presented with ⟨x, hx, hxsid, _, _⟩
          rcases hrec.stored hx with ⟨d, hd, hlive, rfl⟩
          exact absurd (hxsid.trans hsid) (h.absent _ d hd hlive)
        · exact h.codes k e grant he hgrant hsid

theorem Over.env {t : Change} (h : Over sid s₁ s) (ht : t.apply s = some s') : Over sid s₁ s' := by
  rcases apply_cases ht with ⟨seconds, rfl⟩ | ⟨db, _, _, rfl⟩
  · refine ⟨h.known, fun k e he hlive => h.absent k e he ?_, h.codes⟩
    have hlater : s.now + seconds < e.expiresAt := hlive
    omega
  · exact ⟨h.known, h.absent, h.codes⟩

/-- A session that was ended stays over through every run. -/
theorem over_of_runs {ls : List (Happening Event AuthCall Change Answer)}
    (hinj : Function.Injective deps.keyOf) (hrec : Recorded deps s) (hg : Sourced deps s)
    (h : Over sid s₁ s) (hruns : Runs (authSystem deps) s ls s')
    (hls : ∀ l ∈ ls, Unguessed deps l) :
    (Recorded deps s' ∧ Sourced deps s') ∧ Over sid s₁ s' := by
  refine hruns.induct (I := fun s => (Recorded deps s ∧ Sourced deps s) ∧ Over sid s₁ s)
    ?_ ?_ hls ⟨⟨hrec, hg⟩, h⟩
  · rintro c a es s s' hE ⟨⟨hrec, hg⟩, hover⟩ hexec
    rcases anyGrants_of_exec hinj hrec hg hexec hE with ⟨leaving, hsteps, hlast⟩
    refine ⟨hlast, ?_⟩
    -- A step keeps `Over` only if the records are sound before it, so both go together.
    have hboth : ∀ s', Relation.ReflTransGen (GrantStep deps anyMember leaving) s s' →
        Recorded deps s' ∧ Over sid s₁ s' := by
      intro s' hsteps
      induction hsteps with
      | refl => exact ⟨hrec, hover⟩
      | tail _ hstep ih => exact ⟨hstep.recorded ih.1 hinj, ih.2.step ih.1 hinj hstep⟩
    exact (hboth _ hsteps).2
  · rintro t s s' - ⟨⟨hrec, hg⟩, hover⟩ ht
    exact ⟨⟨recorded_env ht hrec, hg.env ht⟩, hover.env ht⟩

/-- Nothing that can be presented rests on a session that is over. -/
theorem Over.unrooted {o : Origin} (h : Over sid s₁ s) (ho : Rooted deps s o)
    (hx : (s.presented o.ssoSessionId).isSome) : o.sid ≠ sid := by
  intro hsid
  rcases Option.isSome_iff_exists.mp hx with ⟨x, hx⟩
  rcases get_eq_some.mp (presented_eq_some.mp hx).1 with ⟨d, hd, hlive, rfl⟩
  exact h.absent _ d hd hlive ((ho.refers.only d hd).trans hsid)

/-- A created session that was ended is over. -/
theorem over_of_ended {es : List Event} (hrec : Recorded deps s) (h : Ended sid s s' es)
    (hsid : ∃ r ∈ s.sessions, r.id = sid) : Over sid s s' := by
  have hcodes : s'.authorizationCodes = s.authorizationCodes :=
    h.changes.same .authorizationCodes (by decide)
  refine ⟨?_, (h.sessions hrec).2.2.2.2, fun k e grant he _ _ => hcodes ▸ he⟩
  rcases hsid with ⟨r, hr, rfl⟩
  exact h.changes.issued (hrec.issued r hr)

/-- Once a session was ended, in every run from there no cookie presents a
    session with its `sid`, no code is issued that rests on it, and neither a
    code nor a refresh token is answered with tokens that name it. -/
theorem ended_session_is_over (hinj : Function.Injective deps.keyOf) (now : Int) (db : Identity)
    (ls : List (Happening Event AuthCall Change Answer)) (s : State)
    (h : Runs (authSystem deps) (State.start now db) ls s) (hls : ∀ l ∈ ls, Unguessed deps l)
    (sid : String) (hsid : ∃ r ∈ s.sessions, r.id = sid) (reason : SessionRevokeReason)
    (environment : Option RequestEnvironment) (es : List Event) (a : Unit) (s₁ : State)
    (hexec : Exec s (AuthCall.body deps (.revokeSessionBySid sid reason environment)) es a s₁)
    (ls' : List (Happening Event AuthCall Change Answer)) (s₂ : State)
    (h' : Runs (authSystem deps) s₁ ls' s₂) (hls' : ∀ l ∈ ls', Unguessed deps l) :
    (∀ key x, s₂.presented key = some x → x.sid ≠ sid) ∧
    (∀ k e grant, s₂.authorizationCodes k = some e → e.value = .unused grant → grant.sid = sid →
      s.authorizationCodes k = some e) ∧
    (∀ clientId secret input es response s', Exec s₂
      (AuthCall.body deps (.exchange clientId secret input)) es (some (.ok response)) s' →
        response.idToken.sid ≠ sid) ∧
    ∀ clientId secret value es response s', Exec s₂
      (AuthCall.body deps (.refresh clientId secret value)) es (some (.ok response)) s' →
        response.idToken.sid ≠ sid := by
  rcases sourced_of_runs hinj (recorded_start now db) (sourced_start now db) h hls with ⟨hrec, hg⟩
  rcases anyGrants_of_exec hinj hrec hg hexec
    (fun _ _ _ _ hc => by cases hc) with ⟨_, _, hrec₁, hg₁⟩
  -- What the call ended stays over along the run.
  have hstart : Over sid s s₁ := over_of_ended hrec (exec_revokeSession hexec) hsid
  rcases over_of_runs hinj hrec₁ hg₁ hstart h' hls' with ⟨⟨_, hg₂⟩, hover⟩
  refine ⟨not_presented_of_absent hover.absent, hover.codes, ?_, ?_⟩
  -- Tokens rest on a session that is presented, so not on this one.
  · intro clientId secret input es response s' hexchange
    rcases rooted_of_exchange hg₂ hexchange with ⟨grant, _, hrooted, hx, _, hnamed⟩
    exact hnamed ▸ hover.unrooted hrooted hx
  · intro clientId secret value es response s' hrefresh
    rcases rooted_of_refresh hg₂ hrefresh with ⟨token, _, hrooted, hx, _, hnamed⟩
    exact hnamed ▸ hover.unrooted hrooted hx

/-- What rests on the `sid` is refused: no cookie presents a session with it, no
    code is issued under it, and neither a code nor a refresh token that rests on
    it is answered with tokens. -/
structure Refused (deps : Deps) (sid : String) (s : State) : Prop where
  session : ∀ cookie es x s', Exec s (loadSsoSession deps cookie) es (some x) s' → x.sid ≠ sid
  authorize : ∀ params cookie browser es a s',
    Exec s (AuthCall.body deps (.authorize params cookie browser)) es a s' →
      ∀ k e grant, s'.authorizationCodes k = some e → e.value = .unused grant →
        grant.sid = sid → s.authorizationCodes k = some e
  exchange : ∀ clientId secret input grant es a s',
    Ttl.get s.authorizationCodes s.now (deps.keyOf input.code) = some (.unused grant) →
      grant.sid = sid → Exec s (AuthCall.body deps (.exchange clientId secret input)) es a s' →
        ∀ response, a ≠ some (.ok response)
  refresh : ∀ clientId secret value token es a s',
    Ttl.get s.refreshTokens s.now (deps.keyOf value) = some token →
      token.sid = sid → Exec s (AuthCall.body deps (.refresh clientId secret value)) es a s' →
        ∀ response, a ≠ some (.ok response)

/-- What rests on a session that is over is refused. -/
theorem Over.refused (h : Over sid s₁ s) (hinj : Function.Injective deps.keyOf)
    (hrec : Recorded deps s) (hg : Sourced deps s) : Refused deps sid s where
  session cookie es x s' hload := by
    rcases exec_loadSsoSession hload with ⟨value, _, hx⟩
    exact not_presented_of_absent h.absent _ x hx
  authorize params cookie browser es a s' hexec := by
    -- The call is a run of its own, from codes that were all there before.
    have hstart : Over sid s s := ⟨h.known, h.absent, fun _ _ _ he _ _ => he⟩
    have hrun : Runs (authSystem deps) s [.call (.authorize params cookie browser) a es] s' :=
      .call .nil hexec
    refine (over_of_runs hinj hrec hg hstart hrun fun l hl => ?_).2.codes
    cases List.mem_singleton.mp hl
    exact fun _ _ _ _ hc => by cases hc
  exchange clientId secret input grant es a s' hget hsid hexec response := by
    rintro rfl
    rcases rooted_of_exchange hg hexec with ⟨grant', hget', hrooted, hx, _, _⟩
    cases hget.symm.trans hget'
    exact h.unrooted hrooted hx hsid
  refresh clientId secret value token es a s' hget hsid hexec response := by
    rintro rfl
    rcases rooted_of_refresh hg hexec with ⟨token', hget', hrooted, hx, _, _⟩
    cases hget.symm.trans hget'
    exact h.unrooted hrooted hx hsid

/-- No code and no refresh token rests on the `sid`. -/
structure Unrooted (sid : String) (s : State) : Prop where
  codes : ∀ k e grant, s.authorizationCodes k = some e → e.value = .unused grant → grant.sid ≠ sid
  tokens : ∀ k e, s.refreshTokens k = some e → e.value.sid ≠ sid

/-- Nothing rests on a `sid` that no session has had. -/
theorem unrooted_of_unknown (hg : Sourced deps s) (hsid : ∀ r ∈ s.sessions, r.id ≠ sid) :
    Unrooted sid s := by
  rcases hg with ⟨origin, hg⟩
  have hnone : ∀ o, Rooted deps s o → o.sid ≠ sid := by
    intro o ho hosid
    rcases ho.record with ⟨r, hr, hid, _⟩
    exact hsid r hr (hid.trans hosid)
  exact ⟨fun k e grant he hgrant => hnone _ (hg.codes k e grant he hgrant).1,
    fun k e he => hnone _ (hg.known _ _ (hg.tokens k e he)).2.2⟩

/-- After any run every session that can be presented is found by its `sid` and is
    active in the list of its user. Ending a session by its `sid` leaves the sessions,
    index entries, tokens, codes and records of every other one as they were. None with
    the `sid` can be presented, and what rests on it is refused for good. On a `sid`
    that no session has had nothing rests. -/
theorem session_revocation_exact (hinj : Function.Injective deps.keyOf) (now : Int)
    (db : Identity) (hdb : db.UniqueClients)
    (ls : List (Happening Event AuthCall Change Answer)) (s : State)
    (h : Runs (authSystem deps) (State.start now db) ls s) (hls : ∀ l ∈ ls, Unguessed deps l)
    (hcolons : NoColons s) :
    (∀ key x, s.presented key = some x → Ttl.get s.sidIndex s.now x.sid = some key ∧
      ∀ es listed s', Exec s (Sessions.listActiveByUser x.userId) es listed s' →
        ∃ row ∈ listed, row.record.id = x.sid ∧ Sessions.isActive row.record s.now = true) ∧
    ∀ sid reason environment es a s',
      Exec s (AuthCall.body deps (.revokeSessionBySid sid reason environment)) es a s' →
      (∀ key x, s'.presented key = some x → x.sid ≠ sid) ∧
      ((∃ r ∈ s.sessions, r.id = sid) → ∀ ls' s₂, Runs (authSystem deps) s' ls' s₂ →
        (∀ l ∈ ls', Unguessed deps l) → Refused deps sid s₂) ∧
      ((∀ r ∈ s.sessions, r.id ≠ sid) → Unrooted sid s') ∧
      (∀ k e, e.value.sid ≠ sid → (s'.ssoSessions k = some e ↔ s.ssoSessions k = some e)) ∧
      (∀ sid', sid' ≠ sid → s'.sidIndex sid' = s.sidIndex sid') ∧
      (∀ k e, e.value.sid ≠ sid → (s'.refreshTokens k = some e ↔ s.refreshTokens k = some e)) ∧
      s'.authorizationCodes = s.authorizationCodes ∧
      (s'.sessions.filter fun r => r.id ≠ sid) = s.sessions.filter fun r => r.id ≠ sid := by
  have hs := settled_of_runs hinj hdb h hls
  refine ⟨fun key x hx => ⟨index_of_presented hs.recorded hx, fun es listed s' hlist =>
    listed_of_presented hs.recorded hx hlist⟩, fun sid reason environment es a s' hexec => ?_⟩
  -- The whole call is one step that ends the sessions of the `sid`.
  have hended : Ended sid s s' es := exec_revokeSession hexec
  rcases hended.sessions hs.recorded with ⟨honly, hothers, hindex, hrecords, habsent⟩
  have hcodes : s'.authorizationCodes = s.authorizationCodes :=
    hended.changes.same .authorizationCodes (by decide)
  have hchanged := hended.changed hs.sourced hcolons
  refine ⟨not_presented_of_absent habsent, fun hsid ls' s₂ hruns hls' => ?_, fun hsid => ?_,
    fun k e hne => ⟨honly k e, fun he => hothers k e he hne⟩, hindex, fun k e hne => ?_, hcodes,
    hrecords⟩
  · -- What is over stays over, and in every state that is reached it is refused.
    rcases anyGrants_of_exec hinj hs.recorded hs.sourced hexec
      (fun _ _ _ _ hc => by cases hc) with ⟨_, _, hrec₁, hg₁⟩
    rcases over_of_runs hinj hrec₁ hg₁ (over_of_ended hs.recorded hended hsid) hruns hls' with
      ⟨⟨hrec₂, hg₂⟩, hover⟩
    exact hover.refused hinj hrec₂ hg₂
  -- A `sid` without a record had no grant, and gets none.
  · have hbefore := unrooted_of_unknown hs.sourced hsid
    refine ⟨fun k e grant he => hbefore.codes k e grant (hcodes ▸ he), fun k e he => ?_⟩
    rcases hchanged k with hsame | ⟨d, d', hd, hd', hvalue, _⟩
    · exact hbefore.tokens k e (hsame ▸ he)
    · cases hd'.symm.trans he
      rw [hvalue]
      exact hbefore.tokens k d hd
  · rcases hchanged k with hsame | ⟨d, d', hd, hd', hvalue, hsid⟩
    · rw [hsame]
    · -- A token that changed rests on the ended session, before and after.
      constructor
      · intro he
        cases hd'.symm.trans he
        rw [hvalue] at hne
        exact absurd hsid hne
      · intro he
        cases hd.symm.trans he
        exact absurd hsid hne

end Later

section Example

/-- The first of Alice's two sessions is ended. -/
def ending : AuthProg Unit :=
  AuthCall.body smallDeps (.revokeSessionBySid sid1 .userRevoked none)

/-- Alice has sessions in two browsers, and her service a token under the
    first. -/
def twoSessions : AuthTurns :=
  firstTokenTurns ++ loginTurns pendingId2 cookie2 sid2 none

/-- Ending the first takes the token and leaves the second. -/
theorem other_session_kept : ∃ ls s es s₁ t e,
    Runs (authSystem smallDeps) smallStart ls s ∧ Exec s ending es () s₁ ∧
    Ttl.get s₁.refreshTokens s₁.now (smallDeps.keyOf refresh1) = some t ∧ t.status ≠ .active ∧
    e.value.sid = sid2 ∧ s₁.ssoSessions (smallDeps.keyOf cookie2) = some e := by
  rcases exists_runs (authSystem smallDeps) (.ulid "") 60 smallStart twoSessions
    (fun r => r.1.all leavesNothing && noColons r.2 &&
      ((r.2.ssoSessions (smallDeps.keyOf cookie2)).any fun e => e.value.sid = sid2) &&
      (ending.runAlone (.ulid "") 60 [.random jti2, .notified true, .audit "event" true] r.2).any
        fun x => (Ttl.get x.2.2.refreshTokens x.2.2.now (smallDeps.keyOf refresh1)).any fun t =>
          t.sid = sid1 ∧ (r.2.presented t.ssoSessionId).isSome)
    (by decide +kernel) with ⟨ls, s, hruns, htest⟩
  simp only [Bool.and_eq_true, List.all_eq_true, Option.any_eq_true, decide_eq_true_eq] at htest
  rcases htest with ⟨⟨⟨hall, hcolons⟩, e, he, hsid⟩, ⟨es, a, s₁⟩, hrun, t, ht, htsid, hx⟩
  have hexec : Exec s ending es a s₁ := exec_of_runAlone _ _ _ _ _ _ _ _ hrun
  rcases (session_end_exact smallDeps_keyOf_injective 1000 smallIdentity (by decide) ls s hruns
    (fun l hl => unguessed_of_leavesNothing (hall l hl)) (noColons_iff.mp hcolons)).2 _ _ _ es a s₁
    hexec with ⟨_, htokens, hkept, _⟩
  -- The second session is in the same store and has another `sid`.
  have hother : e.value.sid ≠ sid1 := by
    rw [hsid]
    decide
  exact ⟨ls, s, es, s₁, t, e, hruns, hexec, ht, htokens _ t ht htsid hx, hsid,
    (hkept _ e hother).mpr he⟩

/-- What rests on the first session is refused, and the second is in the store as
    before. -/
theorem first_session_refused : ∃ ls s es s₁ t e,
    Runs (authSystem smallDeps) smallStart ls s ∧ Exec s ending es () s₁ ∧
    Ttl.get s₁.refreshTokens s₁.now (smallDeps.keyOf refresh1) = some t ∧ t.sid = sid1 ∧
    Refused smallDeps sid1 s₁ ∧ e.value.sid = sid2 ∧
    s₁.ssoSessions (smallDeps.keyOf cookie2) = some e := by
  rcases exists_runs (authSystem smallDeps) (.ulid "") 60 smallStart twoSessions
    (fun r => r.1.all leavesNothing && noColons r.2 && (r.2.sessions.any fun x => x.id = sid1) &&
      ((r.2.ssoSessions (smallDeps.keyOf cookie2)).any fun e => e.value.sid = sid2) &&
      (ending.runAlone (.ulid "") 60 [.random jti2, .notified true, .audit "event" true] r.2).any
        fun x => (Ttl.get x.2.2.refreshTokens x.2.2.now (smallDeps.keyOf refresh1)).any fun t =>
          t.sid = sid1)
    (by decide +kernel) with ⟨ls, s, hruns, htest⟩
  simp only [Bool.and_eq_true, List.all_eq_true, Option.any_eq_true, List.any_eq_true,
    decide_eq_true_eq] at htest
  rcases htest with ⟨⟨⟨⟨hall, hcolons⟩, hrecord⟩, e, he, hsid⟩, ⟨es, a, s₁⟩, hrun, t, ht, htsid⟩
  have hexec : Exec s ending es a s₁ := exec_of_runAlone _ _ _ _ _ _ _ _ hrun
  rcases (session_revocation_exact smallDeps_keyOf_injective 1000 smallIdentity (by decide) ls s
    hruns (fun l hl => unguessed_of_leavesNothing (hall l hl)) (noColons_iff.mp hcolons)).2 _ _ _ es
    a s₁ hexec with ⟨_, hrefused, _, hkept, _⟩
  have hother : e.value.sid ≠ sid1 := by
    rw [hsid]
    decide
  exact ⟨ls, s, es, s₁, t, e, hruns, hexec, ht, htsid,
    hrefused hrecord [] s₁ .nil (fun l hl => absurd hl List.not_mem_nil), hsid,
    (hkept _ e hother).mpr he⟩

def unusedUnder : AuthorizationCode → Bool
  | .unused grant => grant.sid = sid1
  | .used _ => false

theorem unusedUnder_iff {code : AuthorizationCode} :
    unusedUnder code = true ↔ ∃ grant, code = .unused grant ∧ grant.sid = sid1 := by
  cases code with
  | unused grant => simp [unusedUnder]
  | used f => simp [unusedUnder]

/-- Alice had got a code under the first session. It is still in the store a
    moment later and gives nothing. -/
theorem code_of_ended_session : ∃ ls s es s₁ e grant,
    Runs (authSystem smallDeps) smallStart ls s ∧ Exec s ending es () s₁ ∧
    s₁.authorizationCodes (smallDeps.keyOf code1) = some e ∧ e.value = .unused grant ∧
    ∀ secret input es response s',
      Exec s₁ (AuthCall.body smallDeps (.exchange "crm" secret input)) es
        (some (.ok response)) s' → response.idToken.sid ≠ grant.sid := by
  rcases exists_runs (authSystem smallDeps) (.ulid "") 60 smallStart
    (loginTurns pendingId1 cookie1 sid1 none ++ [authorizeTurn cookie1 code1])
    (fun r => r.1.all leavesNothing && (r.2.sessions.any fun x => x.id = sid1) &&
      (ending.runAlone (.ulid "") 60 [.random jti2, .notified true, .audit "event" true] r.2).any
        fun x => (x.2.2.authorizationCodes (smallDeps.keyOf code1)).any
          fun e => unusedUnder e.value)
    (by decide +kernel) with ⟨ls, s, hruns, htest⟩
  simp only [Bool.and_eq_true, List.all_eq_true, Option.any_eq_true, List.any_eq_true,
    decide_eq_true_eq] at htest
  rcases htest with ⟨⟨hall, r, hr, hid⟩, ⟨es, a, s₁⟩, hrun, e, he, hcode⟩
  rcases unusedUnder_iff.mp hcode with ⟨grant, hvalue, hsid⟩
  have hexec : Exec s ending es a s₁ := exec_of_runAlone _ _ _ _ _ _ _ _ hrun
  rcases ended_session_is_over smallDeps_keyOf_injective 1000 smallIdentity ls s hruns
    (fun l hl => unguessed_of_leavesNothing (hall l hl)) sid1 ⟨r, hr, hid⟩ _ _ es a s₁ hexec [] s₁
    .nil (fun l hl => absurd hl List.not_mem_nil) with ⟨_, _, hexchange, _⟩
  refine ⟨ls, s, es, s₁, e, grant, hruns, hexec, he, hvalue, ?_⟩
  rw [hsid]
  exact hexchange "crm"

end Example

end Sandbox.Auth.SessionEnd
