import Sandbox.Auth.SessionSteps
import Sandbox.Interleave.Sequential

/-!
# Sessions, Their Index and Their Records

After every request, a session that is still alive is found through the index
under its `sid`, and its record is there with the same times and not revoked.
The index leads from a `sid` to no session but its own, and the digests of
cookies keep the sessions apart. All this is preserved by every step that a
request can take on sessions, if digests do not collide and no browser holds a
cookie that was not given out yet.

## Main definitions

* `AuthSessionRecord.IsOf`: The record of a session.
* `Refers`: A key is that of a session's cookie and no other session's.
* `Recorded`: Sessions, index and records fit together.
* `Unguessed`: A login does not come with the cookie it is about to get.

## Theorems

* `Recorded.step`: Every step preserves it.
* `steps_of_exec`: A request takes such steps only.
* `recorded_of_runs`: It holds after every run.
-/

namespace Sandbox.Auth

open Interleave Ttl

/-- The record of a session that was not revoked. -/
structure AuthSessionRecord.IsOf (r : AuthSessionRecord) (x : SsoSession) : Prop where
  id : r.id = x.sid
  userId : r.userId = x.userId
  createdAt : r.createdAt = x.createdAt
  lastSeenAt : r.lastSeenAt = x.lastSeenAt
  revokedAt : r.revokedAt = none

/-- No session that is alive has the `sid`. -/
def Absent (s : State) (sid : String) : Prop :=
  ∀ k e, s.ssoSessions k = some e → s.now < e.expiresAt → e.value.sid ≠ sid

/-- The key is the digest of a cookie that was given out, and if there is a
    session under it then it is the one with the `sid`. -/
structure Refers (deps : Deps) (s : State) (sid key : String) : Prop where
  known : sid ∈ s.issued
  cookie : ∃ v ∈ s.issued, v ≠ "" ∧ deps.keyOf v = key
  only : ∀ e, s.ssoSessions key = some e → e.value.sid = sid

/-- Sessions, index and records fit together. -/
structure Recorded (deps : Deps) (s : State) : Prop where
  id : ∀ k e, s.ssoSessions k = some e → e.value.id = k
  refers : ∀ k e, s.ssoSessions k = some e → Refers deps s e.value.sid k
  one : ∀ k k' e e', s.ssoSessions k = some e → s.ssoSessions k' = some e' →
    e.value.sid = e'.value.sid → k = k'
  ends : ∀ k e, s.ssoSessions k = some e →
    e.expiresAt = e.value.createdAt + ssoExpiry.absoluteSeconds
  indexed : ∀ k e, s.ssoSessions k = some e → s.now < e.expiresAt →
    s.sidIndex e.value.sid = some ⟨k, e.expiresAt⟩
  recorded : ∀ k e, s.ssoSessions k = some e → s.now < e.expiresAt →
    ∃ r ∈ s.sessions, r.IsOf e.value
  leads : ∀ sid e, s.sidIndex sid = some e → Refers deps s sid e.value
  ids : (s.sessions.map (·.id)).Nodup
  issued : ∀ r ∈ s.sessions, r.id ∈ s.issued

section Steps

variable {deps : Deps} {s s' : State} {x : SsoSession} {sid key : String}

/-- A reference to a session survives where the entry of its key keeps the sid. -/
theorem Refers.mono (h : Refers deps s sid key) (hissued : s.issued ⊆ s'.issued)
    (hsessions : ∀ e, s'.ssoSessions key = some e →
      ∃ d, s.ssoSessions key = some d ∧ d.value.sid = e.value.sid) : Refers deps s' sid key where
  known := hissued h.known
  cookie := h.cookie.imp fun _ hv => ⟨hissued hv.1, hv.2⟩
  only e he := by
    rcases hsessions e he with ⟨d, hd, hsid⟩
    exact hsid.symm.trans (h.only d hd)

/-- A reference survives a change of other fields. -/
theorem Refers.aside (h : Refers deps s sid key) (hch : Changes noSessions s s') :
    Refers deps s' sid key := by
  have hsessions : s'.ssoSessions = s.ssoSessions := hch.same .ssoSessions (by decide)
  exact h.mono hch.issued fun e he => ⟨e, hsessions ▸ he, rfl⟩

theorem Refers.drop (h : Refers deps s sid key) (hdrop : Dropped x s s') :
    Refers deps s' sid key := by
  refine h.mono hdrop.changes.issued fun e he => ⟨e, ?_, rfl⟩
  rw [hdrop.ssoSessions] at he
  exact (delete_eq_some he).2

theorem Refers.mark {sid' : String} (h : Refers deps s sid key) (hmarked : Marked sid' s s') :
    Refers deps s' sid key := by
  have hsessions : s'.ssoSessions = s.ssoSessions := hmarked.changes.same .ssoSessions (by decide)
  exact h.mono hmarked.changes.issued fun e he => ⟨e, hsessions ▸ he, rfl⟩

/-- What was known before does not lead to the key of a new session. -/
theorem Refers.create {a : CreatedSsoSession} (h : Refers deps s sid key)
    (hcreated : Created deps a s s') (hinj : Function.Injective deps.keyOf) :
    Refers deps s' sid key := by
  refine h.mono hcreated.changes.issued fun e he => ?_
  rw [hcreated.ssoSessions] at he
  rcases put_eq_some he with ⟨rfl, _⟩ | ⟨_, he⟩
  · rcases h.cookie with ⟨v, hv, _, hkey⟩
    have heq : v = a.cookieValue := hinj (hkey.trans hcreated.id)
    exact absurd (heq ▸ hv) hcreated.freshCookie
  · exact ⟨e, he, rfl⟩

/-- A touched session keeps its `sid`. -/
theorem Refers.touch (h : Refers deps s sid key) (htouched : Touched x s s')
    (hx : ∃ e, s.ssoSessions x.id = some e ∧ e.value = x) : Refers deps s' sid key := by
  refine h.mono htouched.changes.issued fun e he => ?_
  rw [htouched.ssoSessions] at he
  rcases put_eq_some he with ⟨rfl, rfl⟩ | ⟨_, he⟩
  · rcases hx with ⟨d, hd, hval⟩
    exact ⟨d, hd, by rw [hval]⟩
  · exact ⟨e, he, rfl⟩

/-- Other parts are changed. -/
theorem Recorded.aside (h : Recorded deps s) (hch : Changes noSessions s s') :
    Recorded deps s' := by
  have hsessions : s'.ssoSessions = s.ssoSessions := hch.same .ssoSessions (by decide)
  have hindex : s'.sidIndex = s.sidIndex := hch.same .sidIndex (by decide)
  have hrecords : s'.sessions = s.sessions := hch.same .sessions (by decide)
  have hrefers : ∀ {sid key}, Refers deps s sid key → Refers deps s' sid key :=
    fun hr => hr.aside hch
  constructor
  · exact fun k e he => h.id k e (hsessions ▸ he)
  · exact fun k e he => hrefers (h.refers k e (hsessions ▸ he))
  · exact fun k k' e e' he he' => h.one k k' e e' (hsessions ▸ he) (hsessions ▸ he')
  · exact fun k e he => h.ends k e (hsessions ▸ he)
  · rw [hsessions, hindex, hch.now]
    exact h.indexed
  · rw [hsessions, hrecords, hch.now]
    exact h.recorded
  · exact fun sid e he => hrefers (h.leads sid e (hindex ▸ he))
  · rw [hrecords]
    exact h.ids
  · rw [hrecords]
    exact fun r hr => hch.issued (h.issued r hr)

/-- Time passes. -/
theorem Recorded.tick (h : Recorded deps s) (seconds : Nat) :
    Recorded deps { s with now := s.now + seconds } := by
  have hearlier : ∀ {t : Int}, s.now + seconds < t → s.now < t := by
    intro t ht
    omega
  constructor
  · exact h.id
  · exact fun k e he => (h.refers k e he).mono (List.Subset.refl _) fun d hd => ⟨d, hd, rfl⟩
  · exact h.one
  · exact h.ends
  · exact fun k e he hlive => h.indexed k e he (hearlier hlive)
  · exact fun k e he hlive => h.recorded k e he (hearlier hlive)
  · exact fun sid e he => (h.leads sid e he).mono (List.Subset.refl _) fun d hd => ⟨d, hd, rfl⟩
  · exact h.ids
  · exact h.issued

/-- A session is dropped. -/
theorem Recorded.drop (h : Recorded deps s) (hdrop : Dropped x s s')
    (hx : ∃ e, s.ssoSessions x.id = some e ∧ e.value = x) : Recorded deps s' := by
  have hold : ∀ {k e}, s'.ssoSessions k = some e → k ≠ x.id ∧ s.ssoSessions k = some e := by
    intro k e he
    rw [hdrop.ssoSessions] at he
    exact delete_eq_some he
  have hrecords : s'.sessions = s.sessions := hdrop.changes.same .sessions (by decide)
  have hnow : s'.now = s.now := hdrop.changes.now
  have hrefers : ∀ {sid key}, Refers deps s sid key → Refers deps s' sid key :=
    fun hr => hr.drop hdrop
  constructor
  · exact fun k e he => h.id k e (hold he).2
  · exact fun k e he => hrefers (h.refers k e (hold he).2)
  · exact fun k k' e e' he he' => h.one k k' e e' (hold he).2 (hold he').2
  · exact fun k e he => h.ends k e (hold he).2
  · intro k e he hlive
    rw [hnow] at hlive
    rcases hx with ⟨d, hd, rfl⟩
    -- Another session has another `sid`, so its index stays.
    have hne : e.value.sid ≠ d.value.sid := fun heq =>
      (hold he).1 (h.one k d.value.id e d (hold he).2 hd heq)
    rw [hdrop.sidIndex, delete_of_ne _ hne]
    exact h.indexed k e (hold he).2 hlive
  · intro k e he hlive
    rw [hnow] at hlive
    rw [hrecords]
    exact h.recorded k e (hold he).2 hlive
  · intro sid e he
    rw [hdrop.sidIndex] at he
    exact hrefers (h.leads sid e (delete_eq_some he).2)
  · rw [hrecords]
    exact h.ids
  · rw [hrecords]
    exact fun r hr => hdrop.changes.issued (h.issued r hr)

/-- A session is created. -/
theorem Recorded.create {a : CreatedSsoSession} (h : Recorded deps s)
    (hcreated : Created deps a s s') (hinj : Function.Injective deps.keyOf) :
    Recorded deps s' := by
  have hissued := hcreated.changes.issued
  have hnow : s'.now = s.now := hcreated.changes.now
  have hnew : s'.ssoSessions a.session.id =
      some ⟨a.session, s.now + ssoExpiry.absoluteSeconds⟩ := by
    rw [hcreated.ssoSessions]
    exact put_self _ _ _
  have hold : ∀ {k e}, s'.ssoSessions k = some e →
      k = a.session.id ∧ e = ⟨a.session, s.now + ssoExpiry.absoluteSeconds⟩ ∨
        s.ssoSessions k = some e := by
    intro k e he
    rw [hcreated.ssoSessions] at he
    exact (put_eq_some he).imp_right And.right
  have hrefers : ∀ {sid key}, Refers deps s sid key → Refers deps s' sid key :=
    fun hr => hr.create hcreated hinj
  have hself : Refers deps s' a.session.sid a.session.id := by
    refine ⟨hcreated.issuedSid, ⟨a.cookieValue, hcreated.issuedCookie, hcreated.nonempty,
      hcreated.id.symm⟩, fun e he => ?_⟩
    cases hnew.symm.trans he
    rfl
  -- The `sid` is new, so an older session has another.
  have hsid : ∀ {k e}, s.ssoSessions k = some e → e.value.sid ≠ a.session.sid :=
    fun he heq => hcreated.freshSid (heq ▸ (h.refers _ _ he).known)
  rcases hcreated.sessions with ⟨environment, hrecords⟩
  constructor
  · intro k e he
    rcases hold he with ⟨rfl, rfl⟩ | he
    · rfl
    · exact h.id k e he
  · intro k e he
    rcases hold he with ⟨rfl, rfl⟩ | he
    · exact hself
    · exact hrefers (h.refers k e he)
  -- No two sessions share a `sid`.
  · intro k k' e e' he he' heq
    rcases hold he with ⟨rfl, rfl⟩ | he <;> rcases hold he' with ⟨rfl, rfl⟩ | he'
    · rfl
    · exact absurd heq.symm (hsid he')
    · exact absurd heq (hsid he)
    · exact h.one k k' e e' he he' heq
  · intro k e he
    rcases hold he with ⟨rfl, rfl⟩ | he
    · rw [hcreated.createdAt]
    · exact h.ends k e he
  -- The index leads from the new `sid` to the new session, and elsewhere as before.
  · intro k e he hlive
    rw [hnow] at hlive
    rcases hold he with ⟨rfl, rfl⟩ | he
    · rw [hcreated.sidIndex]
      exact put_self _ _ _
    · rw [hcreated.sidIndex]
      exact (put_of_ne _ _ (hsid he)).trans (h.indexed k e he hlive)
  · intro k e he hlive
    rw [hnow] at hlive
    rw [hrecords]
    rcases hold he with ⟨rfl, rfl⟩ | he
    · refine ⟨_, List.mem_append_right _ (List.mem_singleton_self _), rfl, rfl, ?_, ?_, rfl⟩
      · exact hcreated.createdAt.symm
      · exact hcreated.lastSeenAt.symm
    · rcases h.recorded k e he hlive with ⟨r, hr, hof⟩
      exact ⟨r, List.mem_append_left _ hr, hof⟩
  · intro sid e he
    rw [hcreated.sidIndex] at he
    rcases put_eq_some he with ⟨rfl, rfl⟩ | ⟨_, he⟩
    · exact hself
    · exact hrefers (h.leads sid e he)
  -- The record that is appended has an id of its own.
  · rw [hrecords, List.map_append]
    refine List.nodup_append.mpr ⟨h.ids, List.nodup_singleton _, ?_⟩
    rintro id hid _ hmem rfl
    rcases List.mem_map.mp hid with ⟨r, hr, hrid⟩
    cases List.mem_singleton.mp hmem
    have hsame : r.id = a.session.sid := hrid
    exact hcreated.freshSid (hsame ▸ h.issued r hr)
  · rw [hrecords]
    intro r hr
    rcases List.mem_append.mp hr with hr | hr
    · exact hissued (h.issued r hr)
    · cases List.mem_singleton.mp hr
      exact hcreated.issuedSid

/-- A session that is alive is touched. -/
theorem Recorded.touch (h : Recorded deps s) (htouched : Touched x s s')
    (hx : ∃ e, s.ssoSessions x.id = some e ∧ s.now < e.expiresAt ∧ e.value = x) :
    Recorded deps s' := by
  rcases hx with ⟨d, hd, hlive, rfl⟩
  have hnow : s'.now = s.now := htouched.changes.now
  have hindex : s'.sidIndex = s.sidIndex := htouched.changes.same .sidIndex (by decide)
  -- Only the last access differs, and the time to live ends where it did.
  have hold : ∀ {k e}, s'.ssoSessions k = some e → ∃ d', s.ssoSessions k = some d' ∧
      e.expiresAt = d'.expiresAt ∧
      (k = d.value.id ∧ e.value = { d'.value with lastSeenAt := s.now } ∨
        k ≠ d.value.id ∧ e.value = d'.value) := by
    intro k e he
    rw [htouched.ssoSessions] at he
    rcases put_eq_some he with ⟨rfl, rfl⟩ | ⟨hne, he⟩
    · refine ⟨d, hd, ?_, .inl ⟨rfl, rfl⟩⟩
      have hends := h.ends _ d hd
      simp only [SsoSession.remainingTtl, SessionExpiry.remainingTtl]
      omega
    · exact ⟨e, he, rfl, .inr ⟨hne, rfl⟩⟩
  have hsame : ∀ {k e}, s'.ssoSessions k = some e → ∃ d', s.ssoSessions k = some d' ∧
      e.expiresAt = d'.expiresAt ∧ e.value.id = d'.value.id ∧ e.value.sid = d'.value.sid ∧
      e.value.createdAt = d'.value.createdAt := by
    intro k e he
    rcases hold he with ⟨d', hd', hexp, ⟨_, hval⟩ | ⟨_, hval⟩⟩ <;>
      exact ⟨d', hd', hexp, by rw [hval], by rw [hval], by rw [hval]⟩
  have hrefers : ∀ {sid key}, Refers deps s sid key → Refers deps s' sid key :=
    fun hr => hr.touch htouched ⟨d, hd, rfl⟩
  rcases htouched.sessions with ⟨environment, hrecords⟩
  have hids : s'.sessions.map (·.id) = s.sessions.map (·.id) := by
    rw [hrecords, List.map_map]
    refine List.map_congr_left fun r _ => ?_
    dsimp only [Function.comp_apply]
    split <;> rfl
  constructor
  · intro k e he
    rcases hsame he with ⟨d', hd', _, hid, _, _⟩
    exact hid.trans (h.id k d' hd')
  · intro k e he
    rcases hsame he with ⟨d', hd', _, _, hsid, _⟩
    rw [hsid]
    exact hrefers (h.refers k d' hd')
  · intro k k' e e' he he' heq
    rcases hsame he with ⟨d₁, hd₁, _, _, hsid₁, _⟩
    rcases hsame he' with ⟨d₂, hd₂, _, _, hsid₂, _⟩
    exact h.one k k' d₁ d₂ hd₁ hd₂ (hsid₁.symm.trans (heq.trans hsid₂))
  · intro k e he
    rcases hsame he with ⟨d', hd', hexp, _, _, hcreated⟩
    rw [hexp, hcreated]
    exact h.ends k d' hd'
  · intro k e he hlive'
    rcases hsame he with ⟨d', hd', hexp, _, hsid, _⟩
    rw [hexp, hnow] at hlive'
    rw [hindex, hsid, hexp]
    exact h.indexed k d' hd' hlive'
  · intro k e he hlive'
    rcases hold he with ⟨d', hd', hexp, hcase⟩
    rw [hexp, hnow] at hlive'
    rcases h.recorded k d' hd' hlive' with ⟨r, hr, hof⟩
    rw [hrecords]
    refine ⟨_, List.mem_map_of_mem hr, ?_⟩
    rcases hcase with ⟨rfl, hval⟩ | ⟨hne, hval⟩
    · cases hd.symm.trans hd'
      rw [if_pos hof.id, hval]
      exact ⟨hof.id, hof.userId, hof.createdAt, rfl, hof.revokedAt⟩
    · have hother : r.id ≠ d.value.sid := fun heq =>
        hne ((h.one k _ d' d hd' hd (hof.id.symm.trans heq)).trans rfl)
      rw [if_neg hother, hval]
      exact hof
  · intro sid e he
    rw [hindex] at he
    exact hrefers (h.leads sid e he)
  · rw [hids]
    exact h.ids
  · intro r hr
    have hmem : r.id ∈ s.sessions.map (·.id) := hids ▸ List.mem_map_of_mem hr
    rcases List.mem_map.mp hmem with ⟨r', hr', hid⟩
    exact htouched.changes.issued (hid ▸ h.issued r' hr')

/-- The record of a session that is gone is marked. -/
theorem Recorded.mark (h : Recorded deps s) (hmarked : Marked sid s s') (hgone : Absent s sid) :
    Recorded deps s' := by
  have hsessions : s'.ssoSessions = s.ssoSessions := hmarked.changes.same .ssoSessions (by decide)
  have hindex : s'.sidIndex = s.sidIndex := hmarked.changes.same .sidIndex (by decide)
  have hnow : s'.now = s.now := hmarked.changes.now
  have hrefers : ∀ {sid key}, Refers deps s sid key → Refers deps s' sid key :=
    fun hr => hr.mark hmarked
  rcases hmarked.sessions with ⟨reason, hrecords⟩
  -- Marking a record keeps its id.
  have hids : s'.sessions.map (·.id) = s.sessions.map (·.id) := by
    rw [hrecords, List.map_map]
    refine List.map_congr_left fun r _ => ?_
    dsimp only [Function.comp_apply]
    split <;> rfl
  constructor
  · exact fun k e he => h.id k e (hsessions ▸ he)
  · exact fun k e he => hrefers (h.refers k e (hsessions ▸ he))
  · exact fun k k' e e' he he' => h.one k k' e e' (hsessions ▸ he) (hsessions ▸ he')
  · exact fun k e he => h.ends k e (hsessions ▸ he)
  · rw [hsessions, hindex, hnow]
    exact h.indexed
  · intro k e he hlive
    rw [hsessions] at he
    rw [hnow] at hlive
    rcases h.recorded k e he hlive with ⟨r, hr, hof⟩
    rw [hrecords]
    refine ⟨_, List.mem_map_of_mem hr, ?_⟩
    -- A live session has another `sid`, so its record is not the marked one.
    have hne : r.id ≠ sid := fun heq => hgone k e he hlive (hof.id.symm.trans heq)
    rw [if_neg fun hboth => hne hboth.1]
    exact hof
  · exact fun sid e he => hrefers (h.leads sid e (hindex ▸ he))
  · rw [hids]
    exact h.ids
  · intro r hr
    have hmem : r.id ∈ s.sessions.map (·.id) := hids ▸ List.mem_map_of_mem hr
    rcases List.mem_map.mp hmem with ⟨r', hr', hid⟩
    exact hmarked.changes.issued (hid ▸ h.issued r' hr')

/-- What a key presents is stored under its own id. -/
theorem Recorded.stored (h : Recorded deps s) (hx : s.presented key = some x) :
    ∃ e, s.ssoSessions x.id = some e ∧ s.now < e.expiresAt ∧ e.value = x := by
  rcases get_eq_some.mp (presented_eq_some.mp hx).1 with ⟨e, he, hlive, rfl⟩
  exact ⟨e, (h.id key e he).symm ▸ he, hlive, rfl⟩

/-- A presented session carries the id it lies under. -/
theorem Recorded.presented_id (h : Recorded deps s) (hx : s.presented key = some x) :
    x.id = key := by
  rcases get_eq_some.mp (presented_eq_some.mp hx).1 with ⟨e, he, _, rfl⟩
  exact h.id key e he

/-- After the search for a `sid` no session with it is alive. -/
theorem Recorded.sought (h : Recorded deps s) (hsought : Sought sid s s') :
    Recorded deps s' ∧ Absent s' sid := by
  cases hsought with
  | found hkey hx hdrop =>
      rcases get_eq_some.mp hx with ⟨d, hd, _, rfl⟩
      refine ⟨h.drop hdrop ⟨d, (h.id _ d hd).symm ▸ hd, rfl⟩, fun k e he hlive hsid => ?_⟩
      rw [hdrop.ssoSessions] at he
      rw [hdrop.changes.now] at hlive
      rcases delete_eq_some he with ⟨hne, he⟩
      -- The index leads to the session, and it was dropped there.
      rcases get_eq_some.mp hkey with ⟨i, hi, _, rfl⟩
      have hindexed := h.indexed k e he hlive
      rw [hsid] at hindexed
      cases hindexed.symm.trans hi
      exact hne (h.id _ d hd).symm
  | missing hnone hch =>
      refine ⟨h.aside hch, fun k e he hlive hsid => ?_⟩
      rw [show s'.ssoSessions = s.ssoSessions from hch.same .ssoSessions (by decide)] at he
      rw [hch.now] at hlive
      have hindexed := h.indexed k e he hlive
      rw [hsid] at hindexed
      have hget := hnone k (get_eq_some.mpr ⟨_, hindexed, hlive, rfl⟩)
      exact nomatch hget.symm.trans (get_eq_some.mpr ⟨e, he, hlive, rfl⟩)

/-- A dropped session is not presented elsewhere. -/
theorem Dropped.presented_of_ne (h : Dropped x s s') (hne : key ≠ x.id) :
    s'.presented key = s.presented key := by
  unfold State.presented
  rw [h.ssoSessions, h.changes.now, get_delete_of_ne _ _ hne]

/-- A session that was created is presented. -/
theorem Created.presented {a : CreatedSsoSession} (h : Created deps a s s') :
    s'.presented a.session.id = some a.session := by
  rw [presented_eq_some, h.ssoSessions, h.changes.now]
  refine ⟨get_set_self _ _ _ _ (by decide), ?_⟩
  rw [← Bool.not_eq_true, SsoSession.isExpired, SessionExpiry.isExpired_iff, h.createdAt,
    h.lastSeenAt]
  have hidle : 0 < ssoExpiry.idleSeconds := by decide
  have habsolute : 0 < ssoExpiry.absoluteSeconds := by decide
  omega

/-- Other keys present what they presented before a session is created. -/
theorem Created.presented_of_ne {a : CreatedSsoSession} (h : Created deps a s s')
    (hne : key ≠ a.session.id) : s'.presented key = s.presented key := by
  unfold State.presented
  rw [h.ssoSessions, h.changes.now, get_set_of_ne _ _ _ _ _ hne]

theorem Touched.presented_of_ne (h : Touched x s s') (hne : key ≠ x.id) :
    s'.presented key = s.presented key := by
  unfold State.presented
  rw [h.ssoSessions, h.changes.now, get_set_of_ne _ _ _ _ _ hne]

/-- A session that was presented is so after it was touched. -/
theorem Touched.presented (h : Touched x s s') (hx : s.presented x.id = some x) :
    s'.presented x.id = some { x with lastSeenAt := s.now } := by
  have hlimits := SessionExpiry.lt_of_not_isExpired (presented_eq_some.mp hx).2
  rw [presented_eq_some, h.ssoSessions, h.changes.now]
  refine ⟨get_set_self _ _ _ _ ?_, ?_⟩
  · simp only [SsoSession.remainingTtl, SessionExpiry.remainingTtl]
    omega
  · rw [← Bool.not_eq_true, SsoSession.isExpired, SessionExpiry.isExpired_iff]
    dsimp only
    have hidle : 0 < ssoExpiry.idleSeconds := by decide
    omega

/-- What is presented when a session was dropped was presented before. -/
theorem Dropped.presented_before (h : Dropped x s s') {y : SsoSession}
    (hy : s'.presented key = some y) : key ≠ x.id ∧ s.presented key = some y := by
  have hne : key ≠ x.id := by
    rintro rfl
    have hget := (presented_eq_some.mp hy).1
    rw [h.ssoSessions, get_delete_self] at hget
    cases hget
  exact ⟨hne, (h.presented_of_ne hne).symm.trans hy⟩

/-- The search for a `sid` leaves the sessions with other ones. -/
theorem Sought.presented {sid : String} {y : SsoSession} (h : Sought sid s s')
    (hrec : Recorded deps s) (hy : s.presented key = some y) (hne : y.sid ≠ sid) :
    s'.presented key = some y := by
  cases h with
  | missing _ hch => exact (hch.presented key).trans hy
  | found hkey hx hdrop =>
      rcases get_eq_some.mp hx with ⟨d, hd, _, rfl⟩
      rcases get_eq_some.mp hkey with ⟨i, hi, _, rfl⟩
      refine (hdrop.presented_of_ne ?_).trans hy
      -- The index leads to a session with the `sid`.
      rintro rfl
      have hy' := (presented_eq_some.mp hy).1
      rw [hrec.id _ d hd, hx] at hy'
      cases hy'
      exact hne ((hrec.leads sid i hi).only d hd)

/-- Every step keeps sessions, index and records together. -/
theorem Recorded.step {leaving : Option String} (h : Recorded deps s)
    (hinj : Function.Injective deps.keyOf) (hstep : SessionStep deps leaving s s') :
    Recorded deps s' := by
  cases hstep with
  | aside hch => exact h.aside hch
  | created hcreated hne => exact h.create hcreated hinj
  | touched htouched hx => exact h.touch htouched (h.stored hx)
  | expired hdrop hx hexp =>
      rcases get_eq_some.mp hx with ⟨d, hd, _, rfl⟩
      exact h.drop hdrop ⟨d, (h.id _ d hd).symm ▸ hd, rfl⟩
  | ended hdrop hkey hx =>
      rcases h.stored hx with ⟨e, he, _, heq⟩
      exact h.drop hdrop ⟨e, he, heq⟩
  | revoked hsought hmark =>
      rcases h.sought hsought with ⟨hrec, hgone⟩
      exact hrec.mark hmark hgone

/-- The search for a `sid` changes sessions and their index only. -/
theorem Sought.changes (h : Sought sid s s') :
    Changes (.ssoSessions :: .sidIndex :: Auth.noSessions) s s' := by
  cases h with
  | found _ _ hdrop => exact hdrop.changes
  | missing _ hch => exact hch.mono (by decide)

/-- A step of the sessions changes their fields alone. -/
theorem SessionStep.changes {leaving : Option String} (h : SessionStep deps leaving s s') :
    Changes (sessionParts ++ Auth.noSessions) s s' := by
  cases h with
  | aside hch => exact hch.mono (by decide)
  | created hcreated _ => exact hcreated.changes
  | touched htouched _ => exact htouched.changes.mono (by decide)
  | expired hdrop _ _ => exact hdrop.changes.mono (by decide)
  | ended hdrop _ _ => exact hdrop.changes.mono (by decide)
  | revoked hsought hmark =>
      exact (hsought.changes.mono (by decide)).trans (hmark.changes.mono (by decide))

/-- What leads to a session leads to no other one later. -/
theorem Refers.step {leaving : Option String} {sid key : String} (h : Refers deps s sid key)
    (hrec : Recorded deps s) (hinj : Function.Injective deps.keyOf)
    (hstep : SessionStep deps leaving s s') : Refers deps s' sid key := by
  cases hstep with
  | aside hch => exact h.aside hch
  | created hcreated _ => exact h.create hcreated hinj
  | touched htouched hx =>
      rcases hrec.stored hx with ⟨e, he, _, heq⟩
      exact h.touch htouched ⟨e, he, heq⟩
  | expired hdrop _ _ => exact h.drop hdrop
  | ended hdrop _ _ => exact h.drop hdrop
  | revoked hsought hmark =>
      cases hsought with
      | found _ _ hdrop => exact (h.drop hdrop).mark hmark
      | missing _ hch => exact (h.aside hch).mark hmark

/-- A record stays, with its user. -/
theorem SessionStep.record {leaving : Option String} (h : SessionStep deps leaving s s')
    {r : AuthSessionRecord} (hr : r ∈ s.sessions) :
    ∃ r' ∈ s'.sessions, r'.id = r.id ∧ r'.userId = r.userId := by
  cases h with
  | aside hch =>
      rw [show s'.sessions = s.sessions from hch.same .sessions (by decide)]
      exact ⟨r, hr, rfl, rfl⟩
  | created hcreated _ =>
      rcases hcreated.sessions with ⟨environment, hrecords⟩
      rw [hrecords]
      exact ⟨r, List.mem_append_left _ hr, rfl, rfl⟩
  | touched htouched _ =>
      rcases htouched.sessions with ⟨environment, hrecords⟩
      rw [hrecords]
      refine ⟨_, List.mem_map_of_mem hr, ?_⟩
      split <;> exact ⟨rfl, rfl⟩
  | expired hdrop _ _ =>
      rw [show s'.sessions = s.sessions from hdrop.changes.same .sessions (by decide)]
      exact ⟨r, hr, rfl, rfl⟩
  | ended hdrop _ _ =>
      rw [show s'.sessions = s.sessions from hdrop.changes.same .sessions (by decide)]
      exact ⟨r, hr, rfl, rfl⟩
  | revoked hsought hmark =>
      rcases hmark.sessions with ⟨reason, hrecords⟩
      rw [hrecords, show _ = s.sessions from hsought.changes.same .sessions (by decide)]
      refine ⟨_, List.mem_map_of_mem hr, ?_⟩
      split <;> exact ⟨rfl, rfl⟩

end Steps

section Requests

/-- The key of the session that a browser holds when it finishes a login. -/
def AuthCall.leaving (deps : Deps) (c : AuthCall) : Option String :=
  (c.finishing.bind id).map deps.keyOf

/-- A request that creates a session does not come with its cookie. -/
def notLeaving (deps : Deps) (c : AuthCall) (e : Event) : Prop :=
  ∀ x, e = .sessionStored x → c.leaving deps ≠ some x.id

/-- A request has come from one state to another by steps on sessions. -/
def Stepped (deps : Deps) (leaving : Option String) (s₀ s : State) : Prop :=
  Relation.ReflTransGen (SessionStep deps leaving) s₀ s ∧ Recorded deps s

/-- A session is presented and is not the one that is left. -/
def SteppedWith (deps : Deps) (c : AuthCall) (leaving : Option String) (s₀ : State)
    (x : SsoSession) (s : State) : Prop :=
  Stepped deps leaving s₀ s ∧ s.presented x.id = some x ∧ leaving ≠ some x.id ∧
    leaving = c.leaving deps

/-- A session is left only by a request that creates another one. -/
def leavesFor (deps : Deps) (c : AuthCall) (leaving : Option String) (e : Event) : Prop :=
  ∀ x, e = .sessionStored x → leaving ≠ some x.id ∧ leaving = c.leaving deps

variable {deps : Deps} {c : AuthCall} {leaving : Option String} {s₀ s s' : State} {x : SsoSession}
  {E : Event → Prop}

theorem Stepped.step (h : Stepped deps leaving s₀ s) (hinj : Function.Injective deps.keyOf)
    (hstep : SessionStep deps leaving s s') : Stepped deps leaving s₀ s' :=
  ⟨h.1.tail hstep, h.2.step hinj hstep⟩

/-- A program on other fields keeps every condition. -/
theorem yields_keep {α : Type} {p : AuthProg α} {P : State → Prop} (hp : Touches noSessions p) :
    Amidst noSessions E _ p P fun _ => P :=
  Yields.within (moves_changes noSessions) hp

theorem sound_noSessions : Sound (Amidst noSessions E) := sound_amidst (by decide) E

/-- Loading a session. -/
theorem yields_load (hinj : Function.Injective deps.keyOf) (key : String) :
    Amidst noSessions E _ (loadSsoSessionByKey key) (Stepped deps leaving s₀)
      fun a s => Stepped deps leaving s₀ s ∧
          ∀ x, a = some x → x.id = key ∧ s.presented key = some x := by
  intro s es a s' hs hamid _
  refine ⟨s', ?_, changes_refl s'⟩
  cases amid_loadSsoSessionByKey hamid with
  | missing hnone h => exact ⟨hs.step hinj (.aside h), nofun⟩
  | expired hx hexp h => exact ⟨hs.step hinj (.expired h hx hexp), nofun⟩
  | alive hx h =>
      refine ⟨hs.step hinj (.aside h), ?_⟩
      rintro _ ⟨⟩
      exact ⟨hs.2.presented_id hx, (h.presented key).trans hx⟩

/-- Ending the session of the browser in which a login is finished. -/
theorem yields_endPrevious (hinj : Function.Injective deps.keyOf) {cookie : Option String}
    (hc : c.finishing = some cookie) :
    Amidst noSessions E _ (endPrevious deps cookie) (SteppedWith deps c leaving s₀ x)
      fun _ => SteppedWith deps c leaving s₀ x := by
  cases cookie with
  | none => exact Yields.pure _ fun _ => id
  | some value =>
      have hleaving : c.leaving deps = some (deps.keyOf value) := by
        rw [AuthCall.leaving, hc]
        rfl
      unfold endPrevious loadSsoSession
      dsimp only
      split
      · exact Yields.pure _ fun _ => id
      · rintro s es a s' ⟨hs, hx, hne, hl⟩ hamid _
        -- The session that was just opened is not the one of the cookie.
        have hkey : x.id ≠ deps.keyOf value :=
          fun heq => hne (hl.trans (hleaving.trans (heq ▸ rfl)))
        refine ⟨s', ?_, changes_refl s'⟩
        rcases amid_bind changes_refl hamid with ⟨previous, s₁, _, _, hload, hrest, _⟩
        -- The session of the cookie is gone, has expired, or is ended now.
        cases amid_loadSsoSessionByKey hload with
        | missing _ h =>
            have hch := h.trans (amid_done hrest).2.2
            exact ⟨hs.step hinj (.aside hch), (hch.presented _).trans hx, hne, hl⟩
        | @expired p hp hexp h =>
            have hdrop := h.before (amid_done hrest).2.2
            rcases get_eq_some.mp hp with ⟨e, he, _, rfl⟩
            refine ⟨hs.step hinj (.expired hdrop hp hexp), ?_, hne, hl⟩
            rw [hdrop.presented_of_ne fun heq => hkey (heq.trans (hs.2.id _ e he))]
            exact hx
        | @alive p hp h =>
            have hdrop := (amid_destroySsoSession hrest).after h
            refine ⟨hs.step hinj (.ended hdrop (hl.trans hleaving) hp), ?_, hne, hl⟩
            rw [hdrop.presented_of_ne fun heq => hkey (heq.trans (hs.2.presented_id hp))]
            exact hx

/-- Issuing a code touches the session. -/
theorem yields_authorizeWithSession (hinj : Function.Injective deps.keyOf) (rid : Option String)
    (request : ValidatedAuthorizationRequest) (environment : RequestEnvironment) :
    Amidst noSessions E _ (authorizeWithSession deps rid request x environment)
      (SteppedWith deps c leaving s₀ x) fun _ => Stepped deps leaving s₀ := by
  refine sound_noSessions.bind (yields_keep touches_checkTenantAccess) fun access => ?_
  cases access with
  | error reason => exact sound_noSessions.pure _ fun _ hs => hs.1
  | ok user =>
      refine sound_noSessions.bind (yields_keep touches_randomToken) fun codeValue => ?_
      refine sound_noSessions.bind (yields_keep
        ((touches_setLogged onField_authorizationCodes rfl).mono (by decide))) fun _ => ?_
      refine sound_noSessions.bind (Q := fun _ => Stepped deps leaving s₀) ?_ fun _ =>
        sound_noSessions.pure _ le_rfl
      rintro s es a s' ⟨hs, hx, _⟩ hamid _
      exact ⟨s', hs.step hinj (.touched (amid_touchSsoSession hamid) hx), changes_refl s'⟩

/-- Resuming a login makes steps of the sessions alone. -/
theorem yields_resumeLogin (hinj : Function.Injective deps.keyOf) (result : LoginSuccess)
    (rid : String) (environment : RequestEnvironment) :
    Amidst noSessions E _ (resumeLogin deps result rid environment)
      (SteppedWith deps c leaving s₀ result.session) fun _ => Stepped deps leaving s₀ := by
  refine sound_noSessions.bind (Q := fun _ => SteppedWith deps c leaving s₀ result.session) ?_
      fun request => ?_
  · unfold takeRequest
    split
    · exact sound_noSessions.pure _ le_rfl
    · exact yields_keep
        ((touches_getAndDelete onField_authorizationRequests).mono (by decide))
  -- Without a saved request the session is left as it was created.
  · cases request with
    | none => exact sound_noSessions.pure _ fun _ hs => hs.1
    | some pending =>
        refine sound_noSessions.bind (Q := fun _ => Stepped deps leaving s₀) ?_ fun _ =>
          sound_noSessions.pure _ le_rfl
        refine sound_noSessions.bind (yields_keep (touches_both touches_query touches_query))
          fun rows => ?_
        split
        · split
          · exact sound_noSessions.pure _ fun _ hs => hs.1
          · refine sound_noSessions.bind (yields_authorizeWithSession hinj _ _ _) fun _ => ?_
            exact sound_noSessions.pure _ le_rfl
        · exact sound_noSessions.pure _ fun _ hs => hs.1

/-- Loading a session and nothing about it. -/
theorem yields_loadOnly (hinj : Function.Injective deps.keyOf) (key : String) :
    Amidst noSessions E _ (loadSsoSessionByKey key) (Stepped deps leaving s₀)
        fun _ => Stepped deps leaving s₀ :=
  (yields_load hinj key).imp fun _ _ hs => hs.1

/-- The authorization endpoint makes steps of the sessions alone. -/
theorem yields_authorize (hinj : Function.Injective deps.keyOf) {params : RawParams}
    {cookie : Option String} {environment : RequestEnvironment} (hc : c.finishing = none)
    (hl : leaving = none ∨ leaving = c.leaving deps) :
    Amidst noSessions E _ (authorize deps params cookie environment) (Stepped deps leaving s₀)
      fun _ => Stepped deps leaving s₀ := by
  have hnone : c.leaving deps = none := by
    rw [AuthCall.leaving, hc]
    rfl
  -- This endpoint ends no session of a browser.
  have hleaving : leaving = none := hl.elim id fun h => h.trans hnone
  refine sound_noSessions.bind (yields_keep touches_validateAuthorizationRequest)
    fun validated => ?_
  cases validated with
  | error e => exact sound_noSessions.pure _ le_rfl
  | ok request =>
      refine sound_noSessions.bind (Q := fun a s => a.elim (Stepped deps leaving s₀ s)
        fun x => SteppedWith deps c leaving s₀ x s) ?_ fun session => ?_
      · cases cookie with
        | none => exact sound_noSessions.pure _ fun _ => id
        | some value =>
            unfold loadSsoSession
            dsimp only
            split
            · exact sound_noSessions.pure _ fun _ => id
            · refine (yields_load hinj _).imp fun a s hs => ?_
              cases a with
              | none => exact hs.1
              | some x =>
                  rcases hs.2 x rfl with ⟨hid, hx⟩
                  exact ⟨hs.1, hid.symm ▸ hx, hleaving ▸ nofun, hleaving.trans hnone.symm⟩
      -- Without a session the request is put aside, with one it is touched.
      · cases session with
        | none =>
            refine sound_noSessions.bind (yields_keep
              (touches_storePendingAuthorization.mono (by decide))) fun _ => ?_
            exact sound_noSessions.pure _ le_rfl
        | some x =>
            refine sound_noSessions.bind (yields_authorizeWithSession hinj _ _ _) fun _ => ?_
            exact sound_noSessions.pure _ le_rfl

/-- An exchange makes steps of the sessions alone. -/
theorem yields_exchange (hinj : Function.Injective deps.keyOf) (client : OidcClient)
    (input : CodeExchangeInput) :
    Amidst noSessions E _ (exchangeAuthorizationCode deps client input) (Stepped deps leaving s₀)
      fun _ => Stepped deps leaving s₀ := by
  refine sound_noSessions.bind (yields_keep
    ((touches_getAndDelete onField_authorizationCodes).mono (by decide))) fun stored => ?_
  split
  · exact sound_noSessions.pure _ le_rfl
  · exact yields_keep (touches_rejectReusedCode.mono (by decide))
  · split
    · exact sound_noSessions.pure _ le_rfl
    · refine sound_noSessions.bind (Yields.both_left (moves_changes noSessions)
        (yields_loadOnly hinj _)
        (touches_both touches_query touches_resolveTenant : Touches noSessions _)) fun rows => ?_
      split
      · exact sound_noSessions.pure _ le_rfl
      · exact sound_noSessions.pure _ le_rfl
      · exact sound_noSessions.pure _ le_rfl
      · exact yields_keep (touches_redeemCode.mono (by decide))

theorem yields_refresh (hinj : Function.Injective deps.keyOf) (client : OidcClient)
    (value : String) :
    Amidst noSessions E _ (refreshAccessToken deps client value) (Stepped deps leaving s₀)
      fun _ => Stepped deps leaving s₀ := by
  -- Neither the families nor the log are part of the sessions.
  have hrevoke : ∀ f, Amidst noSessions E _ (revokeRefreshTokenFamily f) (Stepped deps leaving s₀)
      fun _ => Stepped deps leaving s₀ :=
    fun _ => yields_keep (touches_revokeRefreshTokenFamily.mono (by decide))
  have haudit : ∀ subject detail, Amidst noSessions E _ (recordAudit subject detail)
      (Stepped deps leaving s₀) fun _ => Stepped deps leaving s₀ :=
    fun _ _ => yields_keep (touches_recordAudit.mono (by decide))
  refine sound_noSessions.bind (yields_keep (touches_consumeRefreshToken.mono (by decide)))
    fun consumed => ?_
  cases consumed with
  | unknown => exact sound_noSessions.pure _ le_rfl
  | reused token =>
      exact sound_noSessions.bind (hrevoke _) fun _ => sound_noSessions.bind (haudit _ _) fun _ =>
        sound_noSessions.pure _ le_rfl
  | consumed stored =>
      simp only [refreshConsumed]
      split
      · exact sound_noSessions.bind (hrevoke _) fun _ => sound_noSessions.bind (haudit _ _) fun _ =>
          sound_noSessions.pure _ le_rfl
      -- Loading the session may find it expired, and is then its end.
      · refine sound_noSessions.bind (Q := fun _ => Stepped deps leaving s₀) ?_ fun validated => ?_
        · refine sound_noSessions.bind (Yields.both_left (moves_changes noSessions)
            (yields_loadOnly hinj _) (touches_resolveTenant : Touches noSessions _)) fun rows => ?_
          split
          · exact sound_noSessions.pure _ le_rfl
          · exact sound_noSessions.pure _ le_rfl
          · refine sound_noSessions.bind (yields_keep touches_checkTenantAccess) fun access => ?_
            cases access <;> exact sound_noSessions.pure _ le_rfl
        · cases validated with
          | error e =>
              exact sound_noSessions.bind (hrevoke _) fun _ => sound_noSessions.pure _ le_rfl
          | ok rows =>
              refine sound_noSessions.bind (yields_keep (touches_both
                (touches_rotateRefreshToken.mono (by decide)) touches_issueTokens)) fun _ => ?_
              exact sound_noSessions.pure _ le_rfl

/-- What a request does to sessions is steps. -/
theorem steppedParts (hinj : Function.Injective deps.keyOf) (s₀ : State)
    (hl : leaving = none ∨ leaving = c.leaving deps) :
    Parts deps c (Amidst noSessions (leavesFor deps c leaving)) (Stepped deps leaving s₀)
      (SteppedWith deps c leaving s₀) where
  sound := sound_noSessions
  create user authenticated environment := by
    intro s es a s' hs hamid hE
    rcases amid_createSsoSession hamid with ⟨hcreated, hmem⟩
    -- The session that is created is not the one that is left.
    rcases hE _ hmem _ rfl with ⟨hne, hl⟩
    exact ⟨s', ⟨hs.step hinj (.created hcreated hne), hcreated.presented, hne, hl⟩,
      changes_refl s'⟩
  finish cookie hc result rid environment :=
    sound_noSessions.bind (yields_endPrevious hinj hc) fun _ => yields_resumeLogin hinj _ _ _
  authorize params cookie environment hc := yields_authorize hinj (by rw [hc]; rfl) hl
  load := yields_loadOnly hinj
  exchange _ _ _ _ := fun client => yields_exchange hinj client _
  refresh _ _ _ _ := fun client => yields_refresh hinj client _
  revokeFamily _ := yields_keep (touches_revokeRefreshTokenFamily.mono (by decide))
  revokeSession sid reason environment := by
    intro s es a s' hs hamid _
    rcases amid_revokeSessionBySid hamid with ⟨s₁, hsought, hmark⟩
    exact ⟨s', hs.step hinj (.revoked hsought hmark), changes_refl s'⟩
  revokeAccess _ _ _ := yields_keep (touches_revokeClientAccess.mono (by decide))
  addMember _ _ _ := yields_keep (touches_upsertServiceMembership.mono (by decide))
  removeMember _ _ _ := yields_keep (touches_removeServiceMembership.mono (by decide))

/-- A request takes steps on sessions and keeps sessions, index and records
    together. It leaves a session only if it has created another one. -/
theorem steps_of_exec {es : List Event} {a : Answer c} (hinj : Function.Injective deps.keyOf)
    (hs : Recorded deps s) (h : Exec s (AuthCall.body deps c) es a s')
    (hE : ∀ e ∈ es, notLeaving deps c e) :
    ∃ leaving, Stepped deps leaving s s' ∧
      ∀ key, leaving = some key → c.leaving deps = some key ∧ ∃ x, .sessionStored x ∈ es := by
  have hrun : ∀ leaving, leaving = none ∨ leaving = c.leaving deps →
      (∀ e ∈ es, leavesFor deps c leaving e) → Stepped deps leaving s s' := by
    intro leaving hl hes
    refine Yields.exec (P := Stepped deps leaving s) (Q := fun _ => Stepped deps leaving s)
      (steppedParts hinj s hl).body (moves_changes noSessions) ⟨.refl, hs⟩ h hes ?_
    exact fun _ _ hst hch => hst.step hinj (.aside hch)
  by_cases hstored : ∃ x, .sessionStored x ∈ es
  · refine ⟨c.leaving deps, hrun _ (.inr rfl) fun e he x hx => ⟨hE e he x hx, rfl⟩, ?_⟩
    exact fun key hkey => ⟨hkey, hstored⟩
  · refine ⟨none, hrun _ (.inl rfl) fun e he x hx => ?_, nofun⟩
    exact absurd ⟨x, hx ▸ he⟩ hstored

end Requests

section Runs

variable {deps : Deps}

/-- No login comes with the cookie that it is about to get. -/
def Unguessed (deps : Deps) : Happening Event AuthCall Change Answer → Prop
  | .call c _ es => ∀ e ∈ es, notLeaving deps c e
  | .env _ => True

theorem recorded_start (now : Int) (db : Identity) : Recorded deps (State.start now db) where
  id _ _ h := nomatch h
  refers _ _ h := nomatch h
  one _ _ _ _ h := nomatch h
  ends _ _ h := nomatch h
  indexed _ _ h := nomatch h
  recorded _ _ h := nomatch h
  leads _ _ h := nomatch h
  ids := List.nodup_nil
  issued _ h := nomatch h

/-- Time and the operator keep every session recorded. -/
theorem recorded_env {s s' : State} {t : Change} (ht : t.apply s = some s')
    (h : Recorded deps s) : Recorded deps s' := by
  rcases apply_cases ht with ⟨seconds, rfl⟩ | ⟨db, _, _, rfl⟩
  · exact h.tick seconds
  · exact ⟨h.id, fun k e he => (h.refers k e he).mono (List.Subset.refl _) fun d hd => ⟨d, hd, rfl⟩,
      h.one, h.ends, h.indexed, h.recorded, fun sid e he => (h.leads sid e he).mono
        (List.Subset.refl _) fun d hd => ⟨d, hd, rfl⟩, h.ids, h.issued⟩

/-- Sessions, index and records fit together after every run. -/
theorem recorded_of_runs {now : Int} {db : Identity} {s : State}
    {ls : List (Happening Event AuthCall Change Answer)} (hinj : Function.Injective deps.keyOf)
    (h : Runs (authSystem deps) (State.start now db) ls s) (hls : ∀ l ∈ ls, Unguessed deps l) :
    Recorded deps s :=
  h.induct (fun _ _ _ _ _ hE hs hexec => by
      rcases steps_of_exec hinj hs hexec hE with ⟨_, hst, _⟩
      exact hst.2)
    (fun _ _ _ _ hs ht => recorded_env ht hs) hls (recorded_start now db)

end Runs

end Sandbox.Auth
