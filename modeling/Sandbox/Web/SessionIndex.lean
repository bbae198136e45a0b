import Sandbox.Auth.SignedTokens
import Sandbox.Interleave.Amid
import Sandbox.Interleave.Sequential
import Sandbox.Web.Routing
import Sandbox.Web.Tenants

/-!
# The Index of the Sessions

A session is stored under its key, and the key is in the set of the session's
`sid`, through which a back-channel logout finds it. The two are written one
after the other, have their own times to live and are taken away apart. As long
as requests do not overlap they agree between the requests: a session that is
still alive is in the set of its `sid`, the set lasts as long as the session
can, and it has nothing else.

So a back-channel logout takes all sessions of the `sid` and no others. That
holds for requests one after the other only; a session that is created while
the set is taken away is lost from it.

## Main definitions

* `Twin`: Two versions of one session.
* `Inv`: Sessions and sets agree, and all sessions have a `sid` that is `ok`.
* `Solo`: What holds after a request that runs alone.

## Theorems

* `Inv.create`, `Inv.save`, `Inv.destroy`: The writes keep the two in agreement.
* `Inv.destroyAll`: Taking a set takes the sessions of its `sid`.
* `solo_respond`: Every request keeps sessions and sets in agreement.
* `backchannel_ends_exactly`: A back-channel logout takes the sessions of its
  `sid` and no others.
-/

namespace Sandbox.Web.SessionIndex

open Interleave Ttl

variable {jose : Jose}

/-- The two are versions of one session. -/
def Twin (x y : TenantSession) : Prop :=
  x.id = y.id ∧ x.tenantSlug = y.tenantSlug ∧ x.sid = y.sid ∧ x.createdAt = y.createdAt

def keyOf (x : TenantSession) : String := sessionKey x.tenantSlug x.id

/-- A key has the id of a session that was created. -/
def Handed (s : WebState) (key : String) : Prop :=
  ∃ slug id, key = sessionKey slug id ∧ ':' ∉ slug.toList ∧ id ∈ s.issued

/-- The key is in the set of the `sid`, for as long as the session can last. -/
def Indexed (s : WebState) (x : TenantSession) : Prop :=
  ∃ e, s.sessionsBySid (sidKey x.sid) = some e ∧ keyOf x ∈ e.value ∧
    x.createdAt + tenantExpiry.absoluteSeconds ≤ e.expiresAt

/-- The stored sessions and the sets of their keys agree. -/
structure Inv (ok : String → Prop) (s : WebState) : Prop where
  named : ∀ key e, s.sessions key = some e →
    key = keyOf e.value ∧ ':' ∉ e.value.tenantSlug.toList ∧ e.value.id ∈ s.issued
  indexed : ∀ key e, s.sessions key = some e → s.now < e.expiresAt → ok e.value.sid ∧
    Indexed s e.value ∧ e.expiresAt ≤ e.value.createdAt + tenantExpiry.absoluteSeconds
  sets : ∀ sid e, s.sessionsBySid (sidKey sid) = some e →
    e.expiresAt ≤ s.now + tenantExpiry.absoluteSeconds ∧
      ∀ key ∈ e.value, Handed s key ∧ ∀ d, s.sessions key = some d → d.value.sid = sid

/-- The session can be loaded, in this version or another. -/
def Stored (s : WebState) (x : TenantSession) : Prop :=
  ∃ y, Ttl.get s.sessions s.now (keyOf x) = some y ∧ Twin y x ∧ y.isExpired s.now = false

/-- Neither the clock nor a session nor a set has changed. -/
def Still (s s' : WebState) : Prop :=
  s'.now = s.now ∧ s'.sessions = s.sessions ∧ s'.sessionsBySid = s.sessionsBySid ∧
    s.issued ⊆ s'.issued

theorem Twin.refl (x : TenantSession) : Twin x x := ⟨rfl, rfl, rfl, rfl⟩

theorem Twin.trans {x y z : TenantSession} (h : Twin x y) (h' : Twin y z) : Twin x z :=
  ⟨h.1.trans h'.1, h.2.1.trans h'.2.1, h.2.2.1.trans h'.2.2.1, h.2.2.2.trans h'.2.2.2⟩

theorem Twin.keyOf {x y : TenantSession} (h : Twin x y) : keyOf x = keyOf y := by
  unfold SessionIndex.keyOf
  rw [h.1, h.2.1]

theorem sidKey_inj {sid sid' : String} (h : sidKey sid = sidKey sid') : sid = sid' := by
  have hlist := congrArg String.toList h
  simp only [sidKey, String.toList_append, List.append_cancel_left_eq] at hlist
  exact String.toList_inj.mp hlist

section States

variable {ok : String → Prop} {s s' : WebState} {x : TenantSession} {sid : String}

/-- A twin of a stored session is stored in its place. -/
theorem Stored.twin {y : TenantSession} (h : Stored s x) (hxy : Twin x y) : Stored s y := by
  rcases h with ⟨z, hz, htwin, hlive⟩
  exact ⟨z, hxy.keyOf ▸ hz, htwin.trans hxy, hlive⟩

/-- The sessions stay what they are for whoever looks later. -/
theorem Inv.later (h : Inv ok s) (seconds : Nat) :
    Inv ok { s with now := s.now + seconds } where
  named := h.named
  indexed key e he hlive := h.indexed key e he (by dsimp only at hlive; omega)
  sets sid e he := by
    rcases h.sets sid e he with ⟨hle, hkeys⟩
    refine ⟨?_, hkeys⟩
    dsimp only
    omega

/-- What touches neither sessions nor sets keeps the agreement. -/
theorem Inv.still (h : Inv ok s) (hs : Still s s') : Inv ok s' := by
  rcases hs with ⟨hnow, hsessions, hsets, hissued⟩
  refine ⟨fun key e he => ?_, fun key e he hlive => ?_, fun sid e he => ?_⟩
  · rw [hsessions] at he
    rcases h.named key e he with ⟨hkey, hslug, hid⟩
    exact ⟨hkey, hslug, hissued hid⟩
  · rw [hsessions] at he
    rw [hnow] at hlive
    rcases h.indexed key e he hlive with ⟨hok, ⟨d, hd, hmem⟩, hle⟩
    exact ⟨hok, ⟨d, hsets ▸ hd, hmem⟩, hle⟩
  · rw [hsets] at he
    rw [hnow, hsessions]
    rcases h.sets sid e he with ⟨hle, hkeys⟩
    refine ⟨hle, fun key hkey => ?_⟩
    rcases hkeys key hkey with ⟨⟨slug, id, heq, hslug, hid⟩, hsid⟩
    exact ⟨⟨slug, id, heq, hslug, hissued hid⟩, hsid⟩

/-- The invariant over fewer sids is the one over more. -/
theorem Inv.mono {ok' : String → Prop} (h : Inv ok s) (hle : ∀ sid, ok sid → ok' sid) :
    Inv ok' s where
  named := h.named
  indexed key e he hlive :=
    let ⟨hok, hrest⟩ := h.indexed key e he hlive
    ⟨hle _ hok, hrest⟩
  sets := h.sets

/-- What is stored stays so where the store is untouched. -/
theorem Stored.still (h : Stored s x) (hs : Still s s') : Stored s' x := by
  rcases h with ⟨y, hy, htwin, hlive⟩
  refine ⟨y, ?_, htwin, ?_⟩
  · rw [hs.1, hs.2.1]
    exact hy
  · rw [hs.1]
    exact hlive

/-- No session has the id and no set has a key with it. -/
def Unused (s : WebState) (id : String) : Prop :=
  ∀ slug : String, ':' ∉ slug.toList → s.sessions (sessionKey slug id) = none ∧
    ∀ sid e, s.sessionsBySid (sidKey sid) = some e → sessionKey slug id ∉ e.value

/-- An id that was never issued is in use nowhere. -/
theorem Inv.unused (h : Inv ok s) {id : String} (hid : id ∉ s.issued) : Unused s id := by
  intro slug hslug
  refine ⟨?_, fun sid e he hmem => ?_⟩
  · by_contra hsome
    rcases Option.ne_none_iff_exists'.mp hsome with ⟨e, he⟩
    rcases h.named _ e he with ⟨hkey, hslug', hissued⟩
    rcases sessionKey_inj hslug hslug' hkey with ⟨_, rfl⟩
    exact hid hissued
  · rcases (h.sets sid e he).2 _ hmem with ⟨⟨slug', id', hkey, hslug', hissued⟩, _⟩
    rcases sessionKey_inj hslug hslug' hkey with ⟨_, rfl⟩
    exact hid hissued

/-- A session with a new id is stored and added to the set of its `sid`. -/
theorem Inv.create (h : Inv ok s) (hunused : Unused s x.id) (hid : x.id ∈ s.issued)
    (hslug : ':' ∉ x.tenantSlug.toList) (hok : ok x.sid) (hnow : x.createdAt = s.now) :
    Inv ok { s with
      sessions := Ttl.set s.sessions s.now (keyOf x) x tenantExpiry.absoluteSeconds
      sessionsBySid :=
        Ttl.add s.sessionsBySid s.now (sidKey x.sid) (keyOf x) tenantExpiry.absoluteSeconds } := by
  rcases add_self s.sessionsBySid s.now (sidKey x.sid) (keyOf x) tenantExpiry.absoluteSeconds
    with ⟨keys, hput, hkeys⟩
  refine ⟨fun key e he => ?_, fun key e he hlive => ?_, fun sid e he => ?_⟩
  · rcases put_eq_some he with ⟨rfl, rfl⟩ | ⟨_, he⟩
    · exact ⟨rfl, hslug, hid⟩
    · exact h.named key e he
  · rcases put_eq_some he with ⟨rfl, rfl⟩ | ⟨_, he⟩
    · have hend : x.createdAt + tenantExpiry.absoluteSeconds =
          s.now + tenantExpiry.absoluteSeconds := by rw [hnow]
      exact ⟨hok, ⟨_, hput, (hkeys _).mpr (.inl rfl), Int.le_of_eq hend⟩, Int.le_of_eq hend.symm⟩
    · -- Its set lasts as long as before, or longer.
      rcases h.indexed key e he hlive with ⟨hok', ⟨d, hd, hmem, hle⟩, hend⟩
      refine ⟨hok', ?_, hend⟩
      by_cases hsid : sidKey e.value.sid = sidKey x.sid
      · rw [hsid] at hd
        refine ⟨_, (congrArg _ hsid).trans hput, (hkeys _).mpr (.inr ?_), ?_⟩
        · refine mem_members.mpr ⟨d, hd, ?_, hmem⟩
          dsimp only at hlive
          omega
        · exact Int.le_trans hle (h.sets _ d hd).1
      · exact ⟨d, (add_of_ne _ _ _ _ hsid).trans hd, hmem, hle⟩
  · by_cases hsid : sid = x.sid
    · -- The set of the new session has its key and the keys it had.
      subst hsid
      cases hput.symm.trans he
      refine ⟨Int.le_refl _, fun key hkey => ?_⟩
      rcases (hkeys key).mp hkey with rfl | hold
      · refine ⟨⟨x.tenantSlug, x.id, rfl, hslug, hid⟩, fun d hd => ?_⟩
        cases (put_self _ _ _).symm.trans hd
        rfl
      · rcases mem_members.mp hold with ⟨e', he', _, hmem⟩
        rcases (h.sets _ e' he').2 key hmem with ⟨hhanded, hsid'⟩
        refine ⟨hhanded, fun d hd => ?_⟩
        rcases put_eq_some hd with ⟨rfl, rfl⟩ | ⟨_, hd⟩
        · rfl
        · exact hsid' d hd
    · -- No other set has a key with the new id.
      have hne : sidKey sid ≠ sidKey x.sid := fun heq => hsid (sidKey_inj heq)
      have he' : s.sessionsBySid (sidKey sid) = some e := (add_of_ne _ _ _ _ hne).symm.trans he
      rcases h.sets sid e he' with ⟨hle, hmembers⟩
      refine ⟨hle, fun key hkey => ⟨(hmembers key hkey).1, fun d hd => ?_⟩⟩
      rcases put_eq_some hd with ⟨rfl, _⟩ | ⟨_, hd⟩
      · exact absurd hkey ((hunused _ hslug).2 sid e he')
      · exact (hmembers key hkey).2 d hd

/-- The limits of a session that can be loaded. -/
theorem Stored.within (h : Stored s x) : s.now < x.createdAt + tenantExpiry.absoluteSeconds := by
  rcases h with ⟨y, _, htwin, hlive⟩
  rw [← htwin.2.2.2]
  exact (SessionExpiry.lt_of_not_isExpired hlive).2

/-- A session that can be loaded is written back. -/
theorem Inv.save (h : Inv ok s) (hx : Stored s x) :
    Inv ok { s with sessions := Ttl.set s.sessions s.now (keyOf x) x (x.remainingTtl s.now) } := by
  rcases hx with ⟨y, hy, htwin, _⟩
  rcases get_eq_some.mp hy with ⟨d, hd, hlive, rfl⟩
  rcases h.named _ d hd with ⟨_, hslug, hid⟩
  rcases h.indexed _ d hd hlive with ⟨hok, ⟨keys, hkeys, hmem, hle⟩, _⟩
  -- What holds of the version that is stored holds of this one.
  rw [htwin.2.1] at hslug
  rw [htwin.1] at hid
  rw [htwin.2.2.1] at hok hkeys
  rw [htwin.keyOf] at hmem
  rw [htwin.2.2.2] at hle
  have hend : s.now + x.remainingTtl s.now = x.createdAt + tenantExpiry.absoluteSeconds := by
    unfold TenantSession.remainingTtl SessionExpiry.remainingTtl
    omega
  refine ⟨fun key e he => ?_, fun key e he hlive' => ?_, fun sid e he => ?_⟩
  · rcases put_eq_some he with ⟨rfl, rfl⟩ | ⟨_, he⟩
    · exact ⟨rfl, hslug, hid⟩
    · exact h.named key e he
  · rcases put_eq_some he with ⟨rfl, rfl⟩ | ⟨_, he⟩
    · exact ⟨hok, ⟨keys, hkeys, hmem, hle⟩, Int.le_of_eq hend⟩
    · exact h.indexed key e he hlive'
  · rcases h.sets sid e he with ⟨hle', hmembers⟩
    refine ⟨hle', fun key hkey => ⟨(hmembers key hkey).1, fun e' he' => ?_⟩⟩
    rcases put_eq_some he' with ⟨rfl, rfl⟩ | ⟨_, he'⟩
    · exact htwin.2.2.1.symm.trans ((hmembers _ hkey).2 d hd)
    · exact (hmembers key hkey).2 e' he'

/-- A session is taken away, and its key from the set. -/
theorem Inv.destroy (h : Inv ok s) (x : TenantSession) :
    Inv ok { s with
      sessions := Ttl.delete s.sessions (keyOf x)
      sessionsBySid := Ttl.remove s.sessionsBySid s.now (sidKey x.sid) (keyOf x) } := by
  refine ⟨fun key e he => h.named key e (delete_eq_some he).2, fun key e he hlive => ?_,
    fun sid e' he' => ?_⟩
  · rcases delete_eq_some he with ⟨hne, he⟩
    rcases h.indexed key e he hlive with ⟨hok, ⟨d, hd, hmem, hle⟩, hend⟩
    -- Its key is not the one that leaves the set.
    rcases exists_remove hd with ⟨d', hd', hexpires, hkept⟩
    refine ⟨hok, ⟨d', hd', hkept _ hmem ?_, hexpires ▸ hle⟩, hend⟩
    rw [← (h.named key e he).1]
    exact hne
  · rcases remove_eq_some he' with ⟨e, he, hexpires, hsub⟩
    rcases h.sets sid e he with ⟨hle, hkeys⟩
    refine ⟨hexpires ▸ hle, fun key hkey => ?_⟩
    rcases hkeys key (hsub hkey) with ⟨hhanded, hsid⟩
    exact ⟨hhanded, fun d hd => hsid d (delete_eq_some hd).2⟩

/-- The keys of a set are taken away, and the set. -/
structure Taken (sid : String) (s s' : WebState) : Prop where
  now : s'.now = s.now
  issued : s'.issued = s.issued
  set : s'.sessionsBySid = Ttl.delete s.sessionsBySid (sidKey sid)
  gone : ∀ key ∈ Ttl.members s.sessionsBySid s.now (sidKey sid), s'.sessions key = none
  kept : ∀ key ∉ Ttl.members s.sessionsBySid s.now (sidKey sid),
    s'.sessions key = s.sessions key

/-- What a taken sid leaves behind lay outside of its set, and is unchanged. -/
theorem Taken.stored (h : Taken sid s s') {key : String} {e : Entry TenantSession}
    (he : s'.sessions key = some e) :
    key ∉ Ttl.members s.sessionsBySid s.now (sidKey sid) ∧ s.sessions key = some e := by
  have hnot : key ∉ Ttl.members s.sessionsBySid s.now (sidKey sid) := by
    intro hmem
    rw [h.gone key hmem] at he
    cases he
  exact ⟨hnot, (h.kept key hnot).symm.trans he⟩

/-- Then no session with the `sid` is left. -/
theorem Inv.destroyAll (h : Inv ok s) (ht : Taken sid s s') :
    Inv (fun x => ok x ∧ x ≠ sid) s' := by
  refine ⟨fun key e he => ?_, fun key e he hlive => ?_, fun sid' e he => ?_⟩
  · rw [ht.issued]
    exact h.named key e (ht.stored he).2
  · rcases ht.stored he with ⟨hnot, hold⟩
    rw [ht.now] at hlive
    rcases h.indexed key e hold hlive with ⟨hok, ⟨d, hd, hmem, hle⟩, hend⟩
    -- A session with the `sid` has its key in the set that was taken.
    have hne : e.value.sid ≠ sid := by
      rintro rfl
      refine hnot (mem_members.mpr ⟨d, hd, ?_, (h.named key e hold).1 ▸ hmem⟩)
      omega
    refine ⟨⟨hok, hne⟩, ⟨d, ?_, hmem, hle⟩, hend⟩
    rw [ht.set, delete_of_ne _ fun heq => hne (sidKey_inj heq)]
    exact hd
  · rw [ht.set] at he
    rcases h.sets sid' e (delete_eq_some he).2 with ⟨hle, hkeys⟩
    rw [ht.now]
    refine ⟨hle, fun key hkey => ?_⟩
    rcases hkeys key hkey with ⟨⟨slug, id, heq, hslug, hid⟩, hsid⟩
    exact ⟨⟨slug, id, heq, hslug, ht.issued ▸ hid⟩, fun d hd => hsid d (ht.stored hd).2⟩

/-- And all others are. -/
theorem Inv.others_kept (h : Inv ok s) (ht : Taken sid s s') {key : String}
    {e : Entry TenantSession} (he : s.sessions key = some e) (hne : e.value.sid ≠ sid) :
    s'.sessions key = some e := by
  refine (ht.kept key fun hmem => ?_).trans he
  rcases mem_members.mp hmem with ⟨d, hd, _, hkey⟩
  exact hne (((h.sets sid d hd).2 key hkey).2 e he)

/-- A session that is found has a sid of the invariant. -/
theorem Inv.ok_of_get {key : String} (h : Inv ok s)
    (hget : Ttl.get s.sessions s.now key = some x) : ok x.sid := by
  rcases get_eq_some.mp hget with ⟨e, he, hlive, rfl⟩
  exact (h.indexed key e he hlive).1

/-- What can be read afterwards. -/
theorem Inv.get_taken {key : String} (h : Inv ok s) (ht : Taken sid s s') :
    Ttl.get s'.sessions s'.now key = some x ↔
      Ttl.get s.sessions s.now key = some x ∧ x.sid ≠ sid := by
  constructor
  · intro hget
    have hsid : x.sid ≠ sid := ((h.destroyAll ht).ok_of_get hget).2
    rcases get_eq_some.mp hget with ⟨e, he, hlive, rfl⟩
    rw [ht.now] at hlive
    exact ⟨get_eq_some.mpr ⟨e, (ht.stored he).2, hlive, rfl⟩, hsid⟩
  · rintro ⟨hget, hsid⟩
    rcases get_eq_some.mp hget with ⟨e, he, hlive, rfl⟩
    rw [ht.now]
    exact get_eq_some.mpr ⟨e, h.others_kept ht he hsid, hlive, rfl⟩

/-- Nothing has happened but that the set of the `sid` or sessions with these
    keys have been taken away. -/
structure Taking (sid : String) (keys : List String) (s s' : WebState) : Prop where
  now : s'.now = s.now
  issued : s'.issued = s.issued
  sets : s'.sessionsBySid = s.sessionsBySid ∨
    s'.sessionsBySid = Ttl.delete s.sessionsBySid (sidKey sid)
  kept : ∀ key, s'.sessions key = s.sessions key ∨ key ∈ keys ∧ s'.sessions key = none

/-- Without the set, the sets are what they were without it. -/
theorem Taking.deleted {keys : List String} (h : Taking sid keys s s') :
    Ttl.delete s'.sessionsBySid (sidKey sid) = Ttl.delete s.sessionsBySid (sidKey sid) := by
  rcases h.sets with heq | heq
  · rw [heq]
  · rw [heq, delete_delete]

theorem moves_taking {keys : List String} : Moves (Taking sid keys) where
  refl _ := ⟨rfl, rfl, .inl rfl, fun _ => .inl rfl⟩
  trans s s₁ s' h h' := by
    refine ⟨h'.now.trans h.now, h'.issued.trans h.issued, ?_, fun key => ?_⟩
    · rcases h'.sets with heq | heq
      · rw [heq]
        exact h.sets
      · exact .inr (heq.trans h.deleted)
    · rcases h'.kept key with heq | hgone
      · rw [heq]
        exact h.kept key
      · exact .inr hgone

theorem taking_of_eq {keys : List String} (s s' : WebState) (h : s = s') : Taking sid keys s s' :=
  h ▸ moves_taking.refl s

theorem inv_start (now : Int) : Inv ok (WebState.start now) where
  named _ _ he := by cases he
  indexed _ _ he := by cases he
  sets _ _ he := by cases he

end States

section Programs

variable {ok : String → Prop} {deps : WebDeps jose} {client : OidcClientConfig}
  {x session : TenantSession} {P : WebState → Prop} {α β : Type}

/-- Sessions are created with a `sid` that is `ok`. -/
def Allowed (ok : String → Prop) (e : Event) : Prop :=
  ∀ session claims, e = .sessionCreated session claims → ok session.sid

/-- What holds after a program that runs alone and creates sessions that are
    `ok`. -/
abbrev Solo (ok : String → Prop) {α : Type} (p : WebProg jose α) (P : WebState → Prop)
    (Q : α → WebState → Prop) : Prop :=
  Yields (fun s s' => s = s') (Allowed ok) p P Q

theorem moves_still : Moves Still where
  refl _ := ⟨rfl, rfl, rfl, List.Subset.refl _⟩
  trans _ _ _ h h' := ⟨h'.1.trans h.1, h'.2.1.trans h.2.1, h'.2.2.1.trans h.2.2.1,
    List.Subset.trans h.2.2.2 h'.2.2.2⟩

theorem still_of_eq (s s' : WebState) (h : s = s') : Still s s' := h ▸ moves_still.refl s

theorem moves_same : Moves fun s s' : WebState => s = s' :=
  ⟨fun _ => rfl, fun _ _ _ => Eq.trans⟩

/-- The rule for a sequence: the condition of the first part is what the second starts from. -/
theorem solo_bind {p : WebProg jose α} {f : α → WebProg jose β} {Q : α → WebState → Prop}
    {R : β → WebState → Prop} (hp : Solo ok p P Q) (hf : ∀ a, Solo ok (f a) (Q a) R) :
    Solo ok (p >>= f) P R :=
  Yields.bind moves_same hp hf

theorem solo_pure {a : α} {Q : α → WebState → Prop} (h : ∀ s, P s → Q a s) :
    Solo ok (pure a : WebProg jose α) P Q :=
  Yields.pure a h

/-- What is known for good can be used. -/
theorem solo_given {φ : Prop} {p : WebProg jose α} {Q : α → WebState → Prop}
    (h : φ → Solo ok p P Q) : Solo ok p (fun s => φ ∧ P s) Q :=
  fun s es a s' hs => h hs.1 s es a s' hs.2

/-- The condition before a program may be strengthened. -/
theorem solo_before {K : WebState → Prop} {p : WebProg jose α} {Q : α → WebState → Prop}
    (hK : ∀ s, P s → K s) (h : Solo ok p K Q) : Solo ok p P Q :=
  Yields.weaken h hK

/-- What leaves sessions and sets alone keeps what is known of them. -/
theorem solo_still {E : Event → Prop} {p : WebProg jose α} (h : Within Still E p)
    (hP : ∀ s s', Still s s' → P s → P s') : Solo ok p P fun _ => P := by
  intro s es a s' hs hamid _
  exact ⟨s', hP s s' (amid_within moves_still still_of_eq hamid h).1 hs, rfl⟩

/-- A program that does not touch the sessions keeps every condition on them. -/
theorem solo_aside {p : WebProg jose α} (h : Within Unmoved Mute p)
    (hP : ∀ s s', Still s s' → P s → P s') : Solo ok p P fun _ => P :=
  solo_still (within_mono h (fun _ _ hs => ⟨hs.1, hs.2.1, hs.2.2.1, hs.2.2.2.2⟩) fun _ => id) hP

/-- Reading the clock changes nothing, and the answer is the present. -/
theorem solo_now : Solo ok (nowSeconds : WebProg jose Int) P fun now s => now = s.now ∧ P s :=
  Yields.read fun _ _ hs heq => heq ▸ ⟨rfl, hs⟩

theorem solo_emit {e : Event} : Solo ok (Prog.emit e : WebProg jose _) P fun _ => P :=
  Yields.within moves_same (within_logged (E := fun _ => True) (fun _ => rfl) fun _ => trivial)

/-- What is known of a session before it is used. -/
def Has (ok : String → Prop) (x : TenantSession) (s : WebState) : Prop :=
  Inv ok s ∧ Stored s x

/-- A session that is written back can be loaded again. -/
theorem Has.save {s : WebState} (h : Has ok x s) :
    Has ok { x with lastSeenAt := s.now } { s with
      sessions := Ttl.set s.sessions s.now (keyOf x) { x with lastSeenAt := s.now }
        (x.remainingTtl s.now) } := by
  have hx : Stored s { x with lastSeenAt := s.now } := h.2.twin (Twin.refl _)
  have hwithin : s.now < x.createdAt + tenantExpiry.absoluteSeconds := h.2.within
  refine ⟨h.1.save hx, { x with lastSeenAt := s.now }, get_set_self _ _ _ _ ?_, Twin.refl _, ?_⟩
  · unfold TenantSession.remainingTtl SessionExpiry.remainingTtl
    omega
  · refine eq_false_of_ne_true fun hexpired => ?_
    rcases SessionExpiry.isExpired_iff.mp hexpired with hidle | habsolute
    · have hpositive : (0 : Int) < tenantExpiry.idleSeconds := by decide
      dsimp only at hidle
      omega
    · dsimp only at habsolute
      omega

/-- A session that is held stays so where the store is untouched. -/
theorem has_still (s s' : WebState) (hs : Still s s') (h : Has ok x s) : Has ok x s' :=
  ⟨h.1.still hs, h.2.still hs⟩

/-- The invariant holds on where the store is untouched. -/
theorem inv_still (s s' : WebState) (hs : Still s s') (h : Inv ok s) : Inv ok s' := h.still hs

/-- A session of the tenant whose host was asked. -/
def At (client : OidcClientConfig) (x : TenantSession) : Prop :=
  x.tenantSlug = client.tenantSlug ∧ x.id ≠ ""

theorem At.twin {y : TenantSession} (h : At client x) (hxy : Twin y x) : At client y :=
  ⟨hxy.2.1.trans h.1, hxy.1.symm ▸ h.2⟩

/-- Destroying a session keeps the sets in step with the sessions. -/
theorem solo_destroySession :
    Solo ok (destroySession x : WebProg jose Unit) (Inv ok) fun _ => Inv ok := by
  refine solo_bind (Q := fun _ => Inv ok) (Yields.pair (fun s h _ => h.destroy x) fun s h _ => ?_)
    fun _ => solo_emit
  exact h.destroy x

/-- Loading a session, which is at the tenant's host if it is found. -/
theorem solo_loadSession (hslug : isSlug client.tenantSlug.toList = true)
    (cookie : Option String) :
    Solo ok (loadSession client cookie : WebProg jose _) (Inv ok) fun found s =>
      Inv ok s ∧ ∀ x, found = some x → Stored s x ∧ At client x := by
  unfold loadSession
  split
  · exact solo_pure fun s h => ⟨h, nofun⟩
  · next id =>
      split
      · exact solo_pure fun s h => ⟨h, nofun⟩
      · next hid =>
          -- The key of the cookie is the key of the session that is found there.
          refine solo_bind (Q := fun found s => Inv ok s ∧
            Ttl.get s.sessions s.now (sessionKey client.tenantSlug id) = found)
            (Yields.read fun s s₁ h heq => heq ▸ ⟨h, rfl⟩) fun found => ?_
          cases found with
          | none => exact solo_pure fun s h => ⟨h.1, nofun⟩
          | some session =>
              refine solo_bind solo_now fun now => ?_
              split
              · exact solo_bind (Yields.weaken solo_destroySession fun s h => h.2.1) fun _ =>
                  solo_pure fun s h => ⟨h, nofun⟩
              · next hlive =>
                  refine solo_pure fun s h => ⟨h.2.1, fun x hx => ?_⟩
                  cases hx
                  rcases h with ⟨rfl, hinv, hget⟩
                  rcases get_eq_some.mp hget with ⟨e, he, _, rfl⟩
                  rcases hinv.named _ e he with ⟨hkey, hcolon, _⟩
                  rcases sessionKey_inj (colon_notMem_of_isSlug hslug) hcolon hkey with
                    ⟨hsame, rfl⟩
                  rw [hkey] at hget
                  exact ⟨⟨e.value, hget, Twin.refl _, eq_false_of_ne_true hlive⟩, hsame.symm, hid⟩

/-- A session that can be loaded is. -/
theorem solo_reload (hat : At client x) :
    Solo ok (loadSession client (some x.id) : WebProg jose _) (Has ok x) fun found s =>
      Inv ok s ∧ ∃ y, found = some y ∧ Twin y x ∧ Stored s y := by
  unfold loadSession
  dsimp only
  rw [if_neg hat.2, ← hat.1]
  refine solo_bind (Q := fun found s => Inv ok s ∧ ∃ y, found = some y ∧ Twin y x ∧
    Ttl.get s.sessions s.now (keyOf x) = some y ∧ y.isExpired s.now = false)
    (Yields.read fun s s₁ h heq => ?_) fun found => ?_
  · subst heq
    rcases h.2 with ⟨y, hy, htwin, hlive⟩
    exact ⟨h.1, y, hy, htwin, hy, hlive⟩
  · cases found with
    | none =>
        -- It is there.
        refine fun s es a s' h => ?_
        rcases h.2 with ⟨y, hy, _⟩
        cases hy
    | some session =>
        refine solo_bind solo_now fun now => ?_
        split
        · next hdead =>
            -- It has not expired.
            rintro s es a s' ⟨rfl, _, y, hy, _, _, hlive⟩
            cases hy
            exact absurd hdead (by rw [hlive]; exact Bool.false_ne_true)
        · refine solo_pure fun s h => ?_
          rcases h with ⟨_, hinv, y, hy, htwin, hget, hlive⟩
          exact ⟨hinv, y, hy, htwin, y, htwin.keyOf ▸ hget, Twin.refl y, hlive⟩

/-- Writing a session back. -/
theorem solo_saveSession :
    Solo ok (saveSession x : WebProg jose _) (Has ok x) fun y s => Has ok y s ∧ Twin y x := by
  refine solo_bind solo_now fun now => ?_
  refine solo_bind (Q := fun _ => Has ok { x with lastSeenAt := now })
    (Yields.logged fun s s₁ h heq _ => ?_) fun _ => solo_pure fun s h => ⟨h, Twin.refl _⟩
  subst heq
  rcases h with ⟨rfl, h⟩
  exact h.save

/-- A touch saves a twin of the session, which is then the one held. -/
theorem solo_touchSession :
    Solo ok (touchSession x : WebProg jose _) (Has ok x) fun y s => Has ok y s ∧ Twin y x := by
  refine solo_bind solo_now fun now => ?_
  split
  · exact solo_pure fun s h => ⟨h.2, Twin.refl _⟩
  · refine solo_bind (Q := fun latest s => ∃ y, latest = some y ∧ Has ok y s ∧ Twin y x)
      (Yields.read fun s s₁ h heq => ?_) fun latest => ?_
    · subst heq
      rcases h with ⟨_, hinv, y, hy, htwin, hlive⟩
      exact ⟨y, hy, ⟨hinv, y, htwin.keyOf ▸ hy, Twin.refl y, hlive⟩, htwin⟩
    · cases latest with
      | none => exact fun s es a s' ⟨_, hy, _⟩ => by cases hy
      | some latest =>
          refine solo_before (K := fun s => Twin latest x ∧ Has ok latest s) ?_ (solo_given
            fun htwin => Yields.imp solo_saveSession fun y s h => ⟨h.1, h.2.trans htwin⟩)
          rintro s ⟨y, hy, h, htwin⟩
          cases hy
          exact ⟨htwin, h⟩

/-- The session of a request is stored, and is of the client and tenant of its Host. -/
theorem solo_contextSession (hslug : isSlug client.tenantSlug.toList = true)
    (cookie : Option String) :
    Solo ok (contextSession client cookie : WebProg jose _) (Inv ok) fun found s =>
      Inv ok s ∧ ∀ x, found = some x → Stored s x ∧ At client x := by
  refine solo_bind (solo_loadSession hslug cookie) fun found => ?_
  cases found with
  | none => exact solo_pure fun s h => ⟨h.1, nofun⟩
  | some session =>
      refine solo_before (K := fun s => At client session ∧ Has ok session s)
        (fun s h => ⟨(h.2 session rfl).2, h.1, (h.2 session rfl).1⟩)
        (solo_given fun hat => solo_bind solo_touchSession fun touched =>
          solo_bind solo_emit fun _ => solo_pure fun s h => ⟨h.1.1, fun x hx => ?_⟩)
      cases hx
      exact ⟨h.1.2, hat.twin h.2⟩

/-- What is known when a session has been made fresh. -/
def Fresh (ok : String → Prop) (x : TenantSession)
    (answer : Except ApiAccessError TenantSession) (s : WebState) : Prop :=
  Inv ok s ∧ ∀ y, answer = .ok y → Twin y x ∧ Stored s y

theorem fresh_error {s : WebState} {e : ApiAccessError} (h : Inv ok s) :
    Fresh ok x (.error e) s := ⟨h, nofun⟩

theorem fresh_still {answer : Except ApiAccessError TenantSession} (s s' : WebState)
    (hs : Still s s') (h : Fresh ok x answer s) : Fresh ok x answer s' :=
  ⟨h.1.still hs, fun y hy => ⟨(h.2 y hy).1, (h.2 y hy).2.still hs⟩⟩

/-- A refresh that succeeds answers a twin of the session, which is stored. -/
theorem fresh_ok {y : TenantSession} {s : WebState} (h : Has ok y s) (htwin : Twin y x) :
    Fresh ok x (.ok y) s := by
  refine ⟨h.1, fun z hz => ?_⟩
  cases hz
  exact ⟨htwin, h.2⟩

/-- The refresh itself saves a twin of the session. -/
theorem solo_refresh : Solo ok (refresh x : WebProg jose _) (Has ok x) (Fresh ok x) := by
  refine solo_bind (solo_aside (unmoved_providerRefresh _ _) has_still) fun refreshed => ?_
  cases refreshed with
  | error e =>
      cases e with
      | invalidGrant =>
          exact solo_bind (Yields.weaken solo_destroySession fun s h => h.1) fun _ =>
            solo_pure fun s h => fresh_error h
      | _ => exact solo_pure fun s h => fresh_error h.1
  | ok tokens =>
      refine solo_bind solo_now fun now => solo_bind (Yields.weaken solo_saveSession fun s h =>
        ⟨h.2.1, h.2.2.twin (Twin.refl _)⟩) fun updated => solo_pure fun s h => ?_
      exact fresh_ok h.1 h.2

/-- Waiting for the refresh of another request answers a twin of the session. -/
theorem solo_waitForRefresh (hat : At client x) (attempts : Nat) :
    Solo ok (waitForRefresh client x attempts : WebProg jose _) (Has ok x) (Fresh ok x) := by
  induction attempts with
  | zero => exact solo_pure fun s h => fresh_error h.1
  | succ attempts ih =>
      refine solo_bind (solo_aside unmoved_sleep has_still) fun _ =>
        solo_bind (solo_reload hat) fun latest => ?_
      cases latest with
      | none => exact fun s es a s' ⟨_, _, hy, _⟩ => by cases hy
      | some latest =>
          -- What was loaded is a twin of what the request has, and it is stored.
          refine solo_before (K := fun s => Twin latest x ∧ Has ok latest s) ?_
            (solo_given fun htwin => solo_bind solo_now fun now => ?_)
          · rintro s ⟨hinv, y, hy, htwin, hstored⟩
            cases hy
            exact ⟨htwin, hinv, hstored⟩
          · split
            · exact solo_pure fun s h => fresh_ok h.2 htwin
            · exact Yields.weaken ih fun s h => ⟨h.2.1, h.2.2.twin htwin⟩

/-- A refresh under the lock answers a twin of the session. -/
theorem solo_refreshLocked (hat : At client x) :
    Solo ok (refreshLocked client x : WebProg jose _) (Has ok x) (Fresh ok x) := by
  refine solo_bind (solo_reload hat) fun loaded => ?_
  cases loaded with
  | none => exact fun s es a s' ⟨_, _, hy, _⟩ => by cases hy
  | some latest =>
      refine solo_before (K := fun s => Twin latest x ∧ Has ok latest s) ?_
        (solo_given fun htwin => solo_bind solo_now fun now => ?_)
      · rintro s ⟨hinv, y, hy, htwin, hstored⟩
        cases hy
        exact ⟨htwin, hinv, hstored⟩
      · split
        · exact solo_pure fun s h => fresh_ok h.2 htwin
        · exact Yields.imp (Yields.weaken solo_refresh fun s h => h.2) fun answer s h =>
            ⟨h.1, fun y hy => ⟨(h.2 y hy).1.trans htwin, (h.2 y hy).2⟩⟩

/-- `ensureFreshAccessToken` answers a twin of the session. -/
theorem solo_ensureFreshAccessToken (hat : At client x) :
    Solo ok (ensureFreshAccessToken client x : WebProg jose _) (Has ok x) (Fresh ok x) := by
  refine solo_bind solo_now fun now => ?_
  split
  · exact solo_pure fun s h => fresh_ok h.2 (Twin.refl x)
  · refine solo_bind (Yields.weaken (solo_aside (unmoved_askLock _) has_still) fun s h => h.2)
      fun locked => ?_
    split
    · exact solo_waitForRefresh hat _
    · exact solo_bind (solo_refreshLocked hat) fun result =>
        solo_bind (solo_aside (unmoved_freeLock _) fresh_still) fun _ => solo_pure fun s h => h

/-- A relayed request keeps the invariant, whether it refreshes or retries. -/
theorem solo_apiFetch (hat : At client x) (url : Whatwg.Url) :
    Solo ok (apiFetch client x url : WebProg jose _) (Has ok x) fun _ => Inv ok := by
  refine solo_bind (solo_ensureFreshAccessToken hat) fun fresh => ?_
  cases fresh with
  | error e => exact solo_pure fun s h => h.1
  | ok fresh =>
      refine solo_before (K := fun s => Twin fresh x ∧ Has ok fresh s)
        (fun s h => ⟨(h.2 fresh rfl).1, h.1, (h.2 fresh rfl).2⟩)
        (solo_given fun htwin => solo_bind (solo_aside (unmoved_fetch _ _) has_still)
          fun response => ?_)
      split
      · exact solo_pure fun s h => h.1
      · -- The second attempt begins with a version that says its token has ended.
        have hended : At client { fresh with accessTokenExpiresAt := 0 } := hat.twin htwin
        refine solo_bind (Yields.weaken (solo_ensureFreshAccessToken hended) fun s h =>
          ⟨h.1, h.2.twin (Twin.refl _)⟩) fun forced => ?_
        cases forced with
        | error e => exact solo_pure fun s h => h.1
        | ok updated =>
            exact solo_bind (solo_aside (unmoved_fetch _ _) fresh_still) fun _ =>
              solo_pure fun s h => h.1

/-- Ending the session of the cookie keeps the invariant. -/
theorem solo_destroyExisting (hslug : isSlug client.tenantSlug.toList = true)
    (cookie : Option String) :
    Solo ok (destroyExisting client cookie : WebProg jose _) (Inv ok) fun _ => Inv ok := by
  refine solo_bind (solo_loadSession hslug cookie) fun existing => ?_
  cases existing with
  | none => exact solo_pure fun s h => h.1
  | some existing => exact Yields.weaken solo_destroySession fun s h => h.1

/-- A random value is of no session. -/
theorem solo_newId :
    Solo ok (randomToken : WebProg jose _) (Inv ok) fun id s =>
      Inv ok s ∧ Unused s id ∧ id ∈ s.issued := by
  refine Yields.ask fun s s₁ i id s₂ h heq hrun => ?_
  subst heq
  split at hrun
  · split at hrun
    · next hfresh =>
        cases hrun
        exact ⟨h.still ⟨rfl, rfl, rfl, List.subset_cons_self _ _⟩, h.unused hfresh.2,
          List.mem_cons_self⟩
    · cases hrun
  · cases hrun

/-- A session is created, with a `sid` that is `ok`. -/
theorem solo_createSession {claims : JWTPayload} {input : NewSessionInput jose}
    (hslug : isSlug input.client.tenantSlug.toList = true) :
    Solo ok (createSession claims input) (Inv ok) fun _ => Inv ok := by
  refine solo_bind solo_now fun now => ?_
  -- The clock stands still while the id is drawn.
  have hnew : Solo ok (randomToken : WebProg jose _) (fun s => now = s.now ∧ Inv ok s)
      fun id s => now = s.now ∧ Inv ok s ∧ Unused s id ∧ id ∈ s.issued := by
    intro s es a s' h hamid hE
    have hstill := (amid_within moves_still still_of_eq hamid (within_mono unmoved_randomToken
      (fun _ _ hs => ⟨hs.1, hs.2.1, hs.2.2.1, hs.2.2.2.2⟩) fun _ => id)).1
    rcases solo_newId s es a s' h.2 hamid hE with ⟨s₁, hs₁, rfl⟩
    exact ⟨s₁, ⟨h.1.trans hstill.1.symm, hs₁⟩, rfl⟩
  refine solo_bind hnew fun id => solo_bind (solo_aside unmoved_randomToken ?_) fun csrfToken => ?_
  · rintro s s' hs ⟨hnow, hinv, hunused, hid⟩
    refine ⟨hnow.trans hs.1.symm, hinv.still hs, fun slug hslug => ?_, hs.2.2.2 hid⟩
    rw [hs.2.1, hs.2.2.1]
    exact hunused slug hslug
  · refine solo_bind (Q := fun _ => Inv ok) (Yields.pair (fun s h hE => ?_) fun s h hE => ?_)
      fun _ => solo_pure fun s h => h
    -- The set and the session come out the same in either order of the writes.
    all_goals
      rcases h with ⟨rfl, hinv, hunused, hid⟩
      exact hinv.create hunused hid (colon_notMem_of_isSlug hslug) (hE _ rfl _ _ rfl) rfl

/-- A callback keeps the invariant, whether it opens a session or answers an error. -/
theorem solo_answerCallback (hslug : isSlug client.tenantSlug.toList = true)
    (cookie : Option String) (preAuth : PreAuthState) (query : CallbackQuery) :
    Solo ok (answerCallback deps client cookie preAuth query : WebProg jose _) (Inv ok)
      fun _ => Inv ok := by
  have hdone : ∀ answer : Answer, Solo ok (pure answer : WebProg jose _) (Inv ok)
      fun _ => Inv ok := fun answer => solo_pure fun s h => h
  -- The checks before the token request touch no session.
  unfold answerCallback
  split
  · exact hdone _
  split
  · exact hdone _
  split
  · exact hdone _
  split
  · exact hdone _
  split
  · exact hdone _
  refine solo_bind (solo_aside (unmoved_exchangeCode _ _ _) inv_still) fun reply => ?_
  cases reply with
  | error e => exact hdone _
  | ok tokens =>
      dsimp only [verifyLogin]
      split
      · exact hdone _
      · refine solo_bind (solo_aside unmoved_jwksSource inv_still) fun source =>
          solo_bind (solo_aside (unmoved_read _) inv_still) fun now => ?_
        split
        · exact hdone _
        -- The session of the cookie is ended before the new one is created.
        · unfold enterSession
          split
          · split
            · exact hdone _
            · exact solo_bind (solo_destroyExisting hslug cookie) fun _ =>
                solo_bind (solo_createSession hslug) fun _ => hdone _
          · exact hdone _

/-- Deleting one of the keys takes no more than their sid. -/
theorem taking_within_delete {keys : List String} {sid key : String} (hkey : key ∈ keys) :
    Within (Taking sid keys) (fun _ => True) (sessions.delete key : WebProg jose _) :=
  within_write fun s => ⟨rfl, rfl, .inl rfl, fun key' => by
    by_cases hk : key' = key
    · exact .inr ⟨hk ▸ hkey, hk ▸ delete_self _ _⟩
    · exact .inl (delete_of_ne _ hk)⟩

/-- When the keys of a set and the set have been taken away in some order, all
    are gone. -/
theorem taken_of_amid {keys : List String} {sid : String} {s s' : WebState} {es : List Event}
    {a : List Unit × Unit} (hkeys : Ttl.members s.sessionsBySid s.now (sidKey sid) = keys)
    (hamid : Amid (fun s s' => s = s') s
      (Prog.both (Prog.all (keys.map fun key => (sessions.delete key : WebProg jose _)))
        (sessionsBySid.delete (sidKey sid))) es a s') : Taken sid s s' := by
  have hset : Within (Taking sid keys) (fun _ => True)
      (sessionsBySid.delete (sidKey sid) : WebProg jose _) :=
    within_write fun s => ⟨rfl, rfl, .inr rfl, fun key => .inl rfl⟩
  have hall : Within (Taking sid keys) (fun _ => True)
      (Prog.all (keys.map fun key => (sessions.delete key : WebProg jose _))) :=
    within_all fun p hp => by
      rcases List.mem_map.mp hp with ⟨key, hkey, rfl⟩
      exact taking_within_delete hkey
  have hwhole := (amid_within moves_taking taking_of_eq hamid (within_both hall hset)).1
  -- To each of the two the other is what happens besides.
  rcases amid_both_left moves_taking taking_of_eq hamid hset with ⟨_, hleft, _⟩
  rcases amid_both_right moves_taking taking_of_eq hamid hall with ⟨_, hright, _⟩
  refine ⟨hwhole.now, hwhole.issued, ?_, fun key hkey => ?_, fun key hkey => ?_⟩
  · rcases amid_write hright with ⟨s₁, hbefore, hafter, _⟩
    rcases hafter.sets with heq | heq
    · exact heq.trans hbefore.deleted
    · exact heq.trans ((delete_delete _ _).trans hbefore.deleted)
  · rw [hkeys] at hkey
    -- Once a key has been taken away, what happens besides cannot bring it back.
    rcases amid_all moves_taking hleft (fun _ => taking_within_delete) key hkey with
      ⟨_, _, hone, _⟩
    rcases amid_write hone with ⟨s₁, _, hafter, _⟩
    rcases hafter.kept key with heq | hnone
    · exact heq.trans (delete_self _ _)
    · exact hnone.2
  · rcases hwhole.kept key with heq | hnone
    · exact heq
    · exact absurd (hkeys ▸ hnone.1) hkey

/-- The keys of the set are taken away, each on its own, and the set besides. -/
theorem solo_takes (sid : String) (s₀ : WebState) :
    Solo ok (destroySessionsBySid sid : WebProg jose _) (fun s => s = s₀) fun _ s =>
      Taken sid s₀ s := by
  refine solo_bind (Q := fun found s =>
    Ttl.members s₀.sessionsBySid s₀.now (sidKey sid) = found ∧ s = s₀)
    (Yields.read fun s s₁ h heq => by subst heq; subst h; exact ⟨rfl, rfl⟩) fun found =>
      solo_given fun hfound => solo_bind (Q := fun _ s => Taken sid s₀ s) ?_ fun _ =>
        solo_bind solo_emit fun _ => solo_pure fun s h => h
  rintro s es a s' rfl hamid _
  exact ⟨s', taken_of_amid hfound hamid, rfl⟩

/-- Ending every session of a sid keeps the invariant. -/
theorem solo_destroySessionsBySid (sid : String) :
    Solo ok (destroySessionsBySid sid : WebProg jose _) (Inv ok) fun _ => Inv ok := by
  intro s es a s' hs hamid hE
  rcases solo_takes sid s s es a s' rfl hamid hE with ⟨s₁, htaken, heq⟩
  exact ⟨s₁, (hs.destroyAll htaken).mono fun _ => And.left, heq⟩

theorem solo_login (returnTo : Option String) (context : TenantContext) :
    Solo ok (login deps returnTo context : WebProg jose _) (Inv ok) fun _ => Inv ok := by
  refine solo_bind (solo_aside unmoved_getDiscovery inv_still) fun discovery => ?_
  have hrandom : Solo ok (randomToken : WebProg jose _) (Inv ok) fun _ => Inv ok :=
    solo_aside unmoved_randomToken inv_still
  cases discovery with
  | error e => exact solo_pure fun s h => h
  | ok endpoint =>
      refine solo_bind hrandom fun _ => solo_bind hrandom fun _ => solo_bind hrandom fun _ =>
        solo_bind hrandom fun _ => solo_bind (solo_still (within_logged (E := fun _ => True)
          (fun s => ⟨rfl, rfl, rfl, List.Subset.refl _⟩) fun _ => trivial) inv_still) fun _ =>
            solo_pure fun s h => h

theorem solo_callback (hslug : isSlug client.tenantSlug.toList = true)
    (cookie preAuthCookie : Option String) (query : CallbackQuery)
    (session : Option TenantSession) :
    Solo ok (callback deps cookie preAuthCookie query ⟨client, session⟩ : WebProg jose _) (Inv ok)
      fun _ => Inv ok := by
  have htake : Solo ok (takePreAuth client preAuthCookie : WebProg jose _) (Inv ok)
      fun _ => Inv ok := by
    cases preAuthCookie with
    | none => exact solo_pure fun s h => h
    | some id =>
        exact solo_still (within_logged (E := fun _ => True)
          (fun s => ⟨rfl, rfl, rfl, List.Subset.refl _⟩) fun _ => trivial) inv_still
  refine solo_bind htake fun found => ?_
  cases found with
  | none => exact solo_pure fun s h => h
  | some preAuth => exact solo_answerCallback hslug cookie preAuth query

theorem solo_logout (csrf : Option String) (context : TenantContext) :
    Solo ok (logout csrf context : WebProg jose _) (Inv ok) fun _ => Inv ok := by
  unfold logout
  split
  · exact solo_pure fun s h => h
  · split
    · exact solo_pure fun s h => h
    · exact solo_bind (solo_aside unmoved_revoke inv_still) fun _ =>
        solo_bind solo_destroySession fun _ => solo_pure fun s h => h

/-- The relay keeps the invariant, from a session that is stored. -/
theorem solo_proxy (request : ApiRequest) (session : Option TenantSession) :
    Solo ok (proxy deps request ⟨client, session⟩ : WebProg jose _)
      (fun s => Inv ok s ∧ ∀ x, session = some x → Stored s x ∧ At client x) fun _ => Inv ok := by
  unfold proxy
  cases session with
  | none => exact solo_pure fun s h => h.1
  | some session =>
      refine solo_before (K := fun s => At client session ∧ Has ok session s)
        (fun s h => ⟨(h.2 session rfl).2, h.1, (h.2 session rfl).1⟩) (solo_given fun hat => ?_)
      -- The CSRF token, the URL and the content type are checked before anything is sent.
      dsimp only
      split
      · exact solo_pure fun s h => h.1
      split
      · exact solo_pure fun s h => h.1
      split
      · exact solo_pure fun s h => h.1
      refine solo_bind (solo_apiFetch hat _) fun result => ?_
      split
      all_goals exact solo_pure fun s h => h

/-- A request of a tenant's host. -/
theorem solo_tenantContext {host cookie : Option String}
    {next : TenantContext → WebProg jose Answer}
    (hnext : ∀ client session, isSlug client.tenantSlug.toList = true →
      Solo ok (next ⟨client, session⟩)
        (fun s => Inv ok s ∧ ∀ x, session = some x → Stored s x ∧ At client x) fun _ => Inv ok) :
    Solo ok (tenantContext deps host cookie next) (Inv ok) fun _ => Inv ok := by
  unfold tenantContext
  cases hclient : resolveClient deps host with
  | none => exact solo_pure fun s h => h
  | some client =>
      have hslug := resolveClient_slug hclient
      exact solo_bind (solo_contextSession hslug cookie) fun session =>
        solo_bind (hnext client session hslug) fun _ => solo_pure fun s h => h

/-- Every request keeps sessions and sets in agreement. -/
theorem solo_respond (call : WebCall jose) :
    Solo ok (respond deps call) (Inv ok) fun _ => Inv ok := by
  cases call with
  | login host cookie returnTo =>
      exact solo_tenantContext fun client session _ =>
        solo_before (fun s h => h.1) (solo_login returnTo _)
  | callback host cookie preAuthCookie query =>
      exact solo_tenantContext fun client session hslug =>
        solo_before (fun s h => h.1) (solo_callback hslug cookie preAuthCookie query session)
  | logout host cookie csrf =>
      exact solo_tenantContext fun client session _ =>
        solo_before (fun s h => h.1) (solo_logout csrf _)
  | session host cookie =>
      exact solo_tenantContext fun client session _ => solo_pure fun s h => h.1
  | api host cookie request =>
      exact solo_tenantContext fun client session _ => solo_proxy request session
  | backchannel logoutToken =>
      change Solo ok (backchannel deps logoutToken) _ _
      unfold backchannel
      split
      · exact solo_pure fun s h => h
      · refine solo_bind (solo_aside unmoved_jwksSource inv_still) fun source =>
          solo_bind (solo_aside (unmoved_read _) inv_still) fun now => ?_
        split
        · exact solo_pure fun s h => h
        · split
          · exact solo_pure fun s h => h
          · exact solo_bind (solo_destroySessionsBySid _) fun _ => solo_pure fun s h => h

end Programs

section Runs

variable {ok : String → Prop} {deps : WebDeps jose} {s s' : WebState}
  {ls : List (Happening Event (WebCall jose) Nat fun _ => Answer)}

/-- After every run of requests that do not overlap and create sessions with a
    `sid` that is `ok`, sessions and sets agree. -/
theorem inv_of_runs (h : Runs (webSystem deps) s ls s')
    (hls : ∀ l ∈ ls, ∀ e ∈ l.events, Allowed ok e) (hinv : Inv ok s) : Inv ok s' := by
  refine h.induct ?_ ?_ hls hinv
  · exact fun call answer es s s' hes hinv hexec =>
      (solo_respond call).exec moves_same hinv hexec hes fun _ _ hs heq => heq ▸ hs
  · rintro seconds s s' - hinv henv
    cases henv
    exact hinv.later seconds

/-- A session that is loaded is found under its key at the end. -/
theorem exec_loadSession {client : OidcClientConfig} {cookie : Option String} {es : List Event}
    {x : TenantSession} (h : Exec s (loadSession client cookie : WebProg jose _) es (some x) s') :
    ∃ key, Ttl.get s.sessions s.now key = some x := by
  unfold loadSession at h
  split at h
  · cases (exec_done h).2.1
  · next id =>
      split at h
      · cases (exec_done h).2.1
      · rcases exec_bind h with ⟨found, s₁, _, _, hget, h₁, _⟩
        rcases exec_read hget with ⟨_, rfl, rfl⟩
        refine ⟨sessionKey client.tenantSlug id, ?_⟩
        cases hfound : Ttl.get s₁.sessions s₁.now (sessionKey client.tenantSlug id) with
        | none =>
            have hread : Ttl.get (sessions.entries s₁) (sessions.now s₁)
                (sessionKey client.tenantSlug id) = none := hfound
            simp only [hread] at h₁
            cases (exec_done h₁).2.1
        | some session =>
            have hread : Ttl.get (sessions.entries s₁) (sessions.now s₁)
                (sessionKey client.tenantSlug id) = some session := hfound
            simp only [hread] at h₁
            rcases exec_bind h₁ with ⟨now, s₂, _, _, _, h₂, _⟩
            split at h₂
            · rcases exec_bind h₂ with ⟨_, _, _, _, _, hdone, _⟩
              cases (exec_done hdone).2.1
            · exact (exec_done h₂).2.1.symm ▸ rfl

variable {signingKey : jose.Key} {token : Auth.LogoutToken} {es : List Event}

/-- The claims of a verified logout token name its `sid`. -/
theorem sid_of_verified {provider : OidcProvider jose} {now : Int}
    {claims : OidcProvider.LogoutClaims}
    (h : provider.verifyLogoutToken now (signJwt jose signingKey token.signOptions) = .ok claims) :
    claims.sid = token.sid := by
  have hsid : token.signOptions.payload.string? "sid" = some token.sid := by
    rw [JWTPayload.string?, payload_claim _ (by decide)]
    simp [Auth.LogoutToken.signOptions, spread]
  unfold OidcProvider.verifyLogoutToken at h
  split at h
  · cases h
  · next payload hverified =>
      rcases OidcProvider.verify_sign hverified with ⟨_, rfl⟩
      -- The verifier reads the claim that the issuer wrote.
      simp only [hsid] at h
      split at h
      · cases h
      · split at h
        · cases h
        · split at h
          · cases h
          · cases h
            rfl

/-- A logout that is accepted takes the sessions of the token's `sid`. -/
theorem taken_of_backchannel
    (h : Exec s (respond deps (.backchannel (some (signJwt jose signingKey token.signOptions)))) es
      (Reply.only .empty) s') : Taken token.sid s s' := by
  change Exec s (backchannel deps (some (signJwt jose signingKey token.signOptions))) es
    (Reply.only .empty) s' at h
  rcases exec_bind h with ⟨source, s₁, _, _, hsource, h₁, _⟩
  -- Until the token is verified nothing is written.
  obtain rfl : s₁ = s := by
    rcases exec_act hsource with ⟨i, _, _, _, hrun, hdone, _⟩
    rcases exec_done hdone with ⟨_, rfl, rfl⟩
    cases i with
    | jwks => cases hrun; rfl
    | _ => cases hrun
  rcases exec_bind h₁ with ⟨now, s₂, _, _, hnow, h₂, _⟩
  rcases exec_read hnow with ⟨_, _, rfl⟩
  split at h₂
  · cases (exec_done h₂).2.1
  · next claims hverified =>
      split at h₂
      · cases (exec_done h₂).2.1
      · rcases exec_bind h₂ with ⟨_, s₃, _, _, htakes, hdone, _⟩
        rcases exec_done hdone with ⟨_, _, rfl⟩
        rw [sid_of_verified hverified] at htakes
        have hsolo : Solo (fun _ => True) (destroySessionsBySid token.sid : WebProg jose _)
            (fun s => s = s₂) fun _ s => Taken token.sid s₂ s := solo_takes token.sid s₂
        exact hsolo.exec moves_same rfl htakes (fun _ _ _ _ _ => trivial)
          fun _ _ htaken heq => heq ▸ htaken

/-- When requests do not overlap, a logout token that is accepted ends the
    sessions with its `sid` and no others, and none with the `sid` is loaded
    again unless one is created. -/
theorem backchannel_ends_exactly (deps : WebDeps jose) (now : Int)
    (h : Runs (webSystem deps) (.start now) ls s)
    (hexec : Exec s (respond deps (.backchannel (some (signJwt jose signingKey token.signOptions))))
      es (Reply.only .empty) s') :
    (∀ key x, Ttl.get s'.sessions s'.now key = some x ↔
      Ttl.get s.sessions s.now key = some x ∧ x.sid ≠ token.sid) ∧
    ∀ ls' s'', Runs (webSystem deps) s' ls' s'' →
      (∀ l ∈ ls', ∀ e ∈ l.events, ∀ session claims, e = .sessionCreated session claims →
        session.sid ≠ token.sid) →
      ∀ client cookie es x s₃,
        Exec s'' (loadSession client cookie : WebProg jose _) es (some x) s₃ →
          x.sid ≠ token.sid := by
  have hinv : Inv (fun _ => True) s :=
    inv_of_runs h (fun _ _ _ _ _ _ _ => trivial) (inv_start now)
  have htaken := taken_of_backchannel hexec
  refine ⟨fun key x => hinv.get_taken htaken,
    fun ls' s'' hruns hls client cookie es x s₃ hload => ?_⟩
  -- The `sid` of all sessions that are created later is another one, too.
  have hlater : Inv (fun sid => sid ≠ token.sid) s'' :=
    inv_of_runs hruns hls ((hinv.destroyAll htaken).mono fun _ => And.right)
  rcases exec_loadSession hload with ⟨key, hget⟩
  exact hlater.ok_of_get hget

end Runs

section Example

/-- A login at a tenant's host and its callback, with these random values. -/
def loginTurns (slug sid : String) (a b c d e f : Char) :
    List (Turn (Outside openJose) (WebCall openJose) Nat) :=
  [.call (.login (some (slug ++ ".crm.test")) none none)
      (.discovered (.ok "https://auth.test/authorize") ::
        [a, b, c, d].map fun r => .random (token32 r)),
    .call (.callback (some (slug ++ ".crm.test")) none (some (token32 a))
        ⟨some (token32 c), none, none, none, some "code"⟩)
      [.tokens (.ok ⟨"A", 900, some (signJwt openJose "key"
          { issuer := "https://auth.test"
            audience := .string "crm"
            subject := "alice"
            issuedAt := 1000
            expiresAt := 1300
            claims := [("sid", some (.string sid)), ("nonce", some (.string (token32 d))),
              ("tenant_id", some (.string slug)), ("tenant_slug", some (.string slug))] }), "R"⟩),
        .jwks fun _ => .ok ["key"], .random (token32 e), .random (token32 f)]]

def sidLogoutToken : Auth.LogoutToken where
  iss := "https://auth.test"
  aud := "crm"
  sub := "alice"
  iat := 1000
  exp := 1120
  jti := "jti"
  sid := "sid"

def sidLogout : WebCall openJose :=
  .backchannel (some (signJwt openJose "key" sidLogoutToken.signOptions))

/-- Of two sessions the one with the `sid` is ended. -/
theorem other_session_stays : ∃ ls s es s' x y,
    Runs (webSystem crmWeb) (.start 1000) ls s ∧
    Exec s (respond crmWeb sidLogout) es (Reply.only .empty) s' ∧
    Ttl.get s.sessions s.now (sessionKey "acme" (token32 'e')) = some x ∧
    Ttl.get s'.sessions s'.now (sessionKey "acme" (token32 'e')) = none ∧
    Ttl.get s'.sessions s'.now (sessionKey "beta" (token32 'k')) = some y := by
  rcases exists_runs (webSystem crmWeb) .none 60 (.start 1000)
    (loginTurns "acme" "sid" 'a' 'b' 'c' 'd' 'e' 'f' ++
      loginTurns "beta" "other" 'g' 'h' 'i' 'j' 'k' 'l')
    (fun r => ((respond crmWeb sidLogout).runAlone .none 20 [.jwks fun _ => .ok ["key"]] r.2).any
      fun x => decide (x.2.1 = Reply.only .empty) &&
        (Ttl.get r.2.sessions r.2.now (sessionKey "acme" (token32 'e'))).any (·.sid == "sid") &&
        (Ttl.get r.2.sessions r.2.now (sessionKey "beta" (token32 'k'))).any (·.sid == "other"))
    (by decide +kernel) with ⟨ls, s, hruns, htest⟩
  simp only [Bool.and_eq_true, Option.any_eq_true] at htest
  rcases htest with ⟨⟨es, a, s'⟩, hrun, ⟨hanswer, x, hx, hsid⟩, y, hy, hother⟩
  obtain rfl := of_decide_eq_true hanswer
  have hexec := exec_of_runAlone _ _ _ _ _ _ _ _ hrun
  have hkept := (backchannel_ends_exactly crmWeb 1000 hruns hexec).1
  refine ⟨ls, s, es, s', x, y, hruns, hexec, hx, ?_, (hkept _ y).mpr ⟨hy, ?_⟩⟩
  · -- What is found there afterwards was there before, and is of another login.
    refine Option.eq_none_iff_forall_ne_some.mpr fun z hz => ?_
    rcases (hkept _ z).mp hz with ⟨hbefore, hne⟩
    cases hx.symm.trans hbefore
    exact hne (beq_iff_eq.mp hsid)
  · rw [beq_iff_eq.mp hother]
    decide

end Example

end Sandbox.Web.SessionIndex
