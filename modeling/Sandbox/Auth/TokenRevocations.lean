import Mathlib.Algebra.Order.PUnit
import Sandbox.Auth.SessionSteps

/-!
# What Revoking Families Does to Tokens

A revocation reads the set of a family, looks at every key in it and writes
back as revoked what it finds. Several revocations run at once when a session
or a client's access is revoked, and other things happen meanwhile. Seen from
the tokens, the outcome is simple all the same: the records at some keys of the
families are as they were, but revoked, and every other record is the same.

## Main definitions

* `Retired`: The outcome.
* `retiring`: The protocol that leads to it.

## Theorems

* `keeps_retireFamily`: A revocation follows the protocol.
* `amid_retired`: So does what is built from revocations, amid other changes.
-/

namespace Sandbox.Auth

open Interleave Ttl

/-- Tokens of the families in `F` may have been revoked since `s₀`. The sets of
    the families and the lists of the sessions are the same. -/
structure Retired (F : String → Prop) (s₀ s : State) : Prop where
  now : s.now = s₀.now
  sets : s.refreshTokenFamilies = s₀.refreshTokenFamilies
  lists : s.sidRefreshFamilies = s₀.sidRefreshFamilies
  tokens : ∀ key, s.refreshTokens key = s₀.refreshTokens key ∨
    (∃ f, F f ∧ key ∈ members s₀.refreshTokenFamilies s₀.now f) ∧
      ∃ e e', s₀.refreshTokens key = some e ∧ s.refreshTokens key = some e' ∧
        e'.value = { e.value with status := .revoked }

/-- The protocol of programs that only revoke families in `F`. -/
def retiring (F : String → Prop) (s₀ : State) : Protocol Unit State Event AuthCall where
  guard := anyStep
  Inv _ s _ := Retired F s₀ s

variable {F : String → Prop} {s₀ s s' : State} {c : AuthCall} {fs : List Field} {key f : String}

theorem retired_refl : Retired F s s :=
  ⟨rfl, rfl, rfl, fun _ => .inl rfl⟩

/-- The parts that revocations are about. -/
def retiredParts : List Field := [.refreshTokens, .refreshTokenFamilies, .sidRefreshFamilies]

theorem Retired.changes (h : Retired F s₀ s) (hch : Changes fs s s')
    (hfs : ∀ x ∈ retiredParts, x ∉ fs) : Retired F s₀ s' := by
  have htokens : s'.refreshTokens = s.refreshTokens :=
    hch.same .refreshTokens (hfs _ (by decide))
  refine ⟨hch.now.trans h.now, ?_, ?_, fun key => ?_⟩
  · exact (show s'.refreshTokenFamilies = s.refreshTokenFamilies from
      hch.same .refreshTokenFamilies (hfs _ (by decide))).trans h.sets
  · exact (show s'.sidRefreshFamilies = s.sidRefreshFamilies from
      hch.same .sidRefreshFamilies (hfs _ (by decide))).trans h.lists
  · rw [htokens]
    exact h.tokens key

/-- A program about other things follows the protocol. -/
theorem keeps_unretired {α : Type} {p : AuthProg α} (hp : Touches fs p)
    (hfs : ∀ x ∈ retiredParts, x ∉ fs) : Keeps (retiring F s₀) c α p :=
  (safe_within hp (fun _ _ _ _ hch h => Retired.changes h hch hfs) (fun _ _ _ _ _ h => h) 0).keeps

/-- What is found under a key is what was there first, or that but revoked. -/
theorem Retired.found {t : RefreshToken} (h : Retired F s₀ s)
    (hget : Ttl.get s.refreshTokens s.now key = some t) :
    ∃ e, s₀.refreshTokens key = some e ∧
      { t with status := .revoked } = { e.value with status := .revoked } := by
  rcases get_eq_some.mp hget with ⟨e', he', _, rfl⟩
  rcases h.tokens key with hsame | ⟨_, e, d, he, hd, hvalue⟩
  · exact ⟨e', hsame ▸ he', rfl⟩
  · cases hd.symm.trans he'
    exact ⟨e, he, by rw [hvalue]⟩

/-- Writing back as revoked what was found at a key of a family. -/
theorem keeps_retireStored {stored : Option RefreshToken} (hF : F f)
    (hkey : key ∈ members s₀.refreshTokenFamilies s₀.now f)
    (hstored : ∀ t, stored = some t → ∃ e, s₀.refreshTokens key = some e ∧
      { t with status := .revoked } = { e.value with status := .revoked }) :
    Keeps (retiring F s₀) c _ (revokeStored key stored) := by
  cases stored with
  | none => exact (closed_keeps _ _).pure _
  | some t =>
      rcases hstored t rfl with ⟨e, he, hvalue⟩
      refine safe_write fun _ s _ h => ⟨(), ⟨h.now, h.sets, h.lists, fun j => ?_⟩, trivial⟩
      change Ttl.set s.refreshTokens s.now key _ refreshTokenTtl j = _ ∨ _
      by_cases hj : j = key
      · subst hj
        exact .inr ⟨⟨f, hF, hkey⟩, e, _, he, put_self _ _ _, hvalue⟩
      · rw [Ttl.set, put_of_ne _ _ hj]
        refine (h.tokens j).imp_right fun hrevoked => ⟨hrevoked.1, ?_⟩
        rcases hrevoked.2 with ⟨e₁, e₂, he₁, he₂, hval⟩
        exact ⟨e₁, e₂, he₁, (put_of_ne _ _ hj).trans he₂, hval⟩

/-- Revoking a family. -/
theorem keeps_retireFamily (hF : F f) :
    Keeps (retiring F s₀) c _ (revokeRefreshTokenFamily f) := by
  refine safe_seq (Q := fun keys _ => ∀ key ∈ keys, key ∈ members s₀.refreshTokenFamilies s₀.now f)
    ?_ fun keys _ hkeys => ?_
  · refine safe_logged fun _ s _ h _ => ⟨(), h, ?_⟩
    change ∀ key ∈ members s.refreshTokenFamilies s.now f, _
    rw [h.sets, h.now]
    exact fun _ => id
  · refine safe_seq (safe_all keys (fun key => refreshTokens.get key) (fun _ => ())
      (fun key stored _ => ∀ t, stored = some t → ∃ e, s₀.refreshTokens key = some e ∧
        { t with status := .revoked } = { e.value with status := .revoked })
      fun key _ => ?_) fun records _ hrecords => ?_
    · exact safe_read fun _ s _ h => ⟨(), h, fun t ht => Retired.found h ht⟩
    · refine Keeps.safe ((closed_keeps _ _).bind ((closed_keeps _ _).all fun x hx => ?_)
        fun _ => ?_) ()
      · exact keeps_retireStored hF (hkeys x.1 (List.of_mem_zip hx).1) (hrecords.zip x hx)
      · exact safe_emit fun _ _ _ h _ => ⟨(), h, trivial⟩

/-- What is built from revocations retires tokens, amid changes of other parts. -/
theorem amid_retired {α : Type} {p : AuthProg α} {es : List Event} {a : α}
    (h : Amid (Changes fs) s p es a s') (hfs : ∀ x ∈ retiredParts, x ∉ fs)
    (hp : Keeps (retiring F s) (.loadSession none) α p) : Retired F s s' := by
  rcases amid_safe h (fun _ _ _ => trivial) (fun _ _ _ _ hch hret => Retired.changes hret hch hfs)
    () () [] _ hp retired_refl with ⟨_, _, hret, _⟩
  exact hret

end Sandbox.Auth
