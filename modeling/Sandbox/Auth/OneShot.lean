import Sandbox.Auth.Blocks
import Sandbox.Auth.Installation
import Sandbox.Interleave.Tokens

/-!
# Grants Are Used Once

A saved request yields one code, a code one exchange and one family, a refresh
token one refresh, and a family has one active token: in every interleaving of
all requests, without any condition. It rests on three things. Taking a value
out of a store reads and removes it in one action, the values that name things
are fresh, and different values have different digests.

A `Slot` is the right to one of these things. Whoever draws a fresh value
holds all rights about it; storing a thing under its digest gives the right
away, taking the thing out gets it back. A thread that has exchanged a code
still holds its right in the end, so there cannot be two of them. The slot of
a family is held by the thread that has consumed its active token.

## Main definitions

* `Slot`, `Placed`, `Inv`: The invariant.
* `slotsOf`: The rights about a value.
* `Post`: What a finished request holds.

## Theorems

* `safe_randomToken`: A fresh value comes with its rights.
* `safe_consumeRefreshToken`, `safe_rotateRefreshToken`, `safe_exchange`,
  `safe_refresh`: The programs move the rights.
* `poolOk`: Every pool of every run satisfies the invariant.
-/

namespace Sandbox.Auth.OneShot

open Interleave Ttl

/-- The history of a run of the server. -/
abbrev History : Type := List (AuthCall × Event)

/-- The right to one thing: a saved request or its code, a code or its
    family, a refresh token, the active token of a family. -/
inductive Slot
  | request (key : String)
  | code (key : String)
  | exchange (key : String)
  | token (key : String)
  | family (familyId : String)
  deriving DecidableEq

/-- An event by which a saved request has yielded a code. -/
def yieldsCode (deps : Deps) (key : String) : AuthCall × Event → Bool
  | (_, .codeStored (some rid) _) => deps.keyOf rid = key
  | _ => false

/-- An event by which the exchange of a code has started a family. -/
def yieldsFamily (deps : Deps) (key : String) : AuthCall × Event → Bool
  | (.exchange _ _ input, .tokenStored _ _) => deps.keyOf input.code = key
  | _ => false

/-- An active token of a family is stored under a key. -/
def Active (s : State) (f key : String) : Prop :=
  ∃ e, s.refreshTokens key = some e ∧ e.value.familyId = f ∧ e.value.status = .active

/-- A code that can be exchanged is stored under a key. -/
def Unused (s : State) (key : String) : Prop :=
  ∃ e grant, s.authorizationCodes key = some e ∧ e.value = .unused grant

/-- A request is saved under a key. -/
def Saved (s : State) (key : String) : Prop :=
  ∃ e, s.authorizationRequests key = some e

/-- The thing is there, or what it yields. -/
def Placed (deps : Deps) (s : State) (h : History) : Slot → Prop
  | .request key => Saved s key ∨ 0 < h.countP (yieldsCode deps key)
  | .code key => Unused s key
  | .exchange key => Unused s key ∨ 0 < h.countP (yieldsFamily deps key)
  | .token key => ∃ f, Active s f key
  | .family f => ∃ key, Active s f key

/-- The value that a slot is about was handed out. -/
def Known (deps : Deps) (s : State) : Slot → Prop
  | .request key | .code key | .exchange key | .token key => ∃ v ∈ s.issued, deps.keyOf v = key
  | .family f => f ∈ s.issued

structure Inv (deps : Deps) (R : Multiset Slot) (s : State) (h : History) : Prop where
  exclusive : Exclusive (Placed deps s h) R
  known : ∀ x, x ∈ R ∨ Placed deps s h x → Known deps s x
  one : ∀ f key key', Active s f key → Active s f key' → key = key'
  saved : ∀ key, Saved s key → h.countP (yieldsCode deps key) = 0
  unused : ∀ key, Unused s key → h.countP (yieldsFamily deps key) = 0
  codes : ∀ key, h.countP (yieldsCode deps key) ≤ 1
  families : ∀ key, h.countP (yieldsFamily deps key) ≤ 1

def protocol (deps : Deps) : Protocol (Multiset Slot) State Event AuthCall where
  guard := anyStep
  Inv := Inv deps

section Changes

variable {deps : Deps} {R : Multiset Slot} {s s' : State} {h : History}

/-- A slot that is known stays so as more values are issued. -/
theorem Known.mono {x : Slot} (hk : Known deps s x) (hissued : s.issued ⊆ s'.issued) :
    Known deps s' x := by
  cases x with
  | family f => exact hissued hk
  | _ => exact hk.imp fun v hv => ⟨hissued hv.1, hv.2⟩

/-- A slot is placed wherever it was in a state with fewer records. -/
theorem placed_mono (htokens : ∀ f key, Active s' f key → Active s f key)
    (hcodes : ∀ key, Unused s' key → Unused s key)
    (hrequests : ∀ key, Saved s' key → Saved s key) {x : Slot} (hx : Placed deps s' h x) :
    Placed deps s h x := by
  cases x with
  | request key => exact hx.imp_left (hrequests key)
  | code key => exact hcodes key hx
  | exchange key => exact hx.imp_left (hcodes key)
  | token key => exact hx.imp fun f => htokens f key
  | family f => exact hx.imp fun key => htokens f key

/-- The invariant survives as long as nothing is placed. -/
theorem Inv.shrink (hinv : Inv deps R s h)
    (htokens : ∀ f key, Active s' f key → Active s f key)
    (hcodes : ∀ key, Unused s' key → Unused s key)
    (hrequests : ∀ key, Saved s' key → Saved s key) (hissued : s.issued ⊆ s'.issued) :
    Inv deps R s' h := by
  have hplaced : ∀ x, Placed deps s' h x → Placed deps s h x :=
    fun x => placed_mono htokens hcodes hrequests
  refine ⟨hinv.exclusive.drop le_rfl hplaced, ?_, ?_, ?_, ?_, hinv.codes, hinv.families⟩
  · exact fun x hx => (hinv.known x (hx.imp_right (hplaced x))).mono hissued
  · exact fun f key key' hk hk' => hinv.one f key key' (htokens _ _ hk) (htokens _ _ hk')
  · exact fun key hk => hinv.saved key (hrequests key hk)
  · exact fun key hk => hinv.unused key (hcodes key hk)

theorem countP_log {p : AuthCall × Event → Bool} {c : AuthCall} {e : Event}
    (hno : p (c, e) = false) : List.countP p ((c, e) :: h) = h.countP p :=
  List.countP_cons_of_neg (Bool.eq_false_iff.mp hno)

/-- The invariant does not notice events about other things. -/
theorem Inv.log (hinv : Inv deps R s h) (c : AuthCall) {e : Event}
    (hcode : ∀ rid key, e ≠ .codeStored rid key) (htoken : ∀ f key, e ≠ .tokenStored f key) :
    Inv deps R s ((c, e) :: h) := by
  -- The event neither stores a code nor a token, so it counts for none.
  have hcodes : ∀ key, yieldsCode deps key (c, e) = false := by
    intro key
    cases e with
    | codeStored rid k => exact absurd rfl (hcode rid k)
    | _ => rfl
  have hfamilies : ∀ key, yieldsFamily deps key (c, e) = false := by
    intro key
    cases e with
    | tokenStored f k => exact absurd rfl (htoken f k)
    | _ => cases c <;> rfl
  have hplaced : ∀ x, Placed deps s ((c, e) :: h) x → Placed deps s h x := by
    intro x hx
    cases x with
    | request key => exact hx.imp_right fun hpos => countP_log (hcodes key) ▸ hpos
    | exchange key => exact hx.imp_right fun hpos => countP_log (hfamilies key) ▸ hpos
    | _ => exact hx
  refine ⟨hinv.exclusive.drop le_rfl hplaced, ?_, hinv.one, ?_, ?_, ?_, ?_⟩
  · exact fun x hx => hinv.known x (hx.imp_right (hplaced x))
  · exact fun key hk => (countP_log (hcodes key)).trans (hinv.saved key hk)
  · exact fun key hk => (countP_log (hfamilies key)).trans (hinv.unused key hk)
  · exact fun key => (countP_log (hcodes key)).le.trans (hinv.codes key)
  · exact fun key => (countP_log (hfamilies key)).le.trans (hinv.families key)

/-- The parts that say nothing about grants. -/
def otherParts : List Field :=
  [.ssoSessions, .sidIndex, .refreshTokenFamilies, .sidRefreshFamilies, .mfaPending, .users,
    .memberships, .mfaMethods, .sessions, .sessionClients, .audit, .outbox]

theorem stable : Stable otherParts (protocol deps) where
  changes R s s' h hch hinv := by
    have htokens : s'.refreshTokens = s.refreshTokens := hch.same .refreshTokens (by decide)
    have hcodes : s'.authorizationCodes = s.authorizationCodes :=
      hch.same .authorizationCodes (by decide)
    have hrequests : s'.authorizationRequests = s.authorizationRequests :=
      hch.same .authorizationRequests (by decide)
    refine hinv.shrink ?_ ?_ ?_ hch.issued
    · exact fun f key hk => hk.imp fun e he => htokens ▸ he
    · exact fun key hk => hk.imp fun e he => he.imp fun grant hg => hcodes ▸ hg
    · exact fun key hk => hk.imp fun e he => hrequests ▸ he
  event R s h c e he hinv := by
    refine hinv.log c ?_ ?_
    · rintro rid key rfl
      exact absurd he (by decide : Field.authorizationCodes ∉ otherParts)
    · rintro f key rfl
      exact absurd he (by decide : Field.refreshTokens ∉ otherParts)

end Changes

section Moving

variable {deps : Deps} {R r F : Multiset Slot} {s s' : State} {h h' : History}

/-- A thread may lose rights. -/
theorem Inv.drop (hinv : Inv deps R s h) (hle : r ≤ R) : Inv deps r s h :=
  ⟨hinv.exclusive.drop hle fun _ => id,
    fun x hx => hinv.known x (hx.imp_left (Multiset.mem_of_le hle)),
    hinv.one, hinv.saved, hinv.unused, hinv.codes, hinv.families⟩

/-- A thing that is taken out leaves its right with the thread. -/
theorem Inv.take (hinv : Inv deps F s h) (honce : r.Nodup)
    (hout : ∀ x ∈ r, Placed deps s h x ∧ ¬ Placed deps s' h x)
    (htokens : ∀ f key, Active s' f key → Active s f key)
    (hcodes : ∀ key, Unused s' key → Unused s key)
    (hrequests : ∀ key, Saved s' key → Saved s key) (hissued : s.issued ⊆ s'.issued) :
    Inv deps (r + F) s' h := by
  have hafter := hinv.shrink htokens hcodes hrequests hissued
  refine ⟨hinv.exclusive.take (Multiset.nodup_iff_count_le_one.mp honce)
    (fun x hx => (hout x hx).imp_left .inl) fun x => placed_mono htokens hcodes hrequests, ?_,
    hafter.one, hafter.saved, hafter.unused, hafter.codes, hafter.families⟩
  rintro x (hx | hp)
  · rcases Multiset.mem_add.mp hx with hx | hF
    · exact (hinv.known x (.inr (hout x hx).1)).mono hissued
    · exact hafter.known x (.inl hF)
  · exact hafter.known x (.inr hp)

/-- A thread places rights that it holds. -/
theorem Inv.place (hinv : Inv deps (r + F) s h)
    (hplace : ∀ x, Placed deps s' h' x → Placed deps s h x ∨ x ∈ r)
    (hissued : s.issued ⊆ s'.issued) :
    Exclusive (Placed deps s' h') F ∧ ∀ x, x ∈ F ∨ Placed deps s' h' x → Known deps s' x := by
  refine ⟨hinv.exclusive.place hplace, ?_⟩
  rintro x (hx | hp)
  · exact (hinv.known x (.inl (mem_frame _ hx))).mono hissued
  · rcases hplace x hp with hp | hx
    · exact (hinv.known x (.inr hp)).mono hissued
    · exact (hinv.known x (.inl (mem_held _ _ _ hx))).mono hissued

/-- The rights about a value. -/
def slotsOf (deps : Deps) (v : String) : Multiset Slot :=
  {.token (deps.keyOf v), .code (deps.keyOf v), .exchange (deps.keyOf v),
    .request (deps.keyOf v), .family v}

/-- The slots of a value are its token, its code, its exchange, its request and its family. -/
theorem mem_slotsOf {v : String} {x : Slot} :
    x ∈ slotsOf deps v ↔ x = .token (deps.keyOf v) ∨ x = .code (deps.keyOf v) ∨
      x = .exchange (deps.keyOf v) ∨ x = .request (deps.keyOf v) ∨ x = .family v := by
  simp only [slotsOf, Multiset.insert_eq_cons, Multiset.mem_cons, Multiset.mem_singleton]

theorem nodup_slotsOf (v : String) : (slotsOf deps v).Nodup := by
  simp [slotsOf]

/-- A fresh value comes with the rights about it. -/
theorem Inv.mint (hinj : Function.Injective deps.keyOf) (hinv : Inv deps F s h) {v : String}
    (hfresh : v ∉ s.issued) :
    Inv deps (slotsOf deps v + F) { s with issued := v :: s.issued } h := by
  -- A value that was never issued has no slot that is known.
  have hnew : ∀ x ∈ slotsOf deps v, ¬ Known deps s x := by
    intro x hx hk
    rcases mem_slotsOf.mp hx with rfl | rfl | rfl | rfl | rfl
    case inr.inr.inr.inr => exact hfresh hk
    all_goals
      rcases hk with ⟨w, hw, hkey⟩
      exact hfresh (hinj hkey ▸ hw)
  have hinv' : Inv deps F { s with issued := v :: s.issued } h :=
    hinv.shrink (fun _ _ => id) (fun _ => id) (fun _ => id) (List.subset_cons_self _ _)
  refine ⟨hinv.exclusive.take (Multiset.nodup_iff_count_le_one.mp (nodup_slotsOf v)) ?_ ?_, ?_,
    hinv'.one, hinv'.saved, hinv'.unused, hinv'.codes, hinv'.families⟩
  · intro x hx
    exact ⟨.inr fun hF => hnew x hx (hinv.known x (.inl hF)),
      fun hp => hnew x hx (hinv.known x (.inr hp))⟩
  · exact fun x hp => hp
  · rintro x (hx | hp)
    · rcases Multiset.mem_add.mp hx with hx | hF
      · rcases mem_slotsOf.mp hx with rfl | rfl | rfl | rfl | rfl
        case inr.inr.inr.inr => exact List.mem_cons_self
        all_goals exact ⟨v, List.mem_cons_self, rfl⟩
      · exact hinv'.known x (.inl hF)
    · exact hinv'.known x (.inr hp)

end Moving

section Placing

variable {deps : Deps} {F : Multiset Slot} {s : State} {h : History} {c : AuthCall}
  {f key : String}

/-- The right to start the one family of the code that a request exchanges. -/
def familyRight (deps : Deps) : AuthCall → Multiset Slot
  | .exchange _ _ input => {.exchange (deps.keyOf input.code)}
  | _ => 0

/-- The right to the one code of the saved request that is answered. -/
def codeRight (deps : Deps) : Option String → Multiset Slot
  | some rid => {.request (deps.keyOf rid)}
  | none => 0

/-- A family that a call opens is the one its code gives the right to. -/
theorem mem_familyRight {k : String} (hy : yieldsFamily deps k (c, .tokenStored f key) = true) :
    Slot.exchange k ∈ familyRight deps c := by
  cases c with
  | exchange clientId clientSecret input =>
      rw [← of_decide_eq_true hy]
      exact Multiset.mem_singleton_self _
  | _ => cases hy

/-- A code that a call stores is the one its request gives the right to. -/
theorem mem_codeRight {rid : Option String} {k : String}
    (hy : yieldsCode deps k (c, .codeStored rid key) = true) :
    Slot.request k ∈ codeRight deps rid := by
  cases rid with
  | some rid =>
      rw [← of_decide_eq_true hy]
      exact Multiset.mem_singleton_self _
  | none => cases hy

/-- One more event of a kind there was none of. -/
theorem countP_cons_le {p : AuthCall × Event → Bool} {y : AuthCall × Event}
    (hle : h.countP p ≤ 1) (hzero : p y = true → h.countP p = 0) :
    List.countP p (y :: h) ≤ 1 := by
  by_cases hy : p y = true
  · rw [List.countP_cons_of_pos hy, hzero hy]
  · rw [List.countP_cons_of_neg hy]
    exact hle

theorem countP_cons_pos {p : AuthCall × Event → Bool} {y : AuthCall × Event}
    (hpos : 0 < List.countP p (y :: h)) : p y = true ∨ 0 < h.countP p := by
  by_cases hy : p y = true
  · exact .inl hy
  · exact .inr (List.countP_cons_of_neg hy ▸ hpos)

/-- A token that is active after a save was so before, or is the one saved. -/
theorem active_set {token : RefreshToken} {ttl : Int} {f' k : String}
    (hk : Active { s with refreshTokens := Ttl.set s.refreshTokens s.now key token ttl } f' k) :
    k = key ∧ f' = token.familyId ∧ token.status = .active ∨ Active s f' k := by
  rcases hk with ⟨e, he, hfamily, hactive⟩
  rcases put_eq_some he with ⟨rfl, rfl⟩ | ⟨_, hold⟩
  · exact .inl ⟨rfl, hfamily.symm, hactive⟩
  · exact .inr ⟨e, hold, hfamily, hactive⟩

/-- Storing a token places its right and the right to be the active token of
    its family, and, in an exchange, the right to start a family. -/
theorem Inv.storeToken {token : RefreshToken} {ttl : Int} (hfamily : token.familyId = f)
    (hinv : Inv deps ({.token key} + ({.family f} + familyRight deps c) + F) s h) :
    Inv deps F { s with refreshTokens := Ttl.set s.refreshTokens s.now key token ttl }
      ((c, .tokenStored f key) :: h) := by
  have hheld : ∀ x ∈ ({.token key} + ({.family f} + familyRight deps c) : Multiset Slot),
      ¬ Placed deps s h x := fun x hx => hinv.exclusive.apart x (mem_held _ _ _ hx)
  have hto : Slot.token key ∈ ({.token key} + ({.family f} + familyRight deps c) : Multiset Slot) :=
    mem_held _ _ _ (Multiset.mem_singleton_self _)
  have hfa : Slot.family f ∈ ({.token key} + ({.family f} + familyRight deps c) : Multiset Slot) :=
    mem_frame _ (mem_held _ _ _ (Multiset.mem_singleton_self _))
  have hri : ∀ k, yieldsFamily deps k (c, .tokenStored f key) = true → Slot.exchange k ∈
      ({.token key} + ({.family f} + familyRight deps c) : Multiset Slot) :=
    fun k hy => mem_frame _ (mem_frame _ (mem_familyRight hy))
  have hno : ∀ k, ¬ yieldsCode deps k (c, .tokenStored f key) = true :=
    fun k => Bool.false_ne_true
  have hold : ∀ k, ¬ Active s token.familyId k := fun k hk =>
    hheld (.family f) hfa ⟨k, hfamily ▸ hk⟩
  -- What is placed afterwards was placed before, or the call held the right.
  have hplace : ∀ x, Placed deps
      { s with refreshTokens := Ttl.set s.refreshTokens s.now key token ttl }
      ((c, .tokenStored f key) :: h) x → Placed deps s h x ∨
        x ∈ ({.token key} + ({.family f} + familyRight deps c) : Multiset Slot) := by
    intro x hx
    cases x with
    | request k =>
        exact .inl (hx.imp_right fun hpos => (countP_cons_pos hpos).resolve_left (hno k))
    | code k => exact .inl hx
    | exchange k =>
        rcases hx with hun | hpos
        · exact .inl (.inl hun)
        · rcases countP_cons_pos hpos with hy | hpos
          · exact .inr (hri k hy)
          · exact .inl (.inr hpos)
    | token k =>
        rcases hx with ⟨f', hk⟩
        rcases active_set hk with ⟨rfl, _, _⟩ | hk
        · exact .inr hto
        · exact .inl ⟨f', hk⟩
    | family f' =>
        rcases hx with ⟨k, hk⟩
        rcases active_set hk with ⟨_, rfl, _⟩ | hk
        · exact .inr (hfamily ▸ hfa)
        · exact .inl ⟨k, hk⟩
  rcases hinv.place hplace (List.Subset.refl _) with ⟨hexclusive, hknown⟩
  -- A count that goes up was zero, since the right was held until now.
  refine ⟨hexclusive, hknown, ?_, ?_, ?_, ?_, ?_⟩
  · intro f' k k' hk hk'
    rcases active_set hk with ⟨rfl, rfl, _⟩ | hk₁
    · rcases active_set hk' with ⟨rfl, _, _⟩ | hk₂
      · rfl
      · exact absurd hk₂ (hold k')
    · rcases active_set hk' with ⟨rfl, rfl, _⟩ | hk₂
      · exact absurd hk₁ (hold k)
      · exact hinv.one f' k k' hk₁ hk₂
  · exact fun k hk => hinv.saved k hk
  · intro k hk
    by_cases hy : yieldsFamily deps k (c, .tokenStored f key) = true
    · exact absurd (.inl hk) (hheld _ (hri k hy))
    · rw [List.countP_cons_of_neg hy]
      exact hinv.unused k hk
  · exact fun k => hinv.codes k
  · intro k
    refine countP_cons_le (hinv.families k) fun hy => ?_
    exact Nat.eq_zero_of_not_pos fun hpos => hheld _ (hri k hy) (.inr hpos)

/-- A code that is unused after a save was so before, or is the one saved. -/
theorem unused_set {code : AuthorizationCode} {ttl : Int} {k : String}
    (hk : Unused
      { s with authorizationCodes := Ttl.set s.authorizationCodes s.now key code ttl } k) :
    k = key ∧ (∃ grant, code = .unused grant) ∨ Unused s k := by
  rcases hk with ⟨e, grant, he, hcode⟩
  rcases put_eq_some he with ⟨rfl, rfl⟩ | ⟨_, hold⟩
  · exact .inl ⟨rfl, grant, hcode⟩
  · exact .inr ⟨e, grant, hold, hcode⟩

/-- Storing a code places its right and the right to its family, and, if it
    answers a saved request, the right to a code for that. -/
theorem Inv.storeCode {code : AuthorizationCode} {ttl : Int} {rid : Option String}
    (hinv : Inv deps ({.code key, .exchange key} + codeRight deps rid + F) s h) :
    Inv deps F { s with authorizationCodes := Ttl.set s.authorizationCodes s.now key code ttl }
      ((c, .codeStored rid key) :: h) := by
  have hheld : ∀ x ∈ ({.code key, .exchange key} + codeRight deps rid : Multiset Slot),
      ¬ Placed deps s h x := fun x hx => hinv.exclusive.apart x (mem_held _ _ _ hx)
  have hco : Slot.code key ∈ ({.code key, .exchange key} + codeRight deps rid : Multiset Slot) :=
    mem_held _ _ _ (Multiset.mem_cons_self _ _)
  have hex :
        Slot.exchange key ∈ ({.code key, .exchange key} + codeRight deps rid : Multiset Slot) :=
    mem_held _ _ _ (Multiset.mem_cons_of_mem (Multiset.mem_singleton_self _))
  have hri : ∀ k, yieldsCode deps k (c, .codeStored rid key) = true → Slot.request k ∈
      ({.code key, .exchange key} + codeRight deps rid : Multiset Slot) :=
    fun k hy => mem_frame _ (mem_codeRight hy)
  have hno : ∀ k, ¬ yieldsFamily deps k (c, .codeStored rid key) = true := by
    intro k hy
    cases c <;> cases hy
  -- The code, its family and perhaps the saved request are placed, all held before.
  have hplace : ∀ x, Placed deps
      { s with authorizationCodes := Ttl.set s.authorizationCodes s.now key code ttl }
      ((c, .codeStored rid key) :: h) x → Placed deps s h x ∨
        x ∈ ({.code key, .exchange key} + codeRight deps rid : Multiset Slot) := by
    intro x hx
    cases x with
    | request k =>
        rcases hx with hsaved | hpos
        · exact .inl (.inl hsaved)
        · rcases countP_cons_pos hpos with hy | hpos
          · exact .inr (hri k hy)
          · exact .inl (.inr hpos)
    | code k =>
        rcases unused_set hx with ⟨rfl, _⟩ | hk
        · exact .inr hco
        · exact .inl hk
    | exchange k =>
        rcases hx with hk | hpos
        · rcases unused_set hk with ⟨rfl, _⟩ | hk
          · exact .inr hex
          · exact .inl (.inl hk)
        · exact .inl (.inr ((countP_cons_pos hpos).resolve_left (hno k)))
    | token k => exact .inl hx
    | family f => exact .inl hx
  rcases hinv.place hplace (List.Subset.refl _) with ⟨hexclusive, hknown⟩
  refine ⟨hexclusive, hknown, hinv.one, ?_, ?_, ?_, ?_⟩
  · intro k hk
    by_cases hy : yieldsCode deps k (c, .codeStored rid key) = true
    · exact absurd (.inl hk) (hheld _ (hri k hy))
    · rw [List.countP_cons_of_neg hy]
      exact hinv.saved k hk
  · intro k hk
    rw [List.countP_cons_of_neg (hno k)]
    rcases unused_set hk with ⟨rfl, _⟩ | hk
    · exact Nat.eq_zero_of_not_pos fun hpos => hheld _ hex (.inr hpos)
    · exact hinv.unused k hk
  · intro k
    refine countP_cons_le (hinv.codes k) fun hy => ?_
    exact Nat.eq_zero_of_not_pos fun hpos => hheld _ (hri k hy) (.inr hpos)
  · intro k
    rw [List.countP_cons_of_neg (hno k)]
    exact hinv.families k

/-- Saving a request places its right. -/
theorem Inv.saveRequest {request : AuthorizationRequest} {ttl : Int}
    (hinv : Inv deps ({.request key} + F) s h) :
    Inv deps F
      { s with
        authorizationRequests := Ttl.set s.authorizationRequests s.now key request ttl } h := by
  -- Nothing was placed under the key, since the call held its right.
  have hheld : ¬ Placed deps s h (.request key) :=
    hinv.exclusive.apart _ (mem_held _ _ _ (Multiset.mem_singleton_self _))
  have hset : ∀ k, Saved
      { s with authorizationRequests := Ttl.set s.authorizationRequests s.now key request ttl } k →
      k = key ∨ Saved s k := by
    rintro k ⟨e, he⟩
    rcases put_eq_some he with ⟨rfl, _⟩ | ⟨_, hold⟩
    · exact .inl rfl
    · exact .inr ⟨e, hold⟩
  -- What is placed now was placed before, or is the request that is saved.
  have hplace : ∀ x, Placed deps
      { s with authorizationRequests := Ttl.set s.authorizationRequests s.now key request ttl }
      h x → Placed deps s h x ∨ x ∈ ({.request key} : Multiset Slot) := by
    intro x hx
    cases x with
    | request k =>
        rcases hx with hk | hpos
        · rcases hset k hk with rfl | hk
          · exact .inr (Multiset.mem_singleton_self _)
          · exact .inl (.inl hk)
        · exact .inl (.inr hpos)
    | _ => exact .inl hx
  rcases hinv.place hplace (List.Subset.refl _) with ⟨hexclusive, hknown⟩
  refine ⟨hexclusive, hknown, hinv.one, ?_, hinv.unused, hinv.codes, hinv.families⟩
  · intro k hk
    rcases hset k hk with rfl | hk
    · exact Nat.eq_zero_of_not_pos fun hpos => hheld (.inr hpos)
    · exact hinv.saved k hk

end Placing

section Taking

variable {deps : Deps} {F : Multiset Slot} {s : State} {h : History} {f key : String}

theorem active_delete {k : String}
    (hk : Active { s with refreshTokens := Ttl.delete s.refreshTokens key } f k) :
    k ≠ key ∧ Active s f k := by
  rcases hk with ⟨e, he, hactive⟩
  exact ⟨(delete_eq_some he).1, e, (delete_eq_some he).2, hactive⟩

/-- The invariant holds on where a token goes away. -/
theorem Inv.deleteToken (hinv : Inv deps F s h) :
    Inv deps F { s with refreshTokens := Ttl.delete s.refreshTokens key } h :=
  hinv.shrink (fun _ _ hk => (active_delete hk).2) (fun _ => id) (fun _ => id)
    (List.Subset.refl _)

/-- Taking out an active token. -/
theorem Inv.takeToken (hinv : Inv deps F s h) (hactive : Active s f key) :
    Inv deps ({.token key, .family f} + F)
      { s with refreshTokens := Ttl.delete s.refreshTokens key } h := by
  refine hinv.take (by simp) ?_ (fun _ _ hk => (active_delete hk).2) (fun _ => id) (fun _ => id)
    (List.Subset.refl _)
  intro x hx
  simp only [Multiset.insert_eq_cons, Multiset.mem_cons, Multiset.mem_singleton] at hx
  rcases hx with rfl | rfl
  · refine ⟨⟨f, hactive⟩, ?_⟩
    rintro ⟨f', hk⟩
    exact (active_delete hk).1 rfl
  · refine ⟨⟨key, hactive⟩, ?_⟩
    rintro ⟨k, hk⟩
    rcases active_delete hk with ⟨hne, hk⟩
    exact hne (hinv.one f k key hk hactive)

/-- Writing back a token that is not active. -/
theorem Inv.retireToken {token : RefreshToken} {ttl : Int} (hinv : Inv deps F s h)
    (hstatus : token.status ≠ .active) :
    Inv deps F { s with refreshTokens := Ttl.set s.refreshTokens s.now key token ttl } h := by
  refine hinv.shrink (fun f k hk => ?_) (fun _ => id) (fun _ => id) (List.Subset.refl _)
  exact (active_set hk).resolve_left fun hnew => hstatus hnew.2.2

theorem unused_delete {k : String}
    (hk : Unused { s with authorizationCodes := Ttl.delete s.authorizationCodes key } k) :
    k ≠ key ∧ Unused s k := by
  rcases hk with ⟨e, grant, he, hcode⟩
  exact ⟨(delete_eq_some he).1, e, grant, (delete_eq_some he).2, hcode⟩

/-- The invariant holds on where a code goes away. -/
theorem Inv.deleteCode (hinv : Inv deps F s h) :
    Inv deps F { s with authorizationCodes := Ttl.delete s.authorizationCodes key } h :=
  hinv.shrink (fun _ _ => id) (fun _ hk => (unused_delete hk).2) (fun _ => id)
    (List.Subset.refl _)

/-- Taking out a code that can be exchanged. -/
theorem Inv.takeCode (hinv : Inv deps F s h) (hunused : Unused s key) :
    Inv deps ({.code key, .exchange key} + F)
      { s with authorizationCodes := Ttl.delete s.authorizationCodes key } h := by
  refine hinv.take (by simp) ?_ (fun _ _ => id) (fun _ hk => (unused_delete hk).2) (fun _ => id)
    (List.Subset.refl _)
  intro x hx
  simp only [Multiset.insert_eq_cons, Multiset.mem_cons, Multiset.mem_singleton] at hx
  rcases hx with rfl | rfl
  · exact ⟨hunused, fun hk => (unused_delete hk).1 rfl⟩
  · refine ⟨.inl hunused, ?_⟩
    rintro (hk | hpos)
    · exact (unused_delete hk).1 rfl
    · exact hpos.ne' (hinv.unused key hunused)

/-- Leaving the mark of an exchanged code. -/
theorem Inv.markCode {familyId : String} {ttl : Int} (hinv : Inv deps F s h) :
    Inv deps F
      { s with
        authorizationCodes :=
          Ttl.set s.authorizationCodes s.now key (.used familyId) ttl } h := by
  refine hinv.shrink (fun _ _ => id) (fun k hk => ?_) (fun _ => id) (List.Subset.refl _)
  exact (unused_set hk).resolve_left fun hnew => hnew.2.elim nofun

theorem saved_delete {k : String}
    (hk : Saved { s with authorizationRequests := Ttl.delete s.authorizationRequests key } k) :
    k ≠ key ∧ Saved s k := by
  rcases hk with ⟨e, he⟩
  exact ⟨(delete_eq_some he).1, e, (delete_eq_some he).2⟩

/-- The invariant holds on where a pending request goes away. -/
theorem Inv.deleteRequest (hinv : Inv deps F s h) :
    Inv deps F { s with authorizationRequests := Ttl.delete s.authorizationRequests key } h :=
  hinv.shrink (fun _ _ => id) (fun _ => id) (fun _ hk => (saved_delete hk).2)
    (List.Subset.refl _)

/-- Taking out a saved request. -/
theorem Inv.takeRequest (hinv : Inv deps F s h) (hsaved : Saved s key) :
    Inv deps ({.request key} + F)
      { s with authorizationRequests := Ttl.delete s.authorizationRequests key } h := by
  refine hinv.take (by simp) ?_ (fun _ _ => id) (fun _ => id) (fun _ hk => (saved_delete hk).2)
    (List.Subset.refl _)
  intro x hx
  rw [Multiset.mem_singleton] at hx
  subst hx
  refine ⟨.inl hsaved, ?_⟩
  rintro (hk | hpos)
  · exact (saved_delete hk).1 rfl
  · exact hpos.ne' (hinv.saved key hsaved)

end Taking

section Programs

variable {deps : Deps} {c : AuthCall} {α : Type}

/-- A program that says nothing about grants. -/
theorem safe_other {p : AuthProg α} (h : Touches otherParts p) (r : Multiset Slot) :
    Safe (protocol deps) c p r fun _ r' => r' = r :=
  safe_touches stable h r

/-- A program on other fields keeps the invariant. -/
theorem keeps_other {p : AuthProg α} (h : Touches otherParts p) : Keeps (protocol deps) c α p :=
  (safe_other h 0).keeps

/-- A fresh value comes with its rights. -/
theorem safe_randomToken (hinj : Function.Injective deps.keyOf) (bytes : Nat)
    (r : Multiset Slot) :
    Safe (protocol deps) c (randomToken bytes) r fun v r' => r' = slotsOf deps v + r := by
  refine safe_ask fun F s hist i v s' hinv hrun => ?_
  cases i <;> first | cases hrun | skip
  simp only at hrun
  split at hrun
  · next hfresh =>
      cases hrun
      refine ⟨_, ?_, rfl⟩
      rw [add_assoc]
      exact Inv.mint hinj hinv hfresh.2
  · cases hrun

section Tokens

/-- Storing a token in a family whose right the thread holds. -/
theorem safe_storeRefreshToken (hinj : Function.Injective deps.keyOf)
    (input : NewRefreshTokenInput) (familyId : String) :
    Safe (protocol deps) c (storeRefreshToken deps input familyId)
      ({.family familyId} + familyRight deps c) fun _ _ => True := by
  refine safe_seq (safe_randomToken hinj 32 _) ?_
  rintro value _ rfl
  refine safe_seq (Q := fun _ _ => True) ?_ fun _ _ _ => safe_pure trivial
  refine safe_logged fun F s hist hinv _ => ⟨0, ?_, trivial⟩
  rw [zero_add]
  refine Inv.storeToken rfl (Inv.drop hinv ?_)
  have htoken : {.token (deps.keyOf value)} ≤ slotsOf deps value :=
    Multiset.singleton_le.mpr (mem_slotsOf.mpr (.inl rfl))
  exact add_le_add_left (add_le_add_left htoken _) F

/-- A family is opened with the right of a code that was taken. -/
theorem safe_createRefreshTokenFamily (hinj : Function.Injective deps.keyOf)
    (input : NewRefreshTokenInput) :
    Safe (protocol deps) c (createRefreshTokenFamily deps input) (familyRight deps c)
      fun _ _ => True := by
  have hC := closed_keeps (ω := Outside) (protocol deps) c
  refine safe_seq (safe_randomToken hinj 16 _) ?_
  rintro familyId _ rfl
  have hfamily : {.family familyId} ≤ slotsOf deps familyId := by
    refine Multiset.singleton_le.mpr (mem_slotsOf.mpr ?_)
    exact .inr (.inr (.inr (.inr rfl)))
  -- The right of the new family is split off; the rest is carried along.
  rcases Multiset.le_iff_exists_add.mp (add_le_add_left hfamily (familyRight deps c)) with
    ⟨rest, hrest⟩
  rw [hrest]
  refine safe_seq (safe_frame rest (safe_storeRefreshToken hinj input familyId)) ?_
  intro issued r _
  refine Keeps.safe ?_ r
  refine hC.bind (hC.both (keeps_other ?_) (keeps_other ?_)) fun _ => hC.pure _
  · exact (touches_addLogged onField_refreshTokenFamilies rfl).mono (by decide)
  · exact (touches_add onField_sidRefreshFamilies).mono (by decide)

/-- What a presentation has taken: an active token comes with its right and
    that of its family. -/
def Consumed (deps : Deps) (value : String) : ConsumeResult → Multiset Slot → Prop
  | .consumed token, r => r = {.token (deps.keyOf value), .family token.familyId}
  | _, _ => True

theorem keeps_retireToken {key : String} {token : RefreshToken} (hstatus : token.status ≠ .active) :
    Keeps (protocol deps) c _ (refreshTokens.set key token refreshTokenTtl : AuthProg _) :=
  safe_write fun _ _ _ hinv => ⟨0, Inv.retireToken hinv hstatus, trivial⟩

/-- Consuming a token gives the right to its successor. -/
theorem safe_consumeRefreshToken (value : String) :
    Safe (protocol deps) c (consumeRefreshToken deps value) 0 (Consumed deps value) := by
  -- The token is out of the store with this step, so its right is free to take.
  have htake : Safe (protocol deps) c (refreshTokens.getAndDelete (deps.keyOf value) : AuthProg _)
      0 fun stored r => ∀ token, stored = some token → token.status = .active →
        r = {.token (deps.keyOf value), .family token.familyId} := by
    refine safe_atomic fun F s hist hinv => ?_
    rw [zero_add] at hinv
    by_cases hactive : ∃ token, Ttl.get s.refreshTokens s.now (deps.keyOf value) = some token ∧
        token.status = .active
    · rcases hactive with ⟨token, hget, hstatus⟩
      rcases get_eq_some.mp hget with ⟨e, he, _, rfl⟩
      refine ⟨_, Inv.takeToken hinv ⟨e, he, rfl, hstatus⟩, ?_⟩
      intro token' htoken' _
      rw [Option.some.inj (hget.symm.trans htoken')]
    · refine ⟨0, ?_, fun token htoken hstatus => absurd ⟨token, htoken, hstatus⟩ hactive⟩
      rw [zero_add]
      exact Inv.deleteToken hinv
  refine safe_seq htake fun stored r hr => ?_
  cases stored with
  | none => exact safe_pure trivial
  | some token =>
      simp only
      split
      -- A token that is not active goes back as it was.
      · next hstatus =>
          exact safe_seq (Keeps.safe (keeps_retireToken hstatus) r) fun _ _ _ => safe_pure trivial
      · next hstatus =>
          rw [hr token rfl (not_not.mp hstatus)]
          have hset : Safe (protocol deps) c
              (refreshTokens.set (deps.keyOf value) { token with status := .rotated }
                refreshTokenTtl : AuthProg _)
              {.token (deps.keyOf value), .family token.familyId} fun _ r' =>
                r' = {.token (deps.keyOf value), .family token.familyId} :=
            safe_write fun _ _ _ hinv => ⟨_, Inv.retireToken hinv (fun h => by cases h), rfl⟩
          refine safe_seq hset ?_
          rintro _ _ rfl
          exact safe_pure rfl

/-- Issuing the successor of a token gives up the right of the family. -/
theorem safe_rotateRefreshToken (hinj : Function.Injective deps.keyOf) (token : RefreshToken) :
    Safe (protocol deps) c (rotateRefreshToken deps token)
      ({.family token.familyId} + familyRight deps c) fun _ _ => True := by
  refine safe_seq (safe_storeRefreshToken hinj _ _) fun _ r _ => Keeps.safe ?_ r
  have hC := closed_keeps (ω := Outside) (protocol deps) c
  refine hC.bind (keeps_other ?_) fun _ => hC.pure _
  exact (touches_addLogged onField_refreshTokenFamilies rfl).mono (by decide)

theorem keeps_revokeRefreshTokenFamily (familyId : String) :
    Keeps (protocol deps) c _ (revokeRefreshTokenFamily familyId) := by
  have hC := closed_keeps (ω := Outside) (protocol deps) c
  refine hC.bind (keeps_other ?_) fun keys => ?_
  · exact (touches_membersLogged (f := .refreshTokenFamilies) fun _ => rfl).mono (by decide)
  refine hC.bind (hC.all fun _ _ => keeps_other touches_get) fun records => ?_
  refine hC.bind (hC.all fun x _ => ?_) fun _ => keeps_other (touches_emit ?_)
  · cases x.2 with
    | none => exact hC.pure _
    | some token => exact keeps_retireToken nofun
  · exact (by decide : Field.refreshTokenFamilies ∈ otherParts)

end Tokens

section Codes

/-- Issuing a code, for the saved request whose right the thread holds. -/
theorem safe_authorizeWithSession (hinj : Function.Injective deps.keyOf) (rid : Option String)
    (request : ValidatedAuthorizationRequest) (session : SsoSession)
    (environment : RequestEnvironment) :
    Safe (protocol deps) c (authorizeWithSession deps rid request session environment)
      (codeRight deps rid) fun _ _ => True := by
  refine safe_seq (safe_other touches_checkTenantAccess _) ?_
  rintro access _ rfl
  cases access with
  | error reason => exact safe_pure trivial
  | ok user =>
      refine safe_seq (safe_randomToken hinj 32 _) ?_
      rintro codeValue _ rfl
      refine safe_seq (Q := fun _ _ => True) ?_ fun _ r _ => ?_
      · refine safe_logged fun F s hist hinv _ => ⟨0, ?_, trivial⟩
        rw [zero_add]
        refine Inv.storeCode (Inv.drop hinv ?_)
        -- Of the slots of the new value only those of a code are used.
        have hcode : {.code (deps.keyOf codeValue), .exchange (deps.keyOf codeValue)} ≤
            slotsOf deps codeValue := by
          refine (Multiset.le_iff_subset (by simp)).mpr fun x hx => mem_slotsOf.mpr ?_
          simp only [Multiset.insert_eq_cons, Multiset.mem_cons, Multiset.mem_singleton] at hx
          exact hx.elim (fun h => .inr (.inl h)) fun h => .inr (.inr (.inl h))
        exact add_le_add_left (add_le_add_left hcode _) F
      · refine Keeps.safe ?_ r
        have hC := closed_keeps (ω := Outside) (protocol deps) c
        exact hC.bind (keeps_other (touches_touchSsoSession.mono (by decide))) fun _ => hC.pure _

/-- A pending request is stored under a key of its own. -/
theorem keeps_storePendingAuthorization (hinj : Function.Injective deps.keyOf)
    (request : ValidatedAuthorizationRequest) :
    Keeps (protocol deps) c _ (storePendingAuthorization deps request) := by
  refine safe_seq (safe_randomToken hinj 32 0) ?_
  rintro rid _ rfl
  refine safe_seq (Q := fun _ _ => True) ?_ fun _ _ _ => safe_pure trivial
  refine safe_logged fun F s hist hinv _ => ⟨0, ?_, trivial⟩
  rw [zero_add]
  refine Inv.log (Inv.saveRequest (Inv.drop hinv ?_)) c nofun nofun
  have hrequest : {.request (deps.keyOf rid)} ≤ slotsOf deps rid :=
    Multiset.singleton_le.mpr (mem_slotsOf.mpr (.inr (.inr (.inr (.inl rfl)))))
  rw [add_zero]
  exact add_le_add_left hrequest F

/-- Taking out a saved request comes with its right. -/
theorem safe_consumePendingAuthorization (rid : String) :
    Safe (protocol deps) c (consumePendingAuthorization deps rid) 0
      fun request r => request ≠ none → r = codeRight deps (some rid) := by
  refine safe_atomic fun F s hist hinv => ?_
  rw [zero_add] at hinv
  change ∃ r', _ ∧ (Ttl.get s.authorizationRequests s.now (deps.keyOf rid) ≠ none → _)
  cases hget : Ttl.get s.authorizationRequests s.now (deps.keyOf rid) with
  | none =>
      refine ⟨0, ?_, fun hne => absurd rfl hne⟩
      rw [zero_add]
      exact Inv.deleteRequest hinv
  | some request =>
      rcases get_eq_some.mp hget with ⟨e, he, _, _⟩
      exact ⟨_, Inv.takeRequest hinv ⟨e, he⟩, fun _ => rfl⟩

/-- Resuming a login stores a code with the right of the request it takes. -/
theorem keeps_resumeLogin (hinj : Function.Injective deps.keyOf) (result : LoginSuccess)
    (rid : String) (environment : RequestEnvironment) :
    Keeps (protocol deps) c _ (resumeLogin deps result rid environment) := by
  have htake : Safe (protocol deps) c (takeRequest deps rid) 0
      fun request r => request ≠ none → r = codeRight deps (some rid) := by
    unfold takeRequest
    split
    · exact safe_pure fun hne => absurd rfl hne
    · exact safe_consumePendingAuthorization rid
  refine safe_seq htake fun request r hr => ?_
  cases request with
  | none => exact safe_pure trivial
  | some request =>
      -- Taking the request gives the right to store one code for it.
      rw [hr nofun]
      refine safe_seq (Q := fun _ _ => True) ?_ fun _ _ _ => safe_pure trivial
      refine safe_seq (safe_other (touches_both touches_query touches_query) _) ?_
      rintro rows _ rfl
      split
      · split
        · exact safe_pure trivial
        · exact safe_seq (safe_authorizeWithSession hinj (some rid) _ _ _)
            fun _ _ _ => safe_pure trivial
      · exact safe_pure trivial

theorem keeps_markCode (key familyId : String) :
    Keeps (protocol deps) c _ (rememberConsumedCode key familyId) :=
  safe_write fun _ _ _ hinv => ⟨0, Inv.markCode hinv, trivial⟩

/-- Taking out a code comes with its rights. -/
theorem safe_takeCode (key : String) :
    Safe (protocol deps) c (authorizationCodes.getAndDelete key : AuthProg _) 0
      fun stored r => ∀ grant, stored = some (.unused grant) → r = {.code key, .exchange key} := by
  refine safe_atomic fun F s hist hinv => ?_
  rw [zero_add] at hinv
  by_cases hunused : ∃ grant, Ttl.get s.authorizationCodes s.now key = some (.unused grant)
  · rcases hunused with ⟨grant, hget⟩
    rcases get_eq_some.mp hget with ⟨e, he, _, hval⟩
    exact ⟨_, Inv.takeCode hinv ⟨e, grant, he, hval⟩, fun _ _ => rfl⟩
  · refine ⟨0, ?_, fun grant hget => absurd ⟨grant, hget⟩ hunused⟩
    rw [zero_add]
    exact Inv.deleteCode hinv

end Codes

section Grants

/-- An exchange that succeeds still holds the right of its code. -/
theorem safe_exchange (hinj : Function.Injective deps.keyOf) (clientId clientSecret : String)
    (input : CodeExchangeInput) (client : OidcClient) :
    Safe (protocol deps) (.exchange clientId clientSecret input)
      (exchangeAuthorizationCode deps client input) 0
      fun a r => ∀ response, a = .ok response → .code (deps.keyOf input.code) ∈ r := by
  have hC := closed_keeps (ω := Outside) (protocol deps) (.exchange clientId clientSecret input)
  refine safe_seq (safe_takeCode _) fun stored r hr => ?_
  split
  · exact safe_pure fun _ hok => by cases hok
  -- A code that was used before ends its family and yields no tokens.
  · next familyId =>
      refine safe_seq (Keeps.safe (keeps_other touches_describeRefreshTokenFamily) r)
        fun _ r _ => ?_
      refine safe_seq (Keeps.safe (keeps_revokeRefreshTokenFamily _) r) fun _ r _ => ?_
      refine safe_seq (Keeps.safe (keeps_markCode _ _) r) fun _ r _ => ?_
      refine safe_seq (Keeps.safe (keeps_other (touches_recordAudit.mono (by decide))) r) ?_
      exact fun _ _ _ => safe_pure fun _ hok => by cases hok
  -- An unused code comes with its own right and that of its family.
  · next stored =>
      rw [hr stored rfl]
      split
      · exact safe_pure fun _ hok => by cases hok
      · refine safe_seq (safe_other ((touches_both touches_loadSsoSessionByKey
          (touches_both touches_query touches_resolveTenant)).mono (by decide)) _) ?_
        rintro rows _ rfl
        split
        · exact safe_pure fun _ hok => by cases hok
        · exact safe_pure fun _ hok => by cases hok
        · exact safe_pure fun _ hok => by cases hok
        · -- The right to the family is used up, the right of the code is kept.
          have hcreate : Safe (protocol deps) (.exchange clientId clientSecret input)
              (createRefreshTokenFamily deps (stored.refreshInput client))
              ({.exchange (deps.keyOf input.code)} + {.code (deps.keyOf input.code)})
              fun _ r => .code (deps.keyOf input.code) ∈ r := by
            refine safe_mono (safe_frame {.code (deps.keyOf input.code)}
              (safe_createRefreshTokenFamily hinj _)) ?_
            rintro _ _ ⟨q, rfl, _⟩
            exact mem_frame q (Multiset.mem_singleton_self _)
          have hright : ({.code (deps.keyOf input.code), .exchange (deps.keyOf input.code)} :
              Multiset Slot) =
              {.exchange (deps.keyOf input.code)} + {.code (deps.keyOf input.code)} := by
            rw [add_comm]
            rfl
          rw [hright]
          refine safe_seq (safe_both_keeps hcreate (keeps_other touches_issueTokens)) ?_
          rintro issued _ ⟨r, t, rfl, hcode⟩
          refine safe_seq (safe_keeping (r + t) (keeps_markCode _ _)) ?_
          rintro _ _ ⟨q, rfl⟩
          exact safe_pure fun _ _ => mem_frame q (mem_held _ _ _ hcode)

/-- A refresh that succeeds still holds the right of its token. -/
theorem safe_refresh (hinj : Function.Injective deps.keyOf) (clientId clientSecret value : String)
    (client : OidcClient) :
    Safe (protocol deps) (.refresh clientId clientSecret value)
      (refreshAccessToken deps client value) 0
      fun a r => ∀ response, a = .ok response → .token (deps.keyOf value) ∈ r := by
  have hrevoke : ∀ familyId r, Safe (protocol deps) (.refresh clientId clientSecret value)
      (revokeRefreshTokenFamily familyId) r fun _ _ => True :=
    fun familyId r => Keeps.safe (keeps_revokeRefreshTokenFamily familyId) r
  have haudit : ∀ subject detail r, Safe (protocol deps) (.refresh clientId clientSecret value)
      (recordAudit subject detail) r fun _ _ => True :=
    fun _ _ r => Keeps.safe (keeps_other (touches_recordAudit.mono (by decide))) r
  refine safe_seq (safe_consumeRefreshToken value) fun consumed r hr => ?_
  -- Only a token that was active goes on to new ones.
  cases consumed with
  | unknown => exact safe_pure fun _ hok => by cases hok
  | reused token =>
      refine safe_seq (hrevoke _ r) fun _ r _ => ?_
      exact safe_seq (haudit _ _ r) fun _ _ _ => safe_pure fun _ hok => by cases hok
  | consumed stored =>
      rw [show r = _ from hr]
      simp only [refreshConsumed]
      split
      · refine safe_seq (hrevoke _ _) fun _ r _ => ?_
        exact safe_seq (haudit _ _ r) fun _ _ _ => safe_pure fun _ hok => by cases hok
      · have hcontext : Touches otherParts (validateRefreshContext client stored) := by
          refine touches_bind ((touches_both touches_loadSsoSessionByKey
            touches_resolveTenant).mono (by decide)) fun rows => ?_
          split
          · exact touches_pure _
          · exact touches_pure _
          · refine touches_bind touches_checkTenantAccess fun access => ?_
            cases access <;> exact touches_pure _
        refine safe_seq (safe_other hcontext _) ?_
        rintro validated _ rfl
        cases validated with
        | error e => exact safe_seq (hrevoke _ _) fun _ _ _ => safe_pure fun _ hok => by cases hok
        | ok rows =>
            -- Rotating uses up the right of the family and keeps that of the token.
            have hrotate : Safe (protocol deps) (.refresh clientId clientSecret value)
                (rotateRefreshToken deps stored)
                ({.family stored.familyId} + {.token (deps.keyOf value)})
                fun _ r => .token (deps.keyOf value) ∈ r := by
              refine safe_mono (safe_frame {.token (deps.keyOf value)}
                (safe_rotateRefreshToken hinj stored)) ?_
              rintro _ _ ⟨q, rfl, _⟩
              exact mem_frame q (Multiset.mem_singleton_self _)
            have hright : ({.token (deps.keyOf value), .family stored.familyId} : Multiset Slot) =
                {.family stored.familyId} + {.token (deps.keyOf value)} := by
              rw [add_comm]
              rfl
            rw [hright]
            refine safe_seq (safe_both_keeps hrotate (keeps_other touches_issueTokens)) ?_
            rintro issued _ ⟨r, t, rfl, htoken⟩
            exact safe_pure fun _ _ => mem_held _ _ _ htoken

end Grants

end Programs

section Runs

variable {deps : Deps}

/-- What a finished request holds. -/
def Post (deps : Deps) : (c : AuthCall) → Answer c → Multiset Slot → Prop
  | .exchange _ _ input, a, r =>
        ∀ response, a = some (.ok response) → .code (deps.keyOf input.code) ∈ r
  | .refresh _ _ value, a, r => ∀ response, a = some (.ok response) → .token (deps.keyOf value) ∈ r
  | _, _, _ => True

/-- An endpoint with an authenticated client is safe where it is for every client. -/
theorem safe_withClient {c : AuthCall} {α : Type} {clientId clientSecret : String}
    {p : OidcClient → AuthProg (Except TokenError α)} {Q : Multiset Slot → Prop}
    (hp : ∀ client, Safe (protocol deps) c (p client) 0 fun a r => ∀ x, a = .ok x → Q r) :
    Safe (protocol deps) c (withClient deps clientId clientSecret p) 0
      fun a r => ∀ x, a = some (.ok x) → Q r := by
  refine safe_seq (safe_other touches_authenticateClient 0) ?_
  rintro client _ rfl
  cases client with
  | none => exact safe_pure fun _ hok => by cases hok
  | some client =>
      refine safe_seq (hp client) fun a r hr => ?_
      exact safe_pure fun x hx => hr x (Option.some.inj hx)

/-- The requests that are not grants preserve the invariant. -/
theorem blocks (hinj : Function.Injective deps.keyOf) (c : AuthCall)
    (hexchange : ∀ clientId clientSecret input, c ≠ .exchange clientId clientSecret input)
    (hrefresh : ∀ clientId clientSecret value, c ≠ .refresh clientId clientSecret value) :
    Blocks deps c (Keeps (protocol deps) c) := by
  have hC := closed_keeps (ω := Outside) (protocol deps) c
  have hper : HasPeripheral (Keeps (protocol deps) c) := fun h => keeps_other (h.mono (by decide))
  -- Sessions have no part in the rights.
  have hdestroy : ∀ session, Keeps (protocol deps) c _ (destroySsoSession session) :=
    fun _ => keeps_other (touches_destroySsoSession.mono (by decide))
  exact
    { closed := hC
      peripheral := hper
      load := fun _ => keeps_other (touches_loadSsoSessionByKey.mono (by decide))
      destroy := hdestroy
      create := fun _ _ _ => keeps_other (touches_createSsoSession.mono (by decide))
      save := fun _ _ _ _ => keeps_storePendingAuthorization hinj
      authorize := fun _ _ _ _ request session environment =>
        safe_authorizeWithSession hinj none request session environment
      resume := keeps_resumeLogin hinj
      exchange := fun _ _ _ hc => absurd hc (hexchange _ _ _)
      refresh := fun _ _ _ hc => absurd hc (hrefresh _ _ _)
      revokeFamily := keeps_revokeRefreshTokenFamily
      revokeSession := closed_revokeSessionBySid hC hper
        (fun _ => keeps_other (touches_findSsoSessionBySid.mono (by decide)))
        (closed_revokeFoundSession hC hper hdestroy keeps_revokeRefreshTokenFamily fun _ =>
          keeps_other ((touches_delete onField_sidRefreshFamilies).mono (by decide)))
        (fun _ _ _ => keeps_other (touches_markRevoked.mono (by decide)))
        (fun _ => keeps_other (touches_emit (by decide : Field.sidIndex ∈ otherParts)))
      addMember := fun _ _ _ => keeps_other (touches_upsertServiceMembership.mono (by decide))
      removeMember := fun _ _ _ =>
        keeps_other (touches_removeServiceMembership.mono (by decide)) }

/-- Every request moves the rights and ends with those it promises. -/
theorem safe_body (hinj : Function.Injective deps.keyOf) (c : AuthCall) :
    Safe (protocol deps) c (AuthCall.body deps c) 0 (Post deps c) := by
  cases c with
  | exchange clientId clientSecret input =>
      exact safe_withClient fun client => safe_exchange hinj _ _ input client
  | refresh clientId clientSecret value =>
      exact safe_withClient fun client => safe_refresh hinj _ _ value client
  | _ =>
      refine (blocks hinj _ ?_ ?_).body
      all_goals rintro _ _ _ ⟨⟩

theorem inv_start (now : Int) (db : Identity) : Inv deps 0 (State.start now db) [] := by
  have hactive : ∀ f key, ¬ Active (State.start now db) f key :=
    fun f key ⟨e, he, _⟩ => Option.some_ne_none e he.symm
  have hunused : ∀ key, ¬ Unused (State.start now db) key :=
    fun key ⟨e, _, he, _⟩ => Option.some_ne_none e he.symm
  have hsaved : ∀ key, ¬ Saved (State.start now db) key :=
    fun key ⟨e, he⟩ => Option.some_ne_none e he.symm
  refine ⟨exclusive_zero, ?_, ?_, fun _ _ => rfl, fun _ _ => rfl, fun _ => Nat.zero_le 1,
    fun _ => Nat.zero_le 1⟩
  · rintro x (hx | hx)
    · exact absurd hx (Multiset.notMem_zero x)
    · cases x with
      | request key => exact absurd (hx.resolve_right (Nat.lt_irrefl 0)) (hsaved key)
      | code key => exact absurd hx (hunused key)
      | exchange key => exact absurd (hx.resolve_right (Nat.lt_irrefl 0)) (hunused key)
      | token key => exact hx.elim fun f hk => absurd hk (hactive f key)
      | family f => exact hx.elim fun key hk => absurd hk (hactive f key)
  · exact fun f key _ hk => absurd hk (hactive f key)

/-- Time and the operator move no rights. -/
theorem inv_env {R : Multiset Slot} {s s' : State} {h : History} {t : Change}
    (ht : t.apply s = some s') (hinv : Inv deps R s h) : Inv deps R s' h := by
  rcases apply_cases ht with ⟨seconds, rfl⟩ | ⟨db, _, _, rfl⟩
  · exact hinv.shrink (fun _ _ => id) (fun _ => id) (fun _ => id) (List.Subset.refl _)
  · exact hinv.shrink (fun _ _ => id) (fun _ => id) (fun _ => id) (List.Subset.refl _)

/-- Every pool of every run satisfies the invariant. -/
theorem poolOk (hinj : Function.Injective deps.keyOf) {now : Int} {db : Identity}
    {p : Pool State Outside Event AuthCall Answer}
    (h : Reachable (authSystem deps) anyStep (State.start now db) p) :
    PoolOk (protocol deps) (Post deps) p :=
  poolOk_of_reachable (P := protocol deps) (safe_body hinj)
    (fun _ _ _ _ _ ht hinv => inv_env ht hinv) (inv_start now db) h

end Runs

/-- An event by which the request saved under `rid` has yielded a code. -/
def codeFor (rid : String) : AuthCall × Event → Bool
  | (_, .codeStored (some rid') _) => rid' = rid
  | _ => false

/-- An event by which an exchange of a code has started a family. -/
def familyFor (code : String) : AuthCall × Event → Bool
  | (.exchange _ _ input, .tokenStored _ _) => input.code = code
  | _ => false

/-- The request at an index has exchanged a code successfully. -/
def Exchanged (p : Pool State Outside Event AuthCall Answer) (i : Nat) (code : String) : Prop :=
  ∃ clientId clientSecret input response, input.code = code ∧
    p.threads[i]? = some ⟨.exchange clientId clientSecret input, .done (some (.ok response))⟩

/-- The request at an index has refreshed a token successfully. -/
def Refreshed (p : Pool State Outside Event AuthCall Answer) (i : Nat) (value : String) : Prop :=
  ∃ clientId clientSecret response,
    p.threads[i]? = some ⟨.refresh clientId clientSecret value, .done (some (.ok response))⟩

/-- In every run a saved request yields at most one code, a code at most one
    successful exchange and one family, a refresh token at most one successful
    refresh, and a family has at most one live active token. -/
theorem grants_used_once (deps : Deps) (hinj : Function.Injective deps.keyOf) (now : Int)
    (db : Identity) (p : Pool State Outside Event AuthCall Answer)
    (h : Reachable (authSystem deps) anyStep (State.start now db) p) :
    (∀ rid, p.trace.countP (codeFor rid) ≤ 1) ∧
    (∀ code i j, Exchanged p i code → Exchanged p j code → i = j) ∧
    (∀ code, p.trace.countP (familyFor code) ≤ 1) ∧
    (∀ value i j, Refreshed p i value → Refreshed p j value → i = j) ∧
    ∀ familyId key key' t t',
      Ttl.get p.store.refreshTokens p.store.now key = some t →
      Ttl.get p.store.refreshTokens p.store.now key' = some t' →
      t.familyId = familyId → t'.familyId = familyId →
      t.status = .active → t'.status = .active → key = key' := by
  have hok := poolOk hinj h
  have hinv : ∃ R, Inv deps R p.store p.trace := by
    rcases hok with ⟨rs, _, hinv⟩
    exact ⟨_, hinv⟩
  rcases hinv with ⟨R, hinv⟩
  refine ⟨?_, ?_, ?_, ?_, ?_⟩
  -- The codes of a request are counted under the key of the request.
  · intro rid
    refine (List.countP_mono_left fun y _ hy => ?_).trans (hinv.codes (deps.keyOf rid))
    rcases y with ⟨c, e⟩
    cases e with
    | codeStored rid' key =>
        cases rid' with
        | none => cases hy
        | some rid' => exact decide_eq_true (congrArg deps.keyOf (of_decide_eq_true hy))
    | _ => cases hy
  -- Two exchanges of a code would both end with the right of that code.
  · rintro code i j ⟨_, _, input, response, rfl, hi⟩ ⟨_, _, input', response', hcode, hj⟩
    by_contra hij
    rcases finished_two hok hij hi hj with ⟨r, r', F, hpost, hpost', hboth⟩
    have hright := hpost' response' rfl
    rw [hcode] at hright
    exact hboth.exclusive.not_both (hpost response rfl) hright
  · intro code
    refine (List.countP_mono_left fun y _ hy => ?_).trans (hinv.families (deps.keyOf code))
    rcases y with ⟨c, e⟩
    cases e with
    | tokenStored f key =>
        cases c with
        | exchange clientId clientSecret input =>
            exact decide_eq_true (congrArg deps.keyOf (of_decide_eq_true hy))
        | _ => cases hy
    | _ => cases c <;> cases hy
  -- Two refreshes with a token would both end with the right of that token.
  · rintro value i j ⟨_, _, response, hi⟩ ⟨_, _, response', hj⟩
    by_contra hij
    rcases finished_two hok hij hi hj with ⟨r, r', F, hpost, hpost', hboth⟩
    exact hboth.exclusive.not_both (hpost response rfl) (hpost' response' rfl)
  · intro f key key' t t' ht ht' hf hf' hactive hactive'
    rcases get_eq_some.mp ht with ⟨e, he, _, rfl⟩
    rcases get_eq_some.mp ht' with ⟨e', he', _, rfl⟩
    exact hinv.one f key key' ⟨e, he, hf, hactive⟩ ⟨e', he', hf', hactive'⟩

/-- A login for a saved request, the exchange of its code and two refreshes at
    once with the same token. -/
def refreshTwice : Moves :=
  [.spawn (.authorize crmParams none browser)] ++ turns 0 2 ++
  [.run 0 (.random rid1)] ++ turns 0 1 ++
  [.spawn (.postLogin ⟨"alice@example.com", "password"⟩ browser rid1)] ++ turns 1 1 ++
  [.run 1 (.authenticated (.ok (.totpRequired "session" "alice"))),
    .run 1 (.random pendingId1)] ++ turns 1 1 ++
  [.spawn (.postChallenge pendingId1 "123456" none browser)] ++ turns 2 1 ++
  [.run 2 (.totp (.ok ⟨"alice-sub", "alice@example.com", none, cognitoTokens⟩))] ++
  turns 2 5 ++
  [.run 2 (.random cookie1), .run 2 (.random sid1), .run 2 (.random "iv")] ++ turns 2 6 ++
  [.run 2 (.audit "event" true)] ++ turns 2 9 ++ [.run 2 (.random code1)] ++ turns 2 7 ++
  exchangeMoves 3 code1 family1 refresh1 jti1 ++
  [.spawn (.refresh "crm" "crm-secret" refresh1),
    .spawn (.refresh "crm" "crm-secret" refresh1)] ++
  turns 4 2 ++ turns 5 2 ++ turns 4 10 ++ [.run 4 (.random refresh2)] ++ turns 4 3 ++
  [.run 4 (.random jti2)] ++ turns 4 1

theorem refreshed_twice_used_once : ∃ p,
    Reachable (authSystem smallDeps) anyStep smallStart p ∧
      p.trace.countP (codeFor rid1) = 1 ∧ p.trace.countP (familyFor code1) = 1 ∧
      p.threads.length = 6 ∧ (p.threads.all fun t => t.prog.answer.isSome) = true ∧
      ∀ i j, Refreshed p i refresh1 → Refreshed p j refresh1 → i = j := by
  rcases reachable_of_play_any (authSystem smallDeps) anyStep smallStart refreshTwice
      (fun p => decide (p.trace.countP (codeFor rid1) = 1 ∧
        p.trace.countP (familyFor code1) = 1 ∧ p.threads.length = 6 ∧
        (p.threads.all fun t => t.prog.answer.isSome) = true))
      (by decide +kernel) with ⟨p, hp, htest⟩
  rcases of_decide_eq_true htest with ⟨hcode, hfamily, hlength, hdone⟩
  exact ⟨p, hp, hcode, hfamily, hlength, hdone,
    (grants_used_once smallDeps smallDeps_keyOf_injective 1000 smallIdentity p hp).2.2.2.1
      refresh1⟩

end Sandbox.Auth.OneShot
