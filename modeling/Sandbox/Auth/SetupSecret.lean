import Sandbox.Auth.CognitoTokens
import Sandbox.Auth.PendingLogin

/-!
# The Secret of a Registration

A registration page shows a secret, and the user directory verifies codes for
the secret it handed out last. Taking a secret and storing it are two steps,
so two pages that are loaded at once may take two secrets and store them in
the other order; then every later page shows a secret that the directory has
forgotten.

If no secret is taken while another is on its way to the record, then a call
that has taken one holds the directory's secret until it has stored it. Once
all calls are finished, the record's secret is the directory's.

## Main definitions

* `setupPages`: Any number of pages of one registration.
* `current`: The secret the directory verifies codes for.
* `oneAtATime`: The condition on the secrets taken in a run.

## Theorems

* `unseals`: Secrets are read as they were sealed.
* `exec_page`: A page shows the stored secret until it expires.
* `shown_secret_current`: Afterwards both sides have the same secret.
-/

namespace Sandbox.Auth.SetupSecret

open Interleave Ttl PendingLogin

/-- Any number of pages of one registration; a page may ask for a new secret. -/
def setupPages (deps : Deps) (pendingId : String) :
    System State Outside Event Bool Change fun _ => Except MfaFlowError TotpSetup where
  body renew := beginTotpSetup deps pendingId renew
  env := Change.apply

abbrev History : Type := List (Bool × Event)

/-- The directory has handed out a secret. -/
def takenSecret : Event → Option String
  | .softwareTokenAssociated (.ok secret) => some secret
  | _ => none

def isSave : Event → Bool
  | .pendingSaved _ => true
  | _ => false

/-- The secret the directory verifies codes for: each that it hands out
    replaces the one before. -/
def current (initial : Option String) (h : History) : Option String :=
  (h.findSome? fun x => takenSecret x.2).or initial

def taken (h : History) : Nat :=
  h.countP fun x => (takenSecret x.2).isSome

def stored (h : History) : Nat :=
  h.countP fun x => isSave x.2

/-- The secret in a pending record. -/
def secretOf (deps : Deps) : MfaPending → Option String
  | .totpSetup _ _ _ _ _ encryptedSecret _ => encryptedSecret.bind deps.unsealSecret
  | .totpChallenge .. => none

/-- Secrets are read as they were sealed, if they are sealed by the functions of
    the source under a key whose id has no dot. -/
theorem unseals {deps : Deps} {A : Aead} {keys : EncryptionKeys} {ivOf : String → Iv}
    (hdistinct : Tables.Unique (fun k => some k.id) keys.list)
    (hdot : '.' ∉ keys.first.id.toList)
    (hsealSecret : ∀ iv secret, deps.sealSecret iv secret = sealSecret A keys (ivOf iv) secret)
    (hunsealSecret : deps.unsealSecret = unsealSecret A keys) (iv secret : String) :
    deps.unsealSecret (deps.sealSecret iv secret) = some secret := by
  rw [hunsealSecret, hsealSecret]
  exact unsealSecret_sealSecret hdistinct hdot (ivOf iv) secret

/-- A secret is taken when all that were taken before are stored. -/
def oneAtATime : Guard State Event Bool :=
  fun _ h e => (takenSecret e).isSome = true → stored h = taken h

instance (s : State) (h : History) (e : Event) : Decidable (oneAtATime s h e) :=
  inferInstanceAs (Decidable (_ → _))

/-- What is taken and not stored is held by a call, and it is the directory's
    secret. If nothing is, the record's secret is. -/
structure Inv (deps : Deps) (pendingId : String) (initial : Option String) (R : Multiset String)
    (s : State) (h : History) : Prop where
  outstanding : R.card + stored h = taken h
  few : R.card ≤ 1
  held : ∀ secret ∈ R, current initial h = some secret
  agrees : R = 0 → ∀ pending, Ttl.get s.mfaPending s.now (deps.keyOf pendingId) = some pending →
    secretOf deps pending = current initial h

def protocol (deps : Deps) (pendingId : String) (initial : Option String) :
    Protocol (Multiset String) State Event Bool where
  guard := oneAtATime
  Inv := Inv deps pendingId initial

section Programs

variable {deps : Deps} {pendingId : String} {initial : Option String} {R : Multiset String}
  {s s' : State} {h : History} {page : Bool} {α : Type}

theorem current_cons (x : Bool × Event) (h : History) :
    current initial (x :: h) = (takenSecret x.2).or (current initial h) := by
  unfold current
  rw [List.findSome?_cons]
  cases takenSecret x.2 <;> rfl

theorem taken_cons (x : Bool × Event) (h : History) :
    taken (x :: h) = taken h + if (takenSecret x.2).isSome = true then 1 else 0 :=
  List.countP_cons

theorem stored_cons (x : Bool × Event) (h : History) :
    stored (x :: h) = stored h + if isSave x.2 = true then 1 else 0 :=
  List.countP_cons

/-- An event that neither takes nor stores a secret. -/
theorem Inv.log {e : Event} (hi : Inv deps pendingId initial R s h) (htaken : takenSecret e = none)
    (hsave : isSave e = false) : Inv deps pendingId initial R s ((page, e) :: h) := by
  have hcurrent : current initial ((page, e) :: h) = current initial h := by
    rw [current_cons, htaken, Option.none_or]
  refine ⟨?_, hi.few, fun secret hmem => ?_, fun hR pending hget => ?_⟩
  · rw [taken_cons, stored_cons]
    dsimp only
    rw [htaken, hsave]
    exact hi.outstanding
  · rw [hcurrent]
    exact hi.held secret hmem
  · rw [hcurrent]
    exact hi.agrees hR pending hget

theorem stable : Stable [.audit] (protocol deps pendingId initial) where
  changes R s s' h hch hi := by
    have hi' : Inv deps pendingId initial R s h := hi
    refine ⟨hi'.outstanding, hi'.few, hi'.held, fun hR pending hget => hi'.agrees hR pending ?_⟩
    rw [← hget, hch.same .mfaPending (by decide), hch.now]
  event R s h page e he hi := by
    have hfield : e.field = .audit := List.mem_singleton.mp he
    refine Inv.log hi ?_ ?_
    · cases e with
      | softwareTokenAssociated reply => cases hfield
      | _ => rfl
    · cases e with
      | pendingSaved id => cases hfield
      | _ => rfl

/-- A secret is taken when no other is on its way, and then it is held. -/
theorem safe_associate (accessToken : String) :
    Safe (protocol deps pendingId initial) page (associateSoftwareToken accessToken) 0
      fun reply r => r = match reply with
        | .ok secret => {secret}
        | .error _ => (0 : Multiset String) := by
  intro F s h i reply s' hinv hrun hguard
  -- The directory answers without a change of the stores.
  have hs : s' = s := by
    dsimp only at hrun
    split at hrun
    · cases hrun
      rfl
    · cases hrun
  subst hs
  have hi : Inv deps pendingId initial F s' h := by
    rw [← zero_add F]
    exact hinv
  cases reply with
  | error e =>
      refine ⟨0, ?_, rfl⟩
      rw [zero_add]
      exact Inv.log hi rfl rfl
  | ok secret =>
      -- The schedule lets a secret be associated only when none is unsaved.
      have hguard' : stored h = taken h := hguard _ rfl rfl
      have hnone : F.card = 0 := by
        have hout := hi.outstanding
        omega
      have hF : F = 0 := Multiset.card_eq_zero.mp hnone
      subst hF
      refine ⟨{secret}, ?_, rfl⟩
      rw [add_zero]
      change Inv deps pendingId initial {secret} s'
        ((page, .softwareTokenAssociated (.ok secret)) :: h)
      refine ⟨?_, Nat.le_refl 1, fun x hx => ?_, fun hR => ?_⟩
      · rw [taken_cons, stored_cons, ← hguard', Multiset.card_singleton, Nat.add_comm]
        rfl
      · rw [current_cons, Multiset.mem_singleton.mp hx]
        rfl
      · exact absurd hR (Multiset.singleton_ne_zero secret)

/-- The secret that is held is stored. -/
theorem safe_save {secret : String} {pending : MfaPending}
    (hsecret : secretOf deps pending = some secret) :
    Safe (protocol deps pendingId initial) page (savePending deps pendingId pending) {secret}
      fun _ r => r = 0 := by
  refine safe_logged fun F s h hinv _ => ⟨0, ?_, rfl⟩
  have hi : Inv deps pendingId initial ({secret} + F) s h := hinv
  have hcurrent := hi.held secret (Multiset.mem_add.mpr (.inl (Multiset.mem_singleton_self _)))
  -- No other call has an unsaved secret.
  have hnone : F.card = 0 := by
    have hfew := hi.few
    rw [Multiset.card_add, Multiset.card_singleton] at hfew
    omega
  have hF : F = 0 := Multiset.card_eq_zero.mp hnone
  subst hF
  -- The secret that is saved is the one last associated.
  have hsame : current initial ((page, .pendingSaved pendingId) :: h) = some secret := by
    rw [current_cons]
    exact hcurrent
  rw [add_zero]
  refine ⟨?_, Nat.zero_le 1, fun x hx => absurd hx (Multiset.notMem_zero x),
      fun _ pending' hget => ?_⟩
  · have hout := hi.outstanding
    rw [add_zero, Multiset.card_singleton] at hout
    rw [taken_cons, stored_cons, Multiset.card_zero, Nat.zero_add, Nat.add_comm]
    exact hout
  · have hset := (get_set_self s.mfaPending s.now (deps.keyOf pendingId) pending
      (by decide : 0 < mfaPendingTtl)).symm.trans hget
    cases hset
    rw [hsame]
    exact hsecret

/-- A new secret is taken and stored. -/
theorem safe_associateSecret (hseal : ∀ iv secret, deps.unsealSecret (deps.sealSecret iv secret) =
      some secret) (sub email : String) (name : Option String)
    (encryptedTokens rid : String) (hadSecret : Bool) (now : Int) :
    Safe (protocol deps pendingId initial) page
      (associateSecret deps pendingId sub email name encryptedTokens rid hadSecret now) 0
      fun _ r => r = 0 := by
  unfold associateSecret
  split
  · exact safe_pure rfl
  · refine safe_seq (safe_associate _) ?_
    rintro associated _ rfl
    cases associated with
    | error e => exact safe_pure rfl
    -- Between the association and the save, only the log is written.
    | ok secret =>
        refine safe_seq (safe_touches stable (p := if hadSecret = true then _ else _) ?_ _) ?_
        · split
          · exact touches_recordAudit
          · exact touches_pure _
        · rintro _ _ rfl
          refine safe_seq (safe_touches stable touches_randomIv _) ?_
          rintro iv _ rfl
          refine safe_seq (safe_save (hseal iv secret)) ?_
          rintro _ _ rfl
          exact safe_pure rfl

theorem safe_beginTotpSetup (hseal : ∀ iv secret, deps.unsealSecret (deps.sealSecret iv secret) =
      some secret) (renew : Bool) :
    Safe (protocol deps pendingId initial) page (beginTotpSetup deps pendingId renew) 0
      fun _ r => r = 0 := by
  refine safe_seq (safe_touches stable touches_get 0) ?_
  rintro pending _ rfl
  split
  · refine safe_seq (safe_touches stable touches_nowSeconds 0) ?_
    rintro now _ rfl
    split
    · split
      · exact safe_pure rfl
      · exact safe_associateSecret hseal _ _ _ _ _ _ _
    · exact safe_associateSecret hseal _ _ _ _ _ _ _
  · exact safe_pure rfl

end Programs

section Runs

variable {deps : Deps} {pendingId : String} {initial : Option String} {init : State}
  {p : Pool State Outside Event Bool fun _ => Except MfaFlowError TotpSetup}

/-- Once all calls are finished, the record holds the directory's secret. -/
theorem agrees_of_finished
    (hseal : ∀ iv secret, deps.unsealSecret (deps.sealSecret iv secret) = some secret)
    (hinit : ∀ pending, Ttl.get init.mfaPending init.now (deps.keyOf pendingId) = some pending →
      secretOf deps pending = initial)
    (h : Reachable (setupPages deps pendingId) oneAtATime init p)
    (hfinished : ∀ t ∈ p.threads, ∃ a, t.prog = .done a) {pending : MfaPending}
    (hget : Ttl.get p.store.mfaPending p.store.now (deps.keyOf pendingId) = some pending) :
    secretOf deps pending = current initial p.trace := by
  have hok := poolOk_of_reachable (P := protocol deps pendingId initial)
    (fun page => safe_beginTotpSetup hseal page) ?_ ?_ h
  -- No thread holds a secret any more, so the record has the last one.
  · rcases hok with ⟨rs, hall, hinv⟩
    have hzero := sum_of_finished hall (fun _ _ _ hr => hr) hfinished
    exact Inv.agrees hinv hzero pending hget
  · intro R s h t s' ht hi
    have hi' : Inv deps pendingId initial R s h := hi
    rcases apply_cases ht with ⟨seconds, rfl⟩ | ⟨db, _, _, rfl⟩
    · have hle : s.now ≤ s.now + seconds := by omega
      exact ⟨hi'.outstanding, hi'.few, hi'.held, fun hR pending hget =>
        hi'.agrees hR pending (get_mono hle hget)⟩
    · exact ⟨hi'.outstanding, hi'.few, hi'.held, hi'.agrees⟩
  · exact ⟨rfl, Nat.zero_le 1, fun x hx => absurd hx (Multiset.notMem_zero x), fun _ => hinit⟩

/-- A page shows the stored secret until it expires. -/
theorem exec_page {s s' : State} {es : List Event} {a : Except MfaFlowError TotpSetup}
    {sub email encryptedTokens rid encryptedSecret secret : String} {name : Option String}
    {issuedAt : Int}
    (hget : Ttl.get s.mfaPending s.now (deps.keyOf pendingId) =
      some (.totpSetup sub email name encryptedTokens rid (some encryptedSecret) (some issuedAt)))
    (hsecret : deps.unsealSecret encryptedSecret = some secret)
    (hlive : s.now < issuedAt + totpSetupTtl)
    (h : Exec s (beginTotpSetup deps pendingId false) es a s') :
    a = .ok ⟨email, secret, issuedAt + totpSetupTtl⟩ ∧ es = [] ∧ s' = s := by
  rcases exec_bind h with ⟨pending, s₁, _, _, hload, hrest, rfl⟩
  rcases exec_read hload with ⟨rfl, hpending, rfl⟩
  have hpending' := hpending.trans hget
  subst hpending'
  -- The record has a secret and its time is not over, so the page only reads.
  rcases exec_bind hrest with ⟨now, s₂, _, _, hnow, hrest, rfl⟩
  rcases exec_read hnow with ⟨rfl, rfl, rfl⟩
  rw [Option.bind_some, hsecret] at hrest
  dsimp only at hrest
  rw [if_pos ⟨hlive, rfl⟩] at hrest
  rcases exec_done hrest with ⟨rfl, rfl, rfl⟩
  exact ⟨rfl, rfl, rfl⟩

end Runs

/-- In every run of pages of one registration in which no secret is taken while
    another is on its way to the record: once all calls are finished, the secret
    in the record, if it is there, is the directory's, and that is what every
    page shows that is loaded before it expires and does not ask for a new
    one. -/
theorem shown_secret_current (deps : Deps)
    (hseal : ∀ iv secret, deps.unsealSecret (deps.sealSecret iv secret) = some secret)
    (pendingId : String) (initial : Option String) (init : State)
    (hinit : ∀ pending, Ttl.get init.mfaPending init.now (deps.keyOf pendingId) = some pending →
      secretOf deps pending = initial)
    (p : Pool State Outside Event Bool fun _ => Except MfaFlowError TotpSetup)
    (h : Reachable (setupPages deps pendingId) oneAtATime init p)
    (hfinished : ∀ t ∈ p.threads, ∃ a, t.prog = .done a)
    (sub email encryptedTokens rid : String) (name encryptedSecret : Option String)
    (secretIssuedAt : Option Int)
    (hget : Ttl.get p.store.mfaPending p.store.now (deps.keyOf pendingId) =
      some (.totpSetup sub email name encryptedTokens rid encryptedSecret secretIssuedAt)) :
    encryptedSecret.bind deps.unsealSecret = current initial p.trace ∧
    ∀ issuedAt, secretIssuedAt = some issuedAt → p.store.now < issuedAt + totpSetupTtl →
      ∀ secret, encryptedSecret.bind deps.unsealSecret = some secret →
      ∀ es a s', Exec p.store (beginTotpSetup deps pendingId false) es a s' →
        a = .ok ⟨email, secret, issuedAt + totpSetupTtl⟩ ∧
          current initial p.trace = some secret := by
  have hagrees := agrees_of_finished hseal hinit h hfinished hget
  refine ⟨hagrees, ?_⟩
  rintro issuedAt rfl hlive secret hsecret es a s' hexec
  refine ⟨?_, hagrees.symm.trans hsecret⟩
  -- The page opens the sealed secret that is stored.
  rcases Option.bind_eq_some_iff.mp hsecret with ⟨sealed, rfl, hunseal⟩
  exact (exec_page hget hunseal hlive hexec).1

section Example

/-- A login that waits for a registration. -/
def waiting : State :=
  { smallStart with
    mfaPending := Ttl.set Ttl.empty 1000 (smallDeps.keyOf pendingId1)
      (.totpSetup "dave-sub" "dave@example.com" none sealedTokens "" none none) mfaPendingTtl }

/-- A page that takes a secret, up to its answer. -/
def takeMoves (index : Nat) (secret : String) : List (Move Outside Bool Change) :=
  [.run index (.audit "" false), .run index (.audit "" false), .run index (.secret (.ok secret))]

def storeMoves (index : Nat) : List (Move Outside Bool Change) :=
  [.run index (.random "iv"), .run index (.audit "" false)]

/-- The page is loaded, and a minute later again with a new secret. -/
def renewedMoves : List (Move Outside Bool Change) :=
  [.spawn false] ++ takeMoves 0 "FIRST" ++ storeMoves 0 ++ [.env (.tick 60), .spawn true] ++
    takeMoves 1 "SECOND" ++ List.replicate 2 (.run 1 (.audit "event" true)) ++ storeMoves 1

/-- The page is loaded twice at once. -/
def overlappingMoves : List (Move Outside Bool Change) :=
  [.spawn false, .spawn false] ++ takeMoves 0 "FIRST" ++ takeMoves 1 "SECOND" ++ storeMoves 1 ++
    storeMoves 0

/-- All calls of a pool are finished. -/
def finished (p : Pool State Outside Event Bool fun _ => Except MfaFlowError TotpSetup) : Bool :=
  p.threads.all fun t => t.prog.answer.isSome

theorem done_of_finished {p : Pool State Outside Event Bool fun _ => Except MfaFlowError TotpSetup}
    (h : finished p = true) : ∀ t ∈ p.threads, ∃ a, t.prog = .done a := by
  intro t ht
  rcases Option.isSome_iff_exists.mp (List.all_eq_true.mp h t ht) with ⟨a, ha⟩
  exact ⟨a, eq_done_of_answer ha⟩

/-- The stored secret, if the record is there. -/
def storedSecret (s : State) : Option String :=
  (Ttl.get s.mfaPending s.now (smallDeps.keyOf pendingId1)).bind (secretOf smallDeps)

/-- After a renewal both sides have the new secret. -/
theorem renewed_secret_current :
    ∃ p, Reachable (setupPages smallDeps pendingId1) oneAtATime waiting p ∧
      storedSecret p.store = some "SECOND" ∧ current none p.trace = some "SECOND" := by
  rcases reachable_of_play_any (setupPages smallDeps pendingId1) oneAtATime waiting renewedMoves
    (fun p => finished p && decide (storedSecret p.store = some "SECOND")) (by decide +kernel)
    with ⟨p, hp, htest⟩
  rcases Bool.and_eq_true_iff.mp htest with ⟨hfinished, hsecond⟩
  have hsecret := of_decide_eq_true hsecond
  refine ⟨p, hp, hsecret, ?_⟩
  rcases Option.bind_eq_some_iff.mp hsecret with ⟨pending, hget, hof⟩
  cases pending with
  | totpChallenge username cognitoSession rid attempts => cases hof
  | totpSetup sub email name encryptedTokens rid encryptedSecret secretIssuedAt =>
      have hinit : ∀ pending, Ttl.get waiting.mfaPending waiting.now (smallDeps.keyOf pendingId1) =
          some pending → secretOf smallDeps pending = none := by
        intro pending hpending
        cases hpending
        rfl
      -- The secret of the second call replaced that of the first.
      have hagrees := (shown_secret_current smallDeps (fun _ _ => rfl) pendingId1 none waiting hinit
        p hp (done_of_finished hfinished) sub email encryptedTokens rid name encryptedSecret
        secretIssuedAt hget).1
      exact hagrees.symm.trans hof

/-- Two pages that are loaded at once leave the record with a secret that the
    directory has replaced. -/
theorem overlapping_secrets_differ :
    ∃ p, Reachable (setupPages smallDeps pendingId1) anyStep waiting p ∧
      (∀ t ∈ p.threads, ∃ a, t.prog = .done a) ∧
      storedSecret p.store = some "FIRST" ∧ current none p.trace = some "SECOND" := by
  rcases reachable_of_play_any (setupPages smallDeps pendingId1) anyStep waiting overlappingMoves
    (fun p => finished p && decide (storedSecret p.store = some "FIRST" ∧
      current none p.trace = some "SECOND")) (by decide +kernel) with ⟨p, hp, htest⟩
  rcases Bool.and_eq_true_iff.mp htest with ⟨hfinished, hsecrets⟩
  exact ⟨p, hp, done_of_finished hfinished, of_decide_eq_true hsecrets⟩

end Example

end Sandbox.Auth.SetupSecret
