import Sandbox.Auth.PendingLogin
import Sandbox.Interleave.Effects
import Sandbox.Interleave.Late

/-!
# What Happens to Pending Records

A pending record is written by the login that creates it and by a
registration that takes a new secret; both writes start its time anew. A
refused code is counted by an update, which keeps the time, and below the
limit only. Everything else a login does to pending records is to delete
them.

A call whose record is gone ends at its first step.

## Main definitions

* `PendingStep`: What an action may do to the pending records.
* `MfaCall.expired`, `MfaCall.Succeeds`: How a call may end.

## Theorems

* `effects_login`, `effects_mfa`: What the programs do.
* `PendingStep.entry`: A record that was not saved keeps its end.
* `PendingStep.not_stored`: A record that is gone stays gone.
* `step_expired`: A call whose record is gone ends at its first step.
-/

namespace Sandbox.Auth.PendingLogin

open Interleave Ttl

/-- The directory has answered. -/
def fromDirectory : Event → Bool
  | .totpResponded _ | .softwareTokenAssociated _ | .softwareTokenVerified _ | .totpEnabled _ =>
      true
  | _ => false

/-- What an action does to the pending records: nothing, or nothing but a
    question to the directory, or it saves one, counts a refusal or deletes
    one. -/
inductive PendingStep (deps : Deps) (saving : Prop) (s : State) : Option Event → State → Prop
  | aside {e : Option Event} {s' : State} (hevent : ∀ x, e = some x → x.field ≠ .mfaPending)
      (hrecords : s'.mfaPending = s.mfaPending) (hnow : s'.now = s.now) :
      PendingStep deps saving s e s'
  | asked {x : Event} (hx : fromDirectory x = true) : PendingStep deps saving s (some x) s
  | saved (hsaving : saving) (pendingId : String) (pending : MfaPending) :
      PendingStep deps saving s (some (.pendingSaved pendingId))
        { s with
          mfaPending :=
            Ttl.set s.mfaPending s.now (deps.keyOf pendingId) pending mfaPendingTtl }
  | counted (pendingId username cognitoSession rid : String) {attempts : Nat}
      (hlt : attempts < mfaMaxAttempts) :
      PendingStep deps saving s none
        { s with
          mfaPending :=
            (Ttl.update s.mfaPending s.now (deps.keyOf pendingId)
              (.totpChallenge username cognitoSession rid attempts)).2 }
  | dropped (pendingId : String) (accepted : Bool) :
      PendingStep deps saving s (some (.pendingDeleted pendingId accepted))
        { s with mfaPending := Ttl.delete s.mfaPending (deps.keyOf pendingId) }

section Programs

variable {deps : Deps} {saving : Prop} {α : Type} {pendingId code : String}
  {environment : RequestEnvironment}

/-- A program on other fields leaves the pending logins. -/
theorem effects_aside {fs : List Field} {p : AuthProg α} (hp : Touches fs p)
    (hfs : .mfaPending ∉ fs) : Effects (PendingStep deps saving) p := by
  refine effects_mono (effects_within hp) ?_
  rintro s e s' ⟨hch, hevent⟩
  exact .aside (fun x hx hfield => hfs (hfield ▸ hevent x hx)) (hch.same .mfaPending hfs) hch.now

theorem effects_audit (subject : AuditSubject) (detail : AuditDetail) :
    Effects (PendingStep deps saving) (recordAudit subject detail) :=
  effects_aside touches_recordAudit (by decide)

/-- A question to the directory. -/
theorem effects_asked {reply : Type} {event : reply → Event}
    {run : Outside → State → Option (reply × State)}
    (hrun : ∀ i s b s', run i s = some (b, s') → s' = s)
    (hevent : ∀ b, fromDirectory (event b) = true) :
    Effects (PendingStep deps saving)
        (.act (fun b => some (event b)) run .done : AuthProg reply) := by
  refine effects_act fun i s b s' h => ?_
  rw [hrun i s b s' h]
  exact .asked (hevent b)

theorem effects_savePending (hsaving : saving) (pending : MfaPending) :
    Effects (PendingStep deps saving) (savePending deps pendingId pending) :=
  effects_logged fun _ => .saved hsaving pendingId pending

theorem effects_deletePending (accepted : Bool) :
    Effects (PendingStep deps saving) (deletePending deps pendingId accepted) :=
  effects_logged fun _ => .dropped pendingId accepted

theorem effects_finishLogin (authenticated : CognitoAuthenticated) (method : MfaMethod) :
    Effects (PendingStep deps saving) (finishLogin deps authenticated environment method) :=
  effects_aside touches_finishLogin (by decide)

/-- A refusal is counted below the limit only. -/
theorem effects_refuseTotpCode (username cognitoSession rid : String) (attempts : Nat) :
    Effects (PendingStep deps saving)
      (refuseTotpCode deps pendingId username cognitoSession rid attempts environment) := by
  refine effects_bind (effects_audit _ _) fun _ => ?_
  split
  · exact effects_bind (effects_deletePending _) fun _ => effects_pure _
  · next hlt =>
      refine effects_bind (effects_atomic fun s => ?_) fun _ => effects_pure _
      exact .counted pendingId username cognitoSession rid (Nat.lt_of_not_ge hlt)

/-- A challenge counts a failure or removes its record. -/
theorem effects_completeTotpChallenge :
    Effects (PendingStep deps saving) (completeTotpChallenge deps pendingId code environment) := by
  refine effects_bind (effects_read fun s => .aside nofun rfl rfl) fun pending => ?_
  split
  · refine effects_bind (effects_asked (fun i s b s' h => ?_) fun _ => rfl) fun responded => ?_
    · split at h
      · cases h
        rfl
      · cases h
    · split
      · exact effects_bind (effects_refuseTotpCode _ _ _ _) fun _ => effects_pure _
      · exact effects_bind (effects_deletePending _) fun _ => effects_pure _
      · refine effects_bind (effects_deletePending _) fun _ => ?_
        refine effects_bind (effects_finishLogin _ _) fun success => ?_
        cases success <;> exact effects_pure _
  · exact effects_pure _

/-- An enrolment that verifies removes its record. -/
theorem effects_verifySetup (sub email : String) (name : Option String) (rid : String)
    (tokens : CognitoTokens) :
    Effects (PendingStep deps saving)
      (verifySetup deps pendingId code sub email name rid tokens environment) := by
  refine effects_bind (effects_asked (fun i s b s' h => ?_) fun _ => rfl) fun verified => ?_
  · split at h
    · cases h
      rfl
    · cases h
  · split
    · exact effects_bind (effects_audit _ _) fun _ => effects_pure _
    · exact effects_bind (effects_deletePending _) fun _ => effects_pure _
    · refine effects_bind (effects_asked (fun i s b s' h => ?_) fun _ => rfl) fun enabled => ?_
      · split at h
        · cases h
          rfl
        · cases h
      · split
        · exact effects_bind (effects_deletePending _) fun _ => effects_pure _
        -- The record is removed before the login is finished.
        · refine effects_bind (effects_deletePending _) fun _ => ?_
          refine effects_bind (effects_finishLogin _ _) fun success => ?_
          cases success with
          | none => exact effects_pure _
          | some success => exact effects_bind (effects_audit _ _) fun _ => effects_pure _

theorem effects_completeTotpSetup :
    Effects (PendingStep deps saving) (completeTotpSetup deps pendingId code environment) := by
  refine effects_bind (effects_read fun s => .aside nofun rfl rfl) fun pending => ?_
  split
  · refine effects_bind (effects_read fun s => .aside nofun rfl rfl) fun now => ?_
    split
    · exact effects_pure _
    · split
      · exact effects_pure _
      · split
        · exact effects_pure _
        · exact effects_verifySetup _ _ _ _ _
  · exact effects_pure _

/-- A new secret is saved with a new time to live. -/
theorem effects_associateSecret (hsaving : saving) (sub email : String) (name : Option String)
    (encryptedTokens rid : String) (hadSecret : Bool) (now : Int) :
    Effects (PendingStep deps saving)
      (associateSecret deps pendingId sub email name encryptedTokens rid hadSecret now) := by
  unfold associateSecret
  split
  · exact effects_pure _
  · refine effects_bind (effects_asked (fun i s b s' h => ?_) fun _ => rfl) fun associated => ?_
    · split at h
      · cases h
        rfl
      · cases h
    · cases associated with
      | error e => exact effects_pure _
      -- The audit entry and the sealing come before the record is saved.
      | ok secret =>
          refine effects_bind ?_ fun _ => ?_
          · split
            · exact effects_audit _ _
            · exact effects_pure _
          · refine effects_bind (effects_aside touches_randomIv (List.not_mem_nil)) fun iv => ?_
            exact effects_bind (effects_savePending hsaving _) fun _ => effects_pure _

/-- Beginning an enrolment may save its record anew. -/
theorem effects_beginTotpSetup (hsaving : saving) (renew : Bool) :
    Effects (PendingStep deps saving) (beginTotpSetup deps pendingId renew) := by
  refine effects_bind (effects_read fun s => .aside nofun rfl rfl) fun pending => ?_
  split
  · refine effects_bind (effects_read fun s => .aside nofun rfl rfl) fun now => ?_
    split
    · split
      · exact effects_pure _
      · exact effects_associateSecret hsaving _ _ _ _ _ _ _
    · exact effects_associateSecret hsaving _ _ _ _ _ _ _
  · exact effects_pure _

/-- Every call on a pending login makes these steps alone. -/
theorem effects_mfa (hsaving : saving) (call : MfaCall) :
    Effects (PendingStep deps saving) ((mfaSystem deps).body call) := by
  cases call with
  | challenge pendingId code environment => exact effects_completeTotpChallenge
  | setup pendingId code environment => exact effects_completeTotpSetup
  | «begin» pendingId renew => exact effects_beginTotpSetup hsaving renew

theorem effects_storePending (hsaving : saving) (pending : MfaPending) :
    Effects (PendingStep deps saving) (storePending deps pending) := by
  refine effects_bind (effects_aside touches_randomToken (List.not_mem_nil)) fun pendingId => ?_
  exact effects_bind (effects_savePending hsaving _) fun _ => effects_pure _

theorem effects_login (hsaving : saving) (credentials : CognitoCredentials) (rid : String) :
    Effects (PendingStep deps saving) (login deps credentials environment rid) := by
  refine effects_bind ?_ fun outcome => ?_
  · refine effects_ask fun i s b s' h => ?_
    split at h
    · cases h
      exact .aside nofun rfl rfl
    · cases h
  · split
    · exact effects_bind (effects_audit _ _) fun _ => effects_pure _
    · exact effects_bind (effects_storePending hsaving _) fun _ => effects_pure _
    · refine effects_bind (effects_aside touches_randomIv (List.not_mem_nil)) fun iv => ?_
      exact effects_bind (effects_storePending hsaving _) fun _ => effects_pure _

end Programs

section Records

variable {deps : Deps} {saving : Prop} {s s' : State} {e : Option Event} {pendingId : String}

theorem PendingStep.now (h : PendingStep deps saving s e s') : s'.now = s.now := by
  cases h with
  | aside _ _ hnow => exact hnow
  | _ => rfl

/-- A record that was not saved was there before, with the same end. It is
    what it was, or it counts refusals below the limit. -/
theorem PendingStep.entry {k : String} {new : Entry MfaPending}
    (h : PendingStep deps saving s e s')
    (hsave : ∀ pendingId, e = some (.pendingSaved pendingId) → deps.keyOf pendingId ≠ k)
    (hnew : s'.mfaPending k = some new) :
    ∃ old, s.mfaPending k = some old ∧ new.expiresAt = old.expiresAt ∧
      (new = old ∨ ∃ username cognitoSession rid attempts, attempts < mfaMaxAttempts ∧
        new.value = .totpChallenge username cognitoSession rid attempts) := by
  cases h with
  | aside _ hrecords _ => exact ⟨new, hrecords ▸ hnew, rfl, .inl rfl⟩
  | asked _ => exact ⟨new, hnew, rfl, .inl rfl⟩
  | saved _ pendingId pending =>
      have hne : k ≠ deps.keyOf pendingId := (hsave pendingId rfl).symm
      exact ⟨new, (put_of_ne _ _ hne).symm.trans hnew, rfl, .inl rfl⟩
  -- A failure is counted within the time that was left.
  | @counted pendingId username cognitoSession rid attempts hlt =>
      unfold Ttl.update at hnew
      cases hlive : live s.mfaPending s.now (deps.keyOf pendingId) with
      | none =>
          rw [hlive] at hnew
          exact ⟨new, hnew, rfl, .inl rfl⟩
      | some old =>
          rw [hlive] at hnew
          rcases put_eq_some hnew with ⟨rfl, rfl⟩ | ⟨_, hold⟩
          · exact ⟨old, (live_eq_some.mp hlive).1, rfl, .inr ⟨_, _, _, _, hlt, rfl⟩⟩
          · exact ⟨new, hold, rfl, .inl rfl⟩
  | dropped pendingId accepted => exact ⟨new, (delete_eq_some hnew).2, rfl, .inl rfl⟩

/-- A record that cannot be read cannot be read after a step that does not
    save it. -/
theorem PendingStep.not_stored (h : PendingStep deps saving s e s')
    (hsave : ∀ id, e = some (.pendingSaved id) → deps.keyOf id ≠ deps.keyOf pendingId)
    (hnot : ¬ Stored deps s pendingId) : ¬ Stored deps s' pendingId := by
  intro hstored
  rcases Option.isSome_iff_exists.mp hstored with ⟨pending, hget⟩
  rcases get_eq_some.mp hget with ⟨new, hnew, hlt, rfl⟩
  rcases h.entry hsave hnew with ⟨old, hold, hends, _⟩
  rw [hends, h.now] at hlt
  have hread : Ttl.get s.mfaPending s.now (deps.keyOf pendingId) = some old.value :=
    get_eq_some.mpr ⟨old, hold, hlt, rfl⟩
  exact hnot (Option.isSome_iff_exists.mpr ⟨_, hread⟩)

/-- Without saving, no event says that a record was saved. -/
theorem PendingStep.not_saved {x : Event} (h : PendingStep deps False s (some x) s') (id : String) :
    x ≠ .pendingSaved id := by
  rintro rfl
  cases h with
  | aside hevent _ _ => exact hevent _ rfl rfl
  | asked hx => cases hx
  | saved hsaving _ _ => exact hsaving

/-- Time and operators bring no record back. -/
theorem not_stored_of_change {t : Change} (h : t.apply s = some s')
    (hnot : ¬ Stored deps s pendingId) : ¬ Stored deps s' pendingId := by
  rcases apply_cases h with ⟨seconds, rfl⟩ | ⟨db, _, _, rfl⟩
  · have hle : s.now ≤ s.now + seconds := by omega
    exact not_stored (s := s) (sparing_later _ hle) hnot
  · exact hnot

end Records

section Expired

variable {deps : Deps} {s s' : State} {e : Option Event}

/-- The refusal of a call whose record is gone. -/
def MfaCall.expired : (call : MfaCall) → call.Answer
  | .challenge .. => .error .expired
  | .setup .. => .error .expired
  | .begin .. => .error .expired

/-- A call gets what it asks for. -/
def MfaCall.Succeeds : (call : MfaCall) → call.Answer → Prop
  | .challenge .., a => ∃ completed, a = .ok completed
  | .setup .., a => ∃ completed, a = .ok completed
  | .begin .., a => ∃ setup, a = .ok setup

/-- The answer for an expired record is no success. -/
theorem MfaCall.not_succeeds_expired (call : MfaCall) : ¬ call.Succeeds call.expired := by
  cases call <;> rintro ⟨x, hx⟩ <;> cases hx

/-- A call that has not begun is not answered. -/
theorem body_ne_done (call : MfaCall) (a : call.Answer) : (mfaSystem deps).body call ≠ .done a := by
  cases call <;> exact nofun

/-- A call whose record is gone ends at its first step. -/
theorem step_expired {call : MfaCall} {p : AuthProg call.Answer}
    (hnot : ¬ Stored deps s call.pendingId)
    (h : Step s ((mfaSystem deps).body call) e s' p) :
    e = none ∧ p = .done call.expired := by
  have hget : Ttl.get s.mfaPending s.now (deps.keyOf call.pendingId) = none :=
    Option.not_isSome_iff_eq_none.mp hnot
  -- Each call looks its record up first, and finds none.
  cases call with
  | challenge pendingId code environment =>
      rcases step_read_bind h with ⟨he, _, hp⟩
      refine ⟨he, hp.trans ?_⟩
      change Ttl.get s.mfaPending s.now (deps.keyOf pendingId) = none at hget
      dsimp only [mfaPending]
      rw [hget]
      rfl
  | setup pendingId code environment =>
      rcases step_read_bind h with ⟨he, _, hp⟩
      refine ⟨he, hp.trans ?_⟩
      change Ttl.get s.mfaPending s.now (deps.keyOf pendingId) = none at hget
      dsimp only [mfaPending]
      rw [hget]
      rfl
  | «begin» pendingId renew =>
      rcases step_read_bind h with ⟨he, _, hp⟩
      refine ⟨he, hp.trans ?_⟩
      change Ttl.get s.mfaPending s.now (deps.keyOf pendingId) = none at hget
      dsimp only [mfaPending]
      rw [hget]
      rfl

end Expired

end Sandbox.Auth.PendingLogin
