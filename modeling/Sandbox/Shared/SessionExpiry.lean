import Mathlib.Data.List.Basic

/-!
# Session Expiry

The idle and the absolute limit of a session, shared by the single sign-on
session of the authorization server and the tenant sessions of the services.
Times are epoch seconds.

## Main definitions

* `SessionExpiry`: The two limits.
* `SessionExpiry.remainingTtl`, `SessionExpiry.isExpired`,
  `SessionExpiry.shouldTouch`: What is derived from them.

## Theorems

* `isExpired_mono`: An expired session stays expired.
* `lt_of_not_isExpired`: A session that is not expired is within its limits.
-/

namespace Sandbox

/-- The limits of a session, in seconds. -/
structure SessionExpiry where
  idleSeconds : Int
  absoluteSeconds : Int

namespace SessionExpiry

/-- The least number of seconds between two updates of `lastSeenAt`. -/
def touchIntervalSeconds : Int := 60

/-- Seconds left until the absolute limit, used as the time to live. -/
def remainingTtl (expiry : SessionExpiry) (createdAt now : Int) : Int :=
  createdAt + expiry.absoluteSeconds - now

def isExpired (expiry : SessionExpiry) (createdAt lastSeenAt now : Int) : Bool :=
  lastSeenAt + expiry.idleSeconds ≤ now || expiry.remainingTtl createdAt now ≤ 0

def shouldTouch (lastSeenAt now : Int) : Bool :=
  touchIntervalSeconds ≤ now - lastSeenAt

variable {expiry : SessionExpiry} {createdAt lastSeenAt now now' : Int}

theorem isExpired_iff :
    expiry.isExpired createdAt lastSeenAt now = true ↔
      lastSeenAt + expiry.idleSeconds ≤ now ∨ createdAt + expiry.absoluteSeconds ≤ now := by
  unfold isExpired remainingTtl
  rw [Bool.or_eq_true, decide_eq_true_eq, decide_eq_true_eq]
  omega

/-- A session that is not expired is within both limits. -/
theorem lt_of_not_isExpired (h : expiry.isExpired createdAt lastSeenAt now = false) :
    now < lastSeenAt + expiry.idleSeconds ∧ now < createdAt + expiry.absoluteSeconds := by
  have hnot : ¬ expiry.isExpired createdAt lastSeenAt now = true := by rw [h]; exact nofun
  rw [isExpired_iff] at hnot
  omega

/-- An expired session stays expired. -/
theorem isExpired_mono (hle : now ≤ now')
    (h : expiry.isExpired createdAt lastSeenAt now = true) :
    expiry.isExpired createdAt lastSeenAt now' = true := by
  rw [isExpired_iff] at h ⊢
  omega

end SessionExpiry

end Sandbox
