import Sandbox.Shared.Buffer
import Sandbox.Shared.Text

/-!
# Hashes of Client Secrets

A client may have several secrets, of which only the hashes are stored. A hash
names its algorithm, with the digest behind it in base64url. Checking a secret
compares digests, so the digest may be spelled in any way that base64url reads.

## Main definitions

* `Sha256`: The digest, a parameter.
* `hashSecret`, `verifySecret`, `verifySecretAgainstAny`: The functions of the
  package.
* `IsHashOf`: A stored text names the digest of a secret.

## Theorems

* `verifySecret_iff`: The check finds the hashes of the secret.
* `isHashOf_hashSecret_iff`: Of the hashes that are written, that is the one.
-/

namespace Sandbox

open Radix Encoding

section Source

/-- `createHash("sha256").update(data).digest()` -/
structure Sha256 where
  digest : List Nat → List Nat
  below : ∀ data, Below 8 (digest data)
  length : ∀ data, (digest data).length = 32

def ALGORITHM : String := "sha256"

/-- The comparison throws for buffers of different lengths. -/
def timingSafeEqual (a b : List Nat) (_ : a.length = b.length) : Bool := a == b

variable (H : Sha256)

def hashSecret (secret : String) : String :=
  join '$' [ALGORITHM, toBase64Url (H.digest (fromUtf8 secret))]

def verifySecret (secret stored : String) : Bool :=
  match split '$' stored with
  | [algorithm, hashPart] =>
      if algorithm ≠ ALGORITHM then false
      else
        let expected := fromBase64 hashPart
        let actual := H.digest (fromUtf8 secret)
        if h : actual.length = expected.length then timingSafeEqual actual expected h else false
  | _ => false

def verifySecretAgainstAny (secret : String) (stored : List String) : Bool :=
  stored.any (verifySecret H secret ·)

end Source

variable {H : Sha256} {secret : String}

/-- A stored text names the digest of a secret. -/
def IsHashOf (H : Sha256) (secret stored : String) : Prop :=
  ∃ hashPart, split '$' stored = [ALGORITHM, hashPart] ∧
    fromBase64 hashPart = H.digest (fromUtf8 secret)

/-- The check finds the hashes of the secret. -/
theorem verifySecret_iff {stored : String} :
    verifySecret H secret stored = true ↔ IsHashOf H secret stored := by
  unfold verifySecret IsHashOf
  constructor
  · intro h
    split at h
    · next algorithm hashPart hsplit =>
        split at h
        · cases h
        · next halgorithm =>
            dsimp only at h
            -- Digests are compared only if they are of one length.
            split at h
            · exact ⟨hashPart, by rw [hsplit, not_not.mp halgorithm], (beq_iff_eq.mp h).symm⟩
            · cases h
    · cases h
  · rintro ⟨hashPart, hsplit, hdigest⟩
    rw [hsplit]
    dsimp only
    rw [if_neg (not_not.mpr rfl), dif_pos (by rw [hdigest])]
    exact beq_iff_eq.mpr hdigest.symm

theorem verifySecretAgainstAny_iff {stored : List String} :
    verifySecretAgainstAny H secret stored = true ↔ ∃ hash ∈ stored, IsHashOf H secret hash := by
  unfold verifySecretAgainstAny
  rw [List.any_eq_true]
  exact exists_congr fun hash => and_congr_right fun _ => verifySecret_iff

theorem split_hashSecret (H : Sha256) (secret : String) :
    split '$' (hashSecret H secret) = [ALGORITHM, toBase64Url (H.digest (fromUtf8 secret))] := by
  refine split_join (List.cons_ne_nil _ _) ?_
  intro part hpart
  rcases List.mem_pair.mp hpart with rfl | rfl
  · decide
  · exact notMem_toBase64Url (by decide) _

theorem isHashOf_hashSecret (H : Sha256) (secret : String) :
    IsHashOf H secret (hashSecret H secret) :=
  ⟨_, split_hashSecret H secret, fromBase64_toBase64Url (H.below _)⟩

/-- Among the hashes that are written, a secret has one. -/
theorem isHashOf_hashSecret_iff {other : String} :
    IsHashOf H secret (hashSecret H other) ↔ hashSecret H other = hashSecret H secret := by
  constructor
  · rintro ⟨hashPart, hsplit, hdigest⟩
    rw [split_hashSecret] at hsplit
    obtain rfl : toBase64Url (H.digest (fromUtf8 other)) = hashPart :=
      (List.cons.inj (List.cons.inj hsplit).2).1
    rw [fromBase64_toBase64Url (H.below _)] at hdigest
    unfold hashSecret
    rw [hdigest]
  · intro heq
    rw [heq]
    exact isHashOf_hashSecret H secret

end Sandbox
