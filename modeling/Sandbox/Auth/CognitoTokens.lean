import Sandbox.Auth.Domain
import Sandbox.Shared.Encryption

/-!
# Sealed Cognito Tokens

The tokens of Cognito are sealed before they are stored, with the first key of
the configuration. They are opened with any of its keys, so an old key stays in
the list behind a new one. The secret of a registration is sealed in the same
way.

`JSON.stringify` and `JSON.parse` with the schema after it are parameters, since
the expiry is a floating-point number. Opening throws if what was sealed is not
JSON.

## Main definitions

* `sealCognitoTokens`, `unsealCognitoTokens`: The two functions for tokens.
* `sealSecret`, `unsealSecret`: The two functions for secrets.
* `exampleAead`: A cipher that agrees with AES-256-GCM for a key, a vector and
  two plaintexts.

## Theorems

* `unsealSecret_sealSecret`: A secret is read as it was sealed.
* `sealed_opens_iff`: Sealed values and tokens can be opened exactly if the id
  of the key has no dot, and every other text gives an error unless it respells
  a sealed value.
* `sealed_dotted_respelled`: A key whose values are lost, and a text that
  nothing has sealed and that is opened.
-/

namespace Sandbox.Auth

open Radix Encoding Tables

section Source

/-- `encryptionKeys`, which are one or more. -/
structure EncryptionKeys where
  first : EncryptionKey
  others : List EncryptionKey

def EncryptionKeys.list (keys : EncryptionKeys) : List EncryptionKey := keys.first :: keys.others

variable (A : Aead) (stringify : CognitoTokens → String)
  (parse : String → Except Unit (Option CognitoTokens))

def sealCognitoTokens (keys : EncryptionKeys) (iv : Iv) (tokens : CognitoTokens) : String :=
  encrypt A iv (stringify tokens) keys.first

/-- The error is an exception of `JSON.parse`. -/
def unsealCognitoTokens (keys : EncryptionKeys) (sealed : String) :
    Except Unit (Option CognitoTokens) :=
  match decrypt A sealed keys.list with
  | .error _ => .ok none
  | .ok text => parse text

def sealSecret (keys : EncryptionKeys) (iv : Iv) (secret : String) : String :=
  encrypt A iv secret keys.first

def unsealSecret (keys : EncryptionKeys) (sealed : String) : Option String :=
  match decrypt A sealed keys.list with
  | .error _ => none
  | .ok secret => some secret

end Source

/-- A secret is read as it was sealed, if the id of the key has no dot. -/
theorem unsealSecret_sealSecret {A : Aead} {keys : EncryptionKeys}
    (hdistinct : Unique (fun k => some k.id) keys.list) (hdot : '.' ∉ keys.first.id.toList)
    (iv : Iv) (secret : String) :
        unsealSecret A keys (sealSecret A keys iv secret) = some secret := by
  have hmem : keys.first ∈ keys.list := List.mem_cons_self
  unfold unsealSecret sealSecret
  rw [decrypt_encrypt hmem hdistinct hdot]

section Example

/-- The beginning of the key stream for a key and a vector of zeros. -/
def keyStream : List Nat :=
  [206, 167, 64, 61, 77, 96, 107, 110, 7, 78, 197, 211, 186, 243, 157, 24, 114, 96, 3, 202, 55,
    166, 42, 116, 209, 162, 245, 142, 117, 6, 53, 142, 221, 74, 177, 40, 77, 74, 225, 123, 65, 232,
    89, 36, 71, 12, 54, 247, 71, 65, 203, 225, 129, 187, 127, 48, 97, 124, 29, 227, 171, 12, 58, 31]

def mask : List Nat → List Nat → List Nat
  | _, [] => []
  | [], b :: bs => b :: bs
  | k :: ks, b :: bs => (b ^^^ k) :: mask ks bs

theorem mask_mask (ks bs : List Nat) : mask ks (mask ks bs) = bs := by
  induction bs generalizing ks with
  | nil => cases ks <;> rfl
  | cons b bs ih =>
      cases ks with
      | nil => rfl
      | cons k ks =>
          rw [mask, mask, ih, Nat.xor_assoc, Nat.xor_self, Nat.xor_zero]

theorem below_mask {ks bs : List Nat} (hks : Below 8 ks) (hbs : Below 8 bs) :
    Below 8 (mask ks bs) := by
  induction bs generalizing ks with
  | nil =>
      cases ks <;> exact hbs
  | cons b bs ih =>
      cases ks with
      | nil => exact hbs
      | cons k ks =>
          intro d hd
          rcases List.mem_cons.mp hd with rfl | hd
          · exact Nat.xor_lt_two_pow (hbs b List.mem_cons_self) (hks k List.mem_cons_self)
          · exact ih (fun x hx => hks x (List.mem_cons_of_mem _ hx))
              (fun x hx => hbs x (List.mem_cons_of_mem _ hx)) d hd

/-- The tag of the empty plaintext, and that of the tokens in the example. -/
def exampleTag (plaintext : List Nat) : List Nat :=
  if plaintext = [] then
    [83, 15, 138, 251, 199, 69, 54, 185, 169, 99, 180, 241, 196, 203, 115, 139]
  else [108, 168, 62, 200, 233, 29, 255, 222, 235, 203, 80, 236, 217, 1, 232, 127]

theorem exampleTag_spec (plaintext : List Nat) :
    (exampleTag plaintext).length = 16 ∧ Below 8 (exampleTag plaintext) := by
  unfold exampleTag
  split
  · exact ⟨rfl, by unfold Below; decide⟩
  · exact ⟨rfl, by unfold Below; decide⟩

instance (ds : List Nat) : Decidable (Below 8 ds) :=
  inferInstanceAs (Decidable (∀ d ∈ ds, d < 2 ^ 8))

/-- A cipher that agrees with AES-256-GCM on the plaintexts of the example. -/
def exampleAead : Aead where
  sealed _ _ plaintext := (mask keyStream plaintext, exampleTag plaintext)
  opened key iv ciphertext tag :=
    let plaintext := mask keyStream ciphertext
    if key.length = 32 ∧ iv.length = 12 ∧ tag.length = 16 ∧ Below 8 plaintext ∧
        tag <+: exampleTag plaintext then some plaintext
    else none
  vectors n := n = 12
  tags n := n = 16
  vector := rfl
  tag := rfl
  below _ _ plaintext h :=
    ⟨below_mask (by unfold Below; decide) h, (exampleTag_spec plaintext).2⟩
  length_tag _ _ plaintext := (exampleTag_spec plaintext).1
  opened_iff key iv ciphertext tag plaintext := by
    dsimp only
    constructor
    · intro h
      split at h
      · next hok =>
          obtain ⟨hkey, hiv, htag, hbelow, hprefix⟩ := hok
          obtain rfl := Option.some.inj h
          exact ⟨hkey, hiv, htag, hbelow, mask_mask _ _, hprefix⟩
      · cases h
    · rintro ⟨hkey, hiv, htag, hbelow, rfl, hprefix⟩
      rw [mask_mask, if_pos ⟨hkey, hiv, htag, hbelow, hprefix⟩]

/-- A key of zeros. -/
def exampleKey (id : String) : EncryptionKey := ⟨id, List.replicate 32 0, rfl⟩

def exampleIv : Iv := ⟨List.replicate 12 0, rfl, by unfold Below; decide⟩

def exampleTokens : CognitoTokens := ⟨"", "", "", 0⟩

/-- `JSON.stringify` of the tokens in the example. -/
def exampleJson : String :=
  "\x7b\"accessToken\":\"\",\"idToken\":\"\",\"refreshToken\":\"\",\"expiresAt\":0\x7d"

def exampleParse (text : String) : Except Unit (Option CognitoTokens) :=
  if text = exampleJson then .ok (some exampleTokens) else .error ()

end Example

section Results

variable {A : Aead} {stringify : CognitoTokens → String}
  {parse : String → Except Unit (Option CognitoTokens)}

/-- Sealed tokens are opened exactly if the id of the key has no dot. -/
theorem unsealCognitoTokens_iff {sealing keys : EncryptionKeys} (hmem : sealing.first ∈ keys.list)
    (hdistinct : Unique (fun k => some k.id) keys.list) {tokens : CognitoTokens}
    (hjson : parse (stringify tokens) = .ok (some tokens)) (iv : Iv) :
    unsealCognitoTokens A parse keys (sealCognitoTokens A stringify sealing iv tokens) =
      .ok (some tokens) ↔ '.' ∉ sealing.first.id.toList := by
  unfold unsealCognitoTokens sealCognitoTokens
  constructor
  · intro h hdot
    rw [decrypt_encrypt_dot hdot] at h
    cases h
  · intro hdot
    rw [decrypt_encrypt hmem hdistinct hdot]
    exact hjson

/-- Sealed values and tokens can be opened exactly if the id of the key has no
    dot. The texts that give an error respell no value that a key of the list
    has sealed, and nothing that such a key makes of a vector with another
    length or of bytes that are no text. -/
theorem sealed_opens_iff (A : Aead) (stringify : CognitoTokens → String)
    (parse : String → Except Unit (Option CognitoTokens)) (sealing keys : EncryptionKeys)
    (hmem : sealing.first ∈ keys.list) (hdistinct : Unique (fun k => some k.id) keys.list)
    (iv : Iv) (plaintext : String) (tokens : CognitoTokens)
    (hjson : parse (stringify tokens) = .ok (some tokens)) (payload : String) :
    (decrypt A (encrypt A iv plaintext sealing.first) keys.list = .ok plaintext ↔
        '.' ∉ sealing.first.id.toList) ∧
      (unsealCognitoTokens A parse keys (sealCognitoTokens A stringify sealing iv tokens) =
        .ok (some tokens) ↔ '.' ∉ sealing.first.id.toList) ∧
      ((∃ e, decrypt A payload keys.list = .error e) ↔
        (∀ key ∈ keys.list, ∀ iv plaintext, ¬ Respells A payload (encrypt A iv plaintext key)) ∧
          ∀ key ∈ keys.list, ∀ vector plaintext, A.vectors vector.length → Below 8 vector →
            Below 8 plaintext → (vector.length ≠ IV_BYTES ∨ ∀ text, fromUtf8 text ≠ plaintext) →
              ¬ Respells A payload (sealBytes A vector plaintext key)) :=
  ⟨decrypt_encrypt_iff hmem hdistinct iv plaintext, unsealCognitoTokens_iff hmem hdistinct hjson iv,
    decrypt_error_iff hdistinct⟩

/-- After a rotation the tokens are opened with the old key. -/
theorem sealed_opens_rotated :
    let old : EncryptionKeys := ⟨exampleKey "k1", []⟩
    let rotated : EncryptionKeys := ⟨exampleKey "k2", [exampleKey "k1"]⟩
    decrypt exampleAead (encrypt exampleAead exampleIv "" old.first) rotated.list = .ok "" ∧
      unsealCognitoTokens exampleAead exampleParse rotated
        (sealCognitoTokens exampleAead (fun _ => exampleJson) old exampleIv exampleTokens) =
          .ok (some exampleTokens) := by
  intro old rotated
  have h := sealed_opens_iff exampleAead (fun _ => exampleJson) exampleParse old rotated (by decide)
    (by decide) exampleIv "" exampleTokens (by decide) ""
  exact ⟨h.1.mpr (by decide), h.2.1.mpr (by decide)⟩

/-- What a key whose id has a dot has sealed is lost. An equals sign behind what
    a key has sealed is a text that nothing has sealed, and it is opened. -/
theorem sealed_dotted_respelled :
    (decrypt exampleAead (encrypt exampleAead exampleIv "" (exampleKey "k.1"))
        [exampleKey "k.1"] = .error .malformed) ∧
      (∀ iv plaintext, encrypt exampleAead exampleIv "" (exampleKey "k1") ++ "=" ≠
        encrypt exampleAead iv plaintext (exampleKey "k1")) ∧
      decrypt exampleAead (encrypt exampleAead exampleIv "" (exampleKey "k1") ++ "=")
        [exampleKey "k1"] = .ok "" := by
  refine ⟨by decide +kernel, ?_, by decide +kernel⟩
  intro iv plaintext heq
  have hnot : '=' ∉ (encrypt exampleAead iv plaintext (exampleKey "k1")).toList :=
    notMem_encrypt (by decide) (by decide) (by decide) iv plaintext
  rw [← heq, String.toList_append] at hnot
  exact hnot (List.mem_append_right _ (List.mem_singleton_self _))

end Results

end Sandbox.Auth
