import Sandbox.Shared.Buffer
import Sandbox.Shared.Text
import Sandbox.Tables.Unique

/-!
# Sealed Values

Values that must not be stored in the clear are sealed with a key of the
configuration: a version, the id of the key, the initialization vector, the
ciphertext and its tag, with dots between them. Reading splits at the dots and
takes the key from the id, so the key that sealed a value may be any of a list.

All fields but the id are base64url. The id is written as it is configured, and
one with a dot makes more fields than are read. That is all that can go wrong
with a key of the list, see `decrypt_encrypt_iff`.

What is read need not be what was written. Base64url is read leniently, and the
cipher takes the beginning of a tag for the tag, so a sealed value can be
respelled. The texts that are opened are the respellings of what a key of the
list has sealed, see `decrypt_error_iff`. Besides the values of `encrypt` that
includes what the cipher makes of a vector with another length and of bytes
that are no text, which only the owner of the key could write.

The cipher is a parameter. It comes with the law that a text is opened if it was
sealed with the same key and vector.

## Main definitions

* `Aead`: The cipher, with its law.
* `parseEncryptionKey`, `encrypt`, `decrypt`: The functions of the package.
* `sealBytes`: The format of sealed values, for any vector and any bytes.
* `Respells`: Two texts whose fields read as the same.

## Theorems

* `decrypt_encrypt`, `decrypt_encrypt_dot`: Reading what was written.
* `decrypt_encrypt_iff`: Values sealed with a key can be opened exactly if its
  id has no dot.
* `decrypt_eq_ok`, `decrypt_error_iff`: The texts that are opened, and those
  that are not.
-/

namespace Sandbox

open Radix Encoding Tables

section Source

/-- AES-256-GCM. Opening throws where the result is `none`. -/
structure Aead where
  /-- The ciphertext and the tag for a key, a vector and a plaintext. -/
  sealed : List Nat → List Nat → List Nat → List Nat × List Nat
  /-- The plaintext for a key, a vector, a ciphertext and a tag. -/
  opened : List Nat → List Nat → List Nat → List Nat → Option (List Nat)
  /-- The lengths of a vector that are taken. -/
  vectors : Nat → Prop
  /-- The lengths of a tag that are taken. -/
  tags : Nat → Prop
  vector : vectors 12
  tag : tags 16
  below : ∀ key iv plaintext, Below 8 plaintext →
    Below 8 (sealed key iv plaintext).1 ∧ Below 8 (sealed key iv plaintext).2
  length_tag : ∀ key iv plaintext, (sealed key iv plaintext).2.length = 16
  opened_iff : ∀ key iv ciphertext tag plaintext,
    opened key iv ciphertext tag = some plaintext ↔
      key.length = 32 ∧ vectors iv.length ∧ tags tag.length ∧ Below 8 plaintext ∧
        (sealed key iv plaintext).1 = ciphertext ∧ tag <+: (sealed key iv plaintext).2

def IV_BYTES : Nat := 12

def KEY_BYTES : Nat := 32

def FORMAT_VERSION : String := "v1"

/-- A key of the configuration, which `parseEncryptionKey` has checked. -/
structure EncryptionKey where
  id : String
  key : List Nat
  length : key.length = KEY_BYTES
  deriving DecidableEq

inductive DecryptError
  | malformed
  | unknownKey (keyId : String)
  | authFailed
  deriving DecidableEq, Repr

/-- The error is `invalid_key_length`. -/
def parseEncryptionKey (id base64Key : String) : Except Unit EncryptionKey :=
  if h : (fromBase64 base64Key).length = KEY_BYTES then .ok ⟨id, fromBase64 base64Key, h⟩
  else .error ()

/-- `randomBytes(IV_BYTES)` -/
structure Iv where
  bytes : List Nat
  length : bytes.length = IV_BYTES
  below : Below 8 bytes

variable (A : Aead)

def encrypt (iv : Iv) (plaintext : String) (key : EncryptionKey) : String :=
  let (ciphertext, tag) := A.sealed key.key iv.bytes (fromUtf8 plaintext)
  join '.' [FORMAT_VERSION, key.id, toBase64Url iv.bytes, toBase64Url ciphertext, toBase64Url tag]

def decrypt (payload : String) (keys : List EncryptionKey) : Except DecryptError String :=
  match split '.' payload with
  | [version, keyId, ivPart, ciphertextPart, tagPart] =>
      if version ≠ FORMAT_VERSION then .error .malformed
      else
        -- The first key of this id is tried, and no other.
        match keys.find? (·.id == keyId) with
        | none => .error (.unknownKey keyId)
        | some key =>
            match A.opened key.key (fromBase64 ivPart) (fromBase64 ciphertextPart)
                (fromBase64 tagPart) with
            | none => .error .authFailed
            | some plaintext => .ok (toUtf8 plaintext)
  | _ => .error .malformed

end Source

variable {A : Aead}

/-- What a key writes for a vector and bytes of any kind. -/
def sealBytes (A : Aead) (vector plaintext : List Nat) (key : EncryptionKey) : String :=
  let (ciphertext, tag) := A.sealed key.key vector plaintext
  join '.' [FORMAT_VERSION, key.id, toBase64Url vector, toBase64Url ciphertext, toBase64Url tag]

/-- Values are sealed with a vector of twelve bytes, and they are texts. -/
theorem encrypt_eq_sealBytes (iv : Iv) (plaintext : String) (key : EncryptionKey) :
    encrypt A iv plaintext key = sealBytes A iv.bytes (fromUtf8 plaintext) key := rfl

/-- The first text has the version and the key id of the second. The other
    three fields read as the same bytes, and the tag may be cut to a length that
    is taken. -/
def Respells (A : Aead) (payload sealed : String) : Prop :=
  ∃ version keyId iv ciphertext tag iv' ciphertext' tag',
    split '.' payload = [version, keyId, iv, ciphertext, tag] ∧
      split '.' sealed = [version, keyId, iv', ciphertext', tag'] ∧
      fromBase64 iv = fromBase64 iv' ∧ fromBase64 ciphertext = fromBase64 ciphertext' ∧
      fromBase64 tag <+: fromBase64 tag' ∧ A.tags (fromBase64 tag).length

/-- Without a dot in the id a sealed value has five fields. -/
theorem split_sealBytes {key : EncryptionKey} (hdot : '.' ∉ key.id.toList)
    (vector plaintext : List Nat) :
    split '.' (sealBytes A vector plaintext key) =
      [FORMAT_VERSION, key.id, toBase64Url vector,
        toBase64Url (A.sealed key.key vector plaintext).1,
        toBase64Url (A.sealed key.key vector plaintext).2] := by
  have hurl := notMem_toBase64Url (c := '.') (by decide)
  refine split_join (List.cons_ne_nil _ _) fun part hpart => ?_
  simp only [List.mem_cons, List.not_mem_nil, or_false] at hpart
  rcases hpart with rfl | rfl | rfl | rfl | rfl
  · decide
  · exact hdot
  · exact hurl _
  · exact hurl _
  · exact hurl _

/-- With one it has more. -/
theorem length_split_sealBytes {key : EncryptionKey} (hdot : '.' ∈ key.id.toList)
    (vector plaintext : List Nat) : 5 < (split '.' (sealBytes A vector plaintext key)).length := by
  have hpos : 1 ≤ key.id.toList.count '.' := List.count_pos_iff.mpr hdot
  rw [length_split]
  unfold sealBytes join
  simp only [String.toList_ofList, List.map_cons, List.map_nil, List.intercalate,
    List.intersperse_cons_cons, List.intersperse_singleton, List.flatten_cons,
    List.flatten_nil, List.count_append, List.count_singleton_self, List.append_nil]
  omega

/-- A respelling has the fields of the sealed value. -/
theorem respells_sealBytes {payload : String} {vector plaintext : List Nat} {key : EncryptionKey}
    (hvector : Below 8 vector) (hplaintext : Below 8 plaintext) :
    Respells A payload (sealBytes A vector plaintext key) ↔
      ∃ iv ciphertext tag, split '.' payload = [FORMAT_VERSION, key.id, iv, ciphertext, tag] ∧
        '.' ∉ key.id.toList ∧ fromBase64 iv = vector ∧
        fromBase64 ciphertext = (A.sealed key.key vector plaintext).1 ∧
        fromBase64 tag <+: (A.sealed key.key vector plaintext).2 ∧
        A.tags (fromBase64 tag).length := by
  have hbelow := A.below key.key vector plaintext hplaintext
  constructor
  · rintro ⟨version, keyId, iv, ciphertext, tag, iv', ciphertext', tag', hsplit, hsealed, hread⟩
    -- A key id with a dot would make more than five fields.
    have hdot : '.' ∉ key.id.toList := by
      intro hdot
      have hlength := length_split_sealBytes (A := A) hdot vector plaintext
      rw [hsealed] at hlength
      exact Nat.lt_irrefl 5 hlength
    rw [split_sealBytes hdot] at hsealed
    cases hsealed
    rw [fromBase64_toBase64Url hvector, fromBase64_toBase64Url hbelow.1,
      fromBase64_toBase64Url hbelow.2] at hread
    exact ⟨iv, ciphertext, tag, hsplit, hdot, hread⟩
  · rintro ⟨iv, ciphertext, tag, hsplit, hdot, hread⟩
    refine ⟨_, _, iv, ciphertext, tag, _, _, _, hsplit, split_sealBytes hdot vector plaintext, ?_⟩
    rw [fromBase64_toBase64Url hvector, fromBase64_toBase64Url hbelow.1,
      fromBase64_toBase64Url hbelow.2]
    exact hread

/-- The texts that are opened are the respellings of what a key of the list has
    sealed. -/
theorem decrypt_eq_ok {payload text : String} {keys : List EncryptionKey}
    (hdistinct : Unique (fun k => some k.id) keys) :
    decrypt A payload keys = .ok text ↔
      ∃ key ∈ keys, ∃ vector plaintext, A.vectors vector.length ∧ Below 8 vector ∧
        Below 8 plaintext ∧ Respells A payload (sealBytes A vector plaintext key) ∧
        toUtf8 plaintext = text := by
  constructor
  · intro h
    unfold decrypt at h
    split at h
    · next version keyId ivPart ciphertextPart tagPart hsplit =>
        split at h
        · cases h
        · next hversion =>
            split at h
            · cases h
            · next key hfind =>
                split at h
                · cases h
                · next plaintext hopen =>
                    obtain ⟨_, hvector, htag, hplaintext, hciphertext, hprefix⟩ :=
                      (A.opened_iff _ _ _ _ _).mp hopen
                    have hid : (key.id == keyId) = true :=
                      List.find?_some (p := fun k : EncryptionKey => k.id == keyId) hfind
                    rw [beq_iff_eq] at hid
                    subst hid
                    rw [not_not.mp hversion] at hsplit
                    -- A field between two dots has none.
                    have hdot : '.' ∉ key.id.toList :=
                      notMem_of_mem_split (hsplit ▸ List.mem_cons_of_mem _ List.mem_cons_self)
                    exact ⟨key, List.mem_of_find?_eq_some hfind, fromBase64 ivPart, plaintext,
                      hvector, below_fromBase64 _, hplaintext,
                      (respells_sealBytes (below_fromBase64 _) hplaintext).mpr ⟨ivPart,
                        ciphertextPart, tagPart, hsplit, hdot, rfl, hciphertext.symm, hprefix,
                        htag⟩,
                      Except.ok.inj h⟩
    · cases h
  · rintro ⟨key, hmem, vector, plaintext, hvector, hbelow, hplaintext, hrespells, rfl⟩
    rcases (respells_sealBytes hbelow hplaintext).mp hrespells with
      ⟨iv, ciphertext, tag, hsplit, _, rfl, hciphertext, hprefix, htag⟩
    have hopen := (A.opened_iff key.key (fromBase64 iv) (fromBase64 ciphertext) (fromBase64 tag)
      plaintext).mpr ⟨key.length, hvector, htag, hplaintext, hciphertext.symm, hprefix⟩
    unfold decrypt
    rw [hsplit]
    dsimp only
    rw [if_neg (not_not.mpr rfl), find_unique hdistinct hmem]
    dsimp only
    rw [hopen]

/-- What is sealed has the characters of its id, of its version and of base64url. -/
theorem notMem_encrypt {c : Char} {key : EncryptionKey} (hid : c ∉ key.id.toList)
    (hurl : c ∉ Base64.alphabetUrl) (hdot : c ≠ '.') (iv : Iv) (plaintext : String) :
    c ∉ (encrypt A iv plaintext key).toList := by
  have hversion : c ∉ FORMAT_VERSION.toList := by
    intro hmem
    have hsub : FORMAT_VERSION.toList.all (· ∈ Base64.alphabetUrl) = true := by decide
    exact hurl (of_decide_eq_true (List.all_eq_true.mp hsub c hmem))
  have hbytes := notMem_toBase64Url hurl
  unfold encrypt join
  simp only [String.toList_ofList, List.map_cons, List.map_nil, List.intercalate,
    List.intersperse_cons_cons, List.intersperse_singleton, List.flatten_cons, List.flatten_nil,
    List.mem_append, List.mem_singleton, List.append_nil, hid, hdot, hversion, hbytes, or_self,
    not_false_eq_true]

/-- What a key of the list has sealed is opened, if its id has no dot. -/
theorem decrypt_encrypt {keys : List EncryptionKey} {key : EncryptionKey} (hmem : key ∈ keys)
    (hdistinct : Unique (fun k => some k.id) keys) (hdot : '.' ∉ key.id.toList) (iv : Iv)
    (plaintext : String) : decrypt A (encrypt A iv plaintext key) keys = .ok plaintext := by
  have hbytes := below_fromUtf8 plaintext
  have hbelow := A.below key.key iv.bytes _ hbytes
  refine (decrypt_eq_ok hdistinct).mpr ⟨key, hmem, iv.bytes, fromUtf8 plaintext, ?_, iv.below,
    hbytes, (respells_sealBytes iv.below hbytes).mpr ⟨_, _, _, split_sealBytes hdot _ _, hdot, ?_⟩,
    toUtf8_fromUtf8 plaintext⟩
  · rw [iv.length]
    exact A.vector
  · rw [fromBase64_toBase64Url iv.below, fromBase64_toBase64Url hbelow.1,
      fromBase64_toBase64Url hbelow.2, A.length_tag]
    exact ⟨rfl, rfl, List.prefix_rfl, A.tag⟩

/-- A dot in the id is one field more, and then nothing is opened. -/
theorem decrypt_encrypt_dot {key : EncryptionKey} (hdot : '.' ∈ key.id.toList) (iv : Iv)
    (plaintext : String) (keys : List EncryptionKey) :
    decrypt A (encrypt A iv plaintext key) keys = .error .malformed := by
  have hlength := length_split_sealBytes (A := A) hdot iv.bytes (fromUtf8 plaintext)
  unfold decrypt
  split
  · next hsplit =>
      rw [← encrypt_eq_sealBytes, hsplit] at hlength
      exact absurd hlength (Nat.lt_irrefl 5)
  · rfl

/-- The values that a key of the list seals can be opened exactly if its id has
    no dot. -/
theorem decrypt_encrypt_iff {keys : List EncryptionKey} {key : EncryptionKey} (hmem : key ∈ keys)
    (hdistinct : Unique (fun k => some k.id) keys) (iv : Iv) (plaintext : String) :
    decrypt A (encrypt A iv plaintext key) keys = .ok plaintext ↔ '.' ∉ key.id.toList := by
  constructor
  · intro h hdot
    rw [decrypt_encrypt_dot hdot] at h
    cases h
  · intro hdot
    exact decrypt_encrypt hmem hdistinct hdot iv plaintext

/-- The texts that give an error respell nothing that a key of the list has
    sealed: no value of `encrypt`, and nothing that it never seals. -/
theorem decrypt_error_iff {payload : String} {keys : List EncryptionKey}
    (hdistinct : Unique (fun k => some k.id) keys) :
    (∃ e, decrypt A payload keys = .error e) ↔
      (∀ key ∈ keys, ∀ iv plaintext, ¬ Respells A payload (encrypt A iv plaintext key)) ∧
        ∀ key ∈ keys, ∀ vector plaintext, A.vectors vector.length → Below 8 vector →
          Below 8 plaintext → (vector.length ≠ IV_BYTES ∨ ∀ text, fromUtf8 text ≠ plaintext) →
            ¬ Respells A payload (sealBytes A vector plaintext key) := by
  constructor
  · rintro ⟨e, he⟩
    have hnone : ∀ key ∈ keys, ∀ vector plaintext, A.vectors vector.length → Below 8 vector →
        Below 8 plaintext → ¬ Respells A payload (sealBytes A vector plaintext key) := by
      intro key hmem vector plaintext hvector hbelow hplaintext hrespells
      rw [(decrypt_eq_ok hdistinct).mpr ⟨key, hmem, vector, plaintext, hvector, hbelow, hplaintext,
        hrespells, rfl⟩] at he
      cases he
    refine ⟨fun key hmem iv plaintext => ?_, fun key hmem vector plaintext hvector hbelow
      hplaintext _ => hnone key hmem vector plaintext hvector hbelow hplaintext⟩
    exact hnone key hmem iv.bytes (fromUtf8 plaintext) (iv.length ▸ A.vector) iv.below
      (below_fromUtf8 plaintext)
  · rintro ⟨hsealed, hforeign⟩
    cases hresult : decrypt A payload keys with
    | error e => exact ⟨e, rfl⟩
    | ok text =>
        rcases (decrypt_eq_ok hdistinct).mp hresult with
          ⟨key, hmem, vector, plaintext, hvector, hbelow, hplaintext, hrespells, _⟩
        -- What is opened is a value of `encrypt` or something that it never seals.
        by_cases hlength : vector.length = IV_BYTES
        · by_cases htext : ∃ text, fromUtf8 text = plaintext
          · rcases htext with ⟨text, rfl⟩
            exact absurd hrespells (hsealed key hmem ⟨vector, hlength, hbelow⟩ text)
          · exact absurd hrespells (hforeign key hmem vector plaintext hvector hbelow hplaintext
              (.inr (not_exists.mp htext)))
        · exact absurd hrespells (hforeign key hmem vector plaintext hvector hbelow hplaintext
            (.inl hlength))

end Sandbox
