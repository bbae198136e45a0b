import Sandbox.Radix.Digits

/-!
# Base64

Bytes as digits of six bits. There are two alphabets, which differ in the last
two digits, and the padding at the end is written with one and not with the
other.

Reading looks at the lower byte of every UTF-16 code unit. It takes both
alphabets, passes over bytes of neither, and stops at the first sign of padding.
So many texts stand for the same bytes, and there is no text that cannot be
read.

## Main definitions

* `encode`, `encodeUrl`: Bytes as text.
* `lowBytes`, `decode`: Text as bytes.

## Theorems

* `decode_encode`, `decode_encodeUrl`: Reading undoes writing.
* `mem_encodeUrl`: The characters that are written.
-/

namespace Encoding.Base64

open Radix

/-- The digits of both alphabets but the last two. -/
def common : List Char :=
  "ABCDEFGHIJKLMNOPQRSTUVWXYZabcdefghijklmnopqrstuvwxyz0123456789".toList

def alphabet : List Char := common ++ ['+', '/']

def alphabetUrl : List Char := common ++ ['-', '_']

def encode (bytes : List Nat) : List Char :=
  (pad 8 6 bytes).map (alphabet.getD · 'A') ++ List.replicate ((3 - bytes.length % 3) % 3) '='

def encodeUrl (bytes : List Nat) : List Char := (pad 8 6 bytes).map (alphabetUrl.getD · 'A')

/-- The digit that a character stands for in one of the alphabets. -/
def digit (c : Char) : Option Nat :=
  (alphabet.findIdx? (· == c)).or (alphabetUrl.findIdx? (· == c))

/-- The UTF-16 code units of a character. -/
def codeUnits (c : Char) : List Nat :=
  if c.toNat < 0x10000 then [c.toNat]
  else [0xD800 + (c.toNat - 0x10000) / 0x400, 0xDC00 + (c.toNat - 0x10000) % 0x400]

/-- What a reader sees of a character that looks at the lower byte of every
    code unit only. -/
def lowBytes (c : Char) : List Char :=
  (codeUnits c).map fun unit => Char.ofNat (unit % 256)

def decode (text : List Char) : List Nat :=
  trim 6 8 (((text.flatMap lowBytes).takeWhile (· != '=')).filterMap digit)

theorem below_decode (text : List Char) : Below 8 (decode text) := below_spread _ _

/-- A character of one byte is seen as itself. -/
theorem lowBytes_of_lt {c : Char} (h : c.toNat < 256) : lowBytes c = [c] := by
  unfold lowBytes codeUnits
  rw [if_pos (by omega), List.map_singleton, Nat.mod_eq_of_lt h, Char.ofNat_toNat]

theorem flatMap_lowBytes {text : List Char} (h : ∀ c ∈ text, c.toNat < 256) :
    text.flatMap lowBytes = text := by
  induction text with
  | nil => rfl
  | cons c text ih =>
      rw [List.flatMap_cons, lowBytes_of_lt (h c List.mem_cons_self),
        ih fun x hx => h x (List.mem_cons_of_mem _ hx), List.singleton_append]

/-- A character that is written for a digit has one byte, stands for the digit
    and is no padding. -/
def Writes (f : Nat → Char) : Prop :=
  ∀ d, d < 2 ^ 6 → (f d).toNat < 256 ∧ digit (f d) = some d ∧ f d ≠ '='

theorem writes_alphabet : Writes (alphabet.getD · 'A') := by
  unfold Writes
  decide +kernel

theorem writes_alphabetUrl : Writes (alphabetUrl.getD · 'A') := by
  unfold Writes
  decide +kernel

/-- Digits that an alphabet writes are read, up to the padding. -/
theorem decode_map {ds : List Nat} (hds : Below 6 ds) {f : Nat → Char} (hf : Writes f) (n : Nat) :
    decode (ds.map f ++ List.replicate n '=') = trim 6 8 ds := by
  -- The alphabet and the padding are ASCII, so the low bytes are the characters.
  have hseen : (ds.map f ++ List.replicate n '=').flatMap lowBytes =
      ds.map f ++ List.replicate n '=' := by
    refine flatMap_lowBytes fun c hc => ?_
    rcases List.mem_append.mp hc with hc | hc
    · obtain ⟨d, hd, rfl⟩ := List.mem_map.mp hc
      exact (hf d (hds d hd)).1
    · rw [List.eq_of_mem_replicate hc]
      decide
  have hstop : (List.replicate n '=').takeWhile (· != '=') = [] := by
    cases n with
    | zero => rfl
    | succ n => rfl
  have htake : (ds.map f ++ List.replicate n '=').takeWhile (· != '=') = ds.map f := by
    rw [List.takeWhile_append_of_pos, hstop, List.append_nil]
    intro c hc
    obtain ⟨d, hd, rfl⟩ := List.mem_map.mp hc
    exact bne_iff_ne.mpr (hf d (hds d hd)).2.2
  -- Each character is read as the digit it was written for.
  have hdigits : (ds.map f).filterMap digit = ds := by
    clear htake hseen
    induction ds with
    | nil => rfl
    | cons d ds ih =>
        rw [List.map_cons, List.filterMap_cons_some (hf d (hds d List.mem_cons_self)).2.1,
          ih fun x hx => hds x (List.mem_cons_of_mem _ hx)]
  unfold decode
  rw [hseen, htake, hdigits]

/-- Reading undoes writing. -/
theorem decode_encode {bytes : List Nat} (h : Below 8 bytes) : decode (encode bytes) = bytes := by
  have hds : Below 6 (pad 8 6 bytes) := below_spread _ _
  calc decode (encode bytes)
      = trim 6 8 (pad 8 6 bytes) := decode_map hds writes_alphabet _
    _ = bytes := trim_pad (by omega) (by omega) h

theorem decode_encodeUrl {bytes : List Nat} (h : Below 8 bytes) :
    decode (encodeUrl bytes) = bytes := by
  have hds : Below 6 (pad 8 6 bytes) := below_spread _ _
  have hmap := decode_map hds writes_alphabetUrl 0
  rw [List.replicate_zero, List.append_nil] at hmap
  calc decode (encodeUrl bytes) = trim 6 8 (pad 8 6 bytes) := hmap
    _ = bytes := trim_pad (by omega) (by omega) h

/-- What is written comes from the alphabet. -/
theorem mem_encodeUrl {bytes : List Nat} {c : Char} (h : c ∈ encodeUrl bytes) :
    c ∈ alphabetUrl := by
  have hmem : ∀ d, d < 2 ^ 6 → alphabetUrl.getD d 'A' ∈ alphabetUrl := by decide
  obtain ⟨d, hd, rfl⟩ := List.mem_map.mp h
  exact hmem d (below_spread _ _ d hd)

end Encoding.Base64
