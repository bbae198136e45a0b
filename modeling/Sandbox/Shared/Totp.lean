import Mathlib.Data.List.DropRight
import Sandbox.Radix.Digits

/-!
# Base32 Secrets

The secret of an authenticator app is shown in base32. Both loops shift every
byte or digit into one integer of 32 bits and never clear it, so after a few
bytes its upper bits fall off. Nothing is lost: a digit is read as soon as it is
complete, from the twelve lowest bits, and the rest has been read before.

The invariants say this with numbers without a bound. The accumulator is the
number read so far modulo `2 ^ 32`, and the digits written are those of that
number without its last `bits` bits. So the loops compute `pad` and `trim`.

What `toUpperCase` makes of a character outside ASCII is left open. Several
characters may come of one.

## Main definitions

* `base32Encode`, `base32Decode`: The two functions.
* `Encoded`, `Decoded`: Their loop invariants.
* `Respelling`: A text with other letter case and spaces.

## Theorems

* `encoded_foldl`, `decoded_foldlM`: The invariants hold after every loop.
* `base32Encode_eq`, `foldlM_decodeChar`: The loops rewrite digits.
* `base32Decode_base32Encode`: Decoding undoes encoding.
-/

namespace Sandbox

open Radix

section Source

def ALPHABET : String := "ABCDEFGHIJKLMNOPQRSTUVWXYZ234567"

/-- `ALPHABET[index]`. All indices are masked to 31 and lie in the alphabet. -/
def symbol (index : Nat) : Char := ALPHABET.toList.getD index ' '

/-- `ALPHABET.indexOf(char)`, which is -1 where this is `none`. -/
def indexOf (char : Char) : Option Nat := ALPHABET.toList.findIdx? (· == char)

structure EncodeState where
  bits : Nat
  value : BitVec 32
  out : List Char

/-- `while (bits >= 5)`, which leaves `bits` and `out`. -/
def emit (value : BitVec 32) : Nat → List Char → Nat × List Char
  | bits + 5, out => emit value bits (out ++ [symbol ((value >>> bits) &&& 31).toNat])
  | bits, out => (bits, out)

def encodeByte (s : EncodeState) (byte : BitVec 8) : EncodeState :=
  let value := (s.value <<< 8) ||| byte.setWidth 32
  let (bits, out) := emit value (s.bits + 8) s.out
  ⟨bits, value, out⟩

def base32Encode (bytes : List (BitVec 8)) : String :=
  let s := bytes.foldl encodeByte ⟨0, 0, []⟩
  if s.bits > 0 then
    String.ofList (s.out ++ [symbol ((s.value <<< (5 - s.bits)) &&& 31).toNat])
  else String.ofList s.out

/-- `/\s/` -/
def isWhitespace (c : Char) : Bool :=
  c.toNat ∈ [0x09, 0x0a, 0x0b, 0x0c, 0x0d, 0x20, 0xa0, 0x1680, 0x2028, 0x2029, 0x202f, 0x205f,
    0x3000, 0xfeff] || (0x2000 ≤ c.toNat && c.toNat ≤ 0x200a)

/-- `toUpperCase`, character by character. -/
structure UpperCase where
  upper : Char → List Char
  ascii : ∀ c : Char, c.toNat < 128 → upper c = [c.toUpper]
  whitespace : ∀ c, isWhitespace c = true → upper c = [c]

/-- `text.toUpperCase().replace(/=+$/, "").replace(/\s+/g, "")` -/
def clean (U : UpperCase) (text : String) : List Char :=
  ((text.toList.flatMap U.upper).rdropWhile (· == '=')).filter (fun c => !isWhitespace c)

structure DecodeState where
  bits : Nat
  value : BitVec 32
  out : List (BitVec 8)

def decodeChar (s : DecodeState) (char : Char) : Except String DecodeState :=
  match indexOf char with
  | none => .error "invalid base32 character"
  | some index =>
      let value := (s.value <<< 5) ||| BitVec.ofNat 32 index
      let bits := s.bits + 5
      if bits ≥ 8 then
        .ok ⟨bits - 8, value, s.out ++ [((value >>> (bits - 8)) &&& 255).setWidth 8]⟩
      else .ok ⟨bits, value, s.out⟩

def base32Decode (U : UpperCase) (text : String) : Except String (List (BitVec 8)) := do
  let s ← (clean U text).foldlM decodeChar ⟨0, 0, []⟩
  return s.out

end Source

section Accumulator

/-- Shifting digits in keeps the number read so far modulo `2 ^ 32`. -/
theorem shift_or (v d n : Nat) (hd : d < 2 ^ n) :
    BitVec.ofNat 32 v <<< n ||| BitVec.ofNat 32 d = BitVec.ofNat 32 (v * 2 ^ n + d) := by
  apply BitVec.eq_of_toNat_eq
  rw [← Nat.shiftLeft_eq, Nat.shiftLeft_add_eq_or_of_lt hd]
  rw [BitVec.toNat_or, BitVec.toNat_shiftLeft, BitVec.toNat_ofNat, BitVec.toNat_ofNat,
    BitVec.toNat_ofNat, Nat.or_mod_two_pow, Nat.shiftLeft_eq, Nat.shiftLeft_eq, Nat.mod_mul_mod]

/-- Shifting a 32-bit word multiplies by a power of two, modulo the width. -/
theorem shiftLeft_ofNat (v n : Nat) :
    BitVec.ofNat 32 v <<< n = BitVec.ofNat 32 (v * 2 ^ n) := by
  have h := shift_or v 0 n (Nat.two_pow_pos n)
  simpa using h

/-- A digit within the 32 bits is the digit of the whole number. -/
theorem shift_and (v r w : Nat) (h : r + w ≤ 32) :
    ((BitVec.ofNat 32 v >>> r) &&& BitVec.ofNat 32 (2 ^ w - 1)).toNat = v / 2 ^ r % 2 ^ w := by
  have hw : 2 ^ w - 1 < 2 ^ 32 := by
    have := Nat.pow_le_pow_right (show 0 < 2 by omega) (show w ≤ 32 by omega)
    have := Nat.two_pow_pos w
    omega
  have hsplit : 2 ^ 32 = 2 ^ r * 2 ^ (32 - r) := by
    rw [← Nat.pow_add, Nat.add_sub_cancel' (by omega)]
  rw [BitVec.toNat_and, BitVec.toNat_ushiftRight, BitVec.toNat_ofNat, BitVec.toNat_ofNat,
    Nat.mod_eq_of_lt hw, Nat.and_two_pow_sub_one_eq_mod, Nat.shiftRight_eq_div_pow, hsplit,
    Nat.mod_mul_right_div_self]
  exact Nat.mod_mod_of_dvd _ (Nat.pow_dvd_pow 2 (by omega))

end Accumulator

section Encoding

/-- The loop state after these bytes. -/
structure Encoded (ds : List Nat) (s : EncodeState) : Prop where
  bits : s.bits = 8 * ds.length % 5
  value : s.value = BitVec.ofNat 32 (value 8 ds)
  out : s.out = (spread 5 (8 * ds.length / 5) (Radix.value 8 ds / 2 ^ s.bits)).map symbol

/-- The inner loop writes digits until fewer than five bits are left. -/
theorem emit_eq (v : Nat) (bits : Nat) (out : List Char) (hbits : bits ≤ 32) :
    ∀ k, out = (spread 5 k (v / 2 ^ bits)).map symbol →
      emit (BitVec.ofNat 32 v) bits out =
        (bits % 5, (spread 5 (k + bits / 5) (v / 2 ^ (bits % 5))).map symbol) := by
  -- Each turn of the inner loop moves five bits from the accumulator to the text.
  induction bits, out using emit.induct (BitVec.ofNat 32 v) with
  | case1 bits out ih =>
      intro k hout
      have hdigit : ((BitVec.ofNat 32 v >>> bits) &&& 31).toNat = v / 2 ^ bits % 2 ^ 5 :=
        shift_and v bits 5 (by omega)
      have hnext : out ++ [symbol ((BitVec.ofNat 32 v >>> bits) &&& 31).toNat] =
          (spread 5 (k + 1) (v / 2 ^ bits)).map symbol := by
        rw [hout, hdigit, ← spread_concat, List.map_append]
        rfl
      have hmod : (bits + 5) % 5 = bits % 5 := by omega
      have hdiv : k + 1 + bits / 5 = k + (bits + 5) / 5 := by omega
      rw [emit, ih (by omega) (k + 1) hnext, hdiv]
      exact congrArg (fun r => (r, (spread 5 (k + (bits + 5) / 5) (v / 2 ^ r)).map symbol))
        hmod.symm
  | case2 bits out hlt =>
      intro k hout
      -- The loop ends with less than five bits left.
      have hsmall : bits < 5 := by
        by_contra hc
        exact hlt (bits - 5) (by omega)
      rw [emit.eq_2 _ _ _ hlt, Nat.mod_eq_of_lt hsmall, Nat.div_eq_of_lt hsmall, hout, Nat.add_zero]

/-- Encoding one byte extends what is encoded by it. -/
theorem encoded_encodeByte {ds : List Nat} {s : EncodeState} (h : Encoded ds s)
    (byte : BitVec 8) : Encoded (ds ++ [byte.toNat]) (encodeByte s byte) := by
  have hbyte : byte.setWidth 32 = BitVec.ofNat 32 byte.toNat := by
    rw [← BitVec.ofNat_toNat]
  have hvalue : s.value <<< 8 ||| byte.setWidth 32 =
      BitVec.ofNat 32 (value 8 (ds ++ [byte.toNat])) := by
    rw [h.value, hbyte, shift_or _ _ _ byte.isLt, value_concat]
  -- The digits written so far do not depend on the new byte.
  have hdiv : value 8 (ds ++ [byte.toNat]) / 2 ^ (s.bits + 8) = value 8 ds / 2 ^ s.bits := by
    rw [value_concat, Nat.add_comm s.bits, Nat.pow_add, ← Nat.div_div_eq_div_mul, Nat.mul_comm,
      Nat.mul_add_div (Nat.two_pow_pos 8), Nat.div_eq_of_lt byte.isLt, Nat.add_zero]
  have hlt := h.bits
  have hout := h.out
  rw [← hdiv] at hout
  have hemit := emit_eq _ _ _ (by omega) _ hout
  have hmod : (s.bits + 8) % 5 = 8 * (ds ++ [byte.toNat]).length % 5 := by
    rw [List.length_append, List.length_singleton]
    omega
  have hcount : 8 * ds.length / 5 + (s.bits + 8) / 5 = 8 * (ds ++ [byte.toNat]).length / 5 := by
    rw [List.length_append, List.length_singleton]
    omega
  rw [hmod, hcount] at hemit
  simp only [encodeByte, hvalue, hemit]
  exact ⟨rfl, rfl, rfl⟩

/-- The encoder has encoded every byte it was given. -/
theorem encoded_foldl (bytes : List (BitVec 8)) :
    Encoded (bytes.map BitVec.toNat) (bytes.foldl encodeByte ⟨0, 0, []⟩) := by
  induction bytes using List.reverseRecOn with
  | nil => exact ⟨rfl, rfl, rfl⟩
  | append_singleton bytes byte ih =>
      rw [List.foldl_append, List.map_append]
      exact encoded_encodeByte ih byte

/-- Encoding writes the digits of five bits, the last one filled up. -/
theorem base32Encode_eq (bytes : List (BitVec 8)) :
    base32Encode bytes = String.ofList ((pad 8 5 (bytes.map BitVec.toNat)).map symbol) := by
  have h := encoded_foldl bytes
  generalize bytes.map BitVec.toNat = ds at h
  unfold base32Encode
  generalize bytes.foldl encodeByte ⟨0, 0, []⟩ = s at h
  have hbits := h.bits
  -- The encoder has written every full digit, and keeps `s.bits` bits.
  by_cases hpos : s.bits > 0
  · -- The bits that are left and the missing ones make one digit more.
    have hdigit : ((s.value <<< (5 - s.bits)) &&& 31).toNat =
        value 8 ds * 2 ^ (5 - s.bits) / 2 ^ 0 % 2 ^ 5 := by
      rw [h.value, shiftLeft_ofNat]
      exact shift_and _ 0 5 (by omega)
    have hup : value 8 ds / 2 ^ s.bits = value 8 ds * 2 ^ (5 - s.bits) / 2 ^ (0 + 5) := by
      have hfive : 2 ^ (0 + 5) = 2 ^ s.bits * 2 ^ (5 - s.bits) := by
        rw [← Nat.pow_add, Nat.add_sub_cancel' (by omega)]
      rw [hfive, Nat.mul_div_mul_right _ _ (Nat.two_pow_pos _)]
    have hmore : 5 * (8 * ds.length / 5 + 1) - 8 * ds.length = 5 - s.bits := by omega
    rw [if_pos hpos, pad_eq (k := 8 * ds.length / 5 + 1) (by omega), h.out, hdigit, hup, hmore]
    have hlast := congrArg (List.map symbol)
      (spread_concat (w := 5) (k := 8 * ds.length / 5) (r := 0)
        (v := value 8 ds * 2 ^ (5 - s.bits)))
    rw [List.map_append] at hlast
    rw [Nat.pow_zero, Nat.div_one] at hlast
    rw [← hlast, Nat.pow_zero, Nat.div_one]
    rfl
  · have hzero : s.bits = 0 := by omega
    rw [if_neg hpos, pad_eq (k := 8 * ds.length / 5) (by omega), h.out, hzero]
    have hnone : 5 * (8 * ds.length / 5) - 8 * ds.length = 0 := by omega
    rw [hnone, Nat.pow_zero, Nat.div_one, Nat.mul_one]

end Encoding

section Decoding

theorem indexOf_symbol {d : Nat} (h : d < 2 ^ 5) : indexOf (symbol d) = some d := by
  revert d
  decide

/-- The loop state after these digits. -/
structure Decoded (ds : List Nat) (s : DecodeState) : Prop where
  bits : s.bits = 5 * ds.length % 8
  value : s.value = BitVec.ofNat 32 (value 5 ds)
  out : s.out.map BitVec.toNat = spread 8 (5 * ds.length / 8) (Radix.value 5 ds / 2 ^ s.bits)

/-- Decoding one symbol extends what is decoded by its digit. -/
theorem decoded_decodeChar {ds : List Nat} {s : DecodeState} (h : Decoded ds s) {d : Nat}
    (hd : d < 2 ^ 5) : ∃ s', decodeChar s (symbol d) = .ok s' ∧ Decoded (ds ++ [d]) s' := by
  have hvalue : s.value <<< 5 ||| BitVec.ofNat 32 d = BitVec.ofNat 32 (value 5 (ds ++ [d])) := by
    rw [h.value, shift_or _ _ _ hd, value_concat]
  -- The bytes written so far do not depend on the new digit.
  have hdiv : value 5 (ds ++ [d]) / 2 ^ (s.bits + 5) = value 5 ds / 2 ^ s.bits := by
    rw [value_concat, Nat.add_comm s.bits, Nat.pow_add, ← Nat.div_div_eq_div_mul, Nat.mul_comm,
      Nat.mul_add_div (Nat.two_pow_pos 5), Nat.div_eq_of_lt hd, Nat.add_zero]
  have hbits := h.bits
  have hlen : 5 * (ds ++ [d]).length = 5 * ds.length + 5 := by
    rw [List.length_append, List.length_singleton]
    omega
  unfold decodeChar
  rw [indexOf_symbol hd]
  dsimp only
  rw [hvalue]
  by_cases hfull : s.bits + 5 ≥ 8
  · rw [if_pos hfull]
    refine ⟨_, rfl, ⟨by dsimp only; omega, rfl, ?_⟩⟩
    have hread := shift_and (value 5 (ds ++ [d])) (s.bits + 5 - 8) 8 (by omega)
    have hbyte : (((BitVec.ofNat 32 (value 5 (ds ++ [d])) >>> (s.bits + 5 - 8)) &&& 255).setWidth
        8).toNat = value 5 (ds ++ [d]) / 2 ^ (s.bits + 5 - 8) % 2 ^ 8 := by
      rw [BitVec.toNat_setWidth]
      exact (Nat.mod_eq_of_lt (hread ▸ Nat.mod_lt _ (Nat.two_pow_pos 8))).trans hread
    have hcount : 5 * (ds ++ [d]).length / 8 = 5 * ds.length / 8 + 1 := by omega
    have hbelow : s.bits + 5 - 8 + 8 = s.bits + 5 := by omega
    rw [List.map_append, List.map_singleton, h.out, hbyte, hcount, ← spread_concat, hbelow, hdiv]
  · rw [if_neg hfull]
    refine ⟨_, rfl, ⟨by dsimp only; omega, rfl, ?_⟩⟩
    have hcount : 5 * (ds ++ [d]).length / 8 = 5 * ds.length / 8 := by omega
    rw [h.out, hcount, hdiv]

theorem decoded_foldlM {ds : List Nat} (h : Below 5 ds) :
    ∃ s, (ds.map symbol).foldlM decodeChar ⟨0, 0, []⟩ = .ok s ∧ Decoded ds s := by
  induction ds using List.reverseRecOn with
  | nil => exact ⟨_, rfl, rfl, rfl, rfl⟩
  | append_singleton ds d ih =>
      -- The symbols before the last are decoded, then the last one.
      obtain ⟨s, hrun, hs⟩ := ih h.of_concat.1
      obtain ⟨s', hstep, hs'⟩ := decoded_decodeChar hs h.of_concat.2
      refine ⟨s', ?_, hs'⟩
      rw [List.map_append, List.foldlM_append, hrun]
      exact (bind_pure (decodeChar s (symbol d))).trans hstep

/-- Decoding drops the bits that fill no byte. -/
theorem foldlM_decodeChar {ds : List Nat} (h : Below 5 ds) :
    ∃ s, (ds.map symbol).foldlM decodeChar ⟨0, 0, []⟩ = .ok s ∧
      s.out.map BitVec.toNat = trim 5 8 ds := by
  obtain ⟨s, hrun, hs⟩ := decoded_foldlM h
  refine ⟨s, hrun, ?_⟩
  have hleft : 5 * ds.length - 8 * (5 * ds.length / 8) = 5 * ds.length % 8 := by omega
  rw [hs.out, hs.bits, trim_eq rfl, hleft]

end Decoding

section Respelling

/-- A text in which letters are lower-cased and spaces inserted. -/
inductive Respelling : List Char → List Char → Prop
  | nil : Respelling [] []
  | keep (c : Char) {text body : List Char} : Respelling text body →
      Respelling (c :: text) (c :: body)
  | lower (c : Char) {text body : List Char} : Respelling text body →
      Respelling (c :: text) (c.toLower :: body)
  | space (c : Char) {text body : List Char} : isWhitespace c = true → Respelling text body →
      Respelling text (c :: body)

theorem Respelling.refl (text : List Char) : Respelling text text := by
  induction text with
  | nil => exact .nil
  | cons c text ih => exact .keep c ih

/-- Letters and digits come out of `toUpperCase` as those of the alphabet. -/
theorem alphabet_chars {c : Char} (h : c ∈ ALPHABET.toList) :
    c.toNat < 128 ∧ c.toLower.toNat < 128 ∧ c.toUpper = c ∧ c.toLower.toUpper = c ∧
      isWhitespace c = false ∧ c ≠ '=' := by
  have hall : ALPHABET.toList.all (fun c => c.toNat < 128 ∧ c.toLower.toNat < 128 ∧
      c.toUpper = c ∧ c.toLower.toUpper = c ∧ isWhitespace c = false ∧ c ≠ '=') = true := by decide
  exact of_decide_eq_true (List.all_eq_true.mp hall c h)

theorem ne_padding_of_isWhitespace {c : Char} (h : isWhitespace c = true) : c ≠ '=' := by
  rintro rfl
  exact absurd h (by decide)

theorem symbol_mem {d : Nat} (h : d < 2 ^ 5) : symbol d ∈ ALPHABET.toList := by
  revert d
  decide

/-- Upper-casing and removing the spaces gives back the text, and no `=` is
    in the way of cutting off the padding. -/
theorem Respelling.upper (U : UpperCase) {text body : List Char} (h : Respelling text body)
    (halpha : ∀ c ∈ text, c ∈ ALPHABET.toList) :
    '=' ∉ body.flatMap U.upper ∧
      (body.flatMap U.upper).filter (fun c => !isWhitespace c) = text := by
  induction h with
  | nil => exact ⟨List.not_mem_nil, rfl⟩
  | @keep c text body h ih =>
      obtain ⟨hascii, -, hupper, -, hspace, hne⟩ := alphabet_chars (halpha c List.mem_cons_self)
      obtain ⟨hmem, htext⟩ := ih (fun x hx => halpha x (List.mem_cons_of_mem _ hx))
      rw [List.flatMap_cons, U.ascii c hascii, hupper, List.singleton_append]
      refine ⟨List.not_mem_cons_of_ne_of_not_mem hne.symm hmem, ?_⟩
      rw [List.filter_cons_of_pos (by rw [hspace]; rfl), htext]
  | @lower c text body h ih =>
      obtain ⟨-, hascii, -, hupper, hspace, hne⟩ := alphabet_chars (halpha c List.mem_cons_self)
      obtain ⟨hmem, htext⟩ := ih (fun x hx => halpha x (List.mem_cons_of_mem _ hx))
      rw [List.flatMap_cons, U.ascii _ hascii, hupper, List.singleton_append]
      refine ⟨List.not_mem_cons_of_ne_of_not_mem hne.symm hmem, ?_⟩
      rw [List.filter_cons_of_pos (by rw [hspace]; rfl), htext]
  -- Whitespace has no other case, and the filter drops it.
  | @space c text body hspace h ih =>
      obtain ⟨hmem, htext⟩ := ih halpha
      rw [List.flatMap_cons, U.whitespace c hspace, List.singleton_append]
      refine ⟨List.not_mem_cons_of_ne_of_not_mem (ne_padding_of_isWhitespace hspace).symm hmem, ?_⟩
      rw [List.filter_cons_of_neg (by rw [hspace]; decide), htext]

theorem flatMap_padding (U : UpperCase) (n : Nat) :
    (List.replicate n '=').flatMap U.upper = List.replicate n '=' := by
  induction n with
  | zero => rfl
  | succ n ih =>
      rw [List.replicate_succ, List.flatMap_cons, ih, U.ascii '=' (by decide)]
      rfl

/-- Trailing padding is dropped, and nothing before it. -/
theorem rdropWhile_padding {text : List Char} (h : '=' ∉ text) (n : Nat) :
    (text ++ List.replicate n '=').rdropWhile (· == '=') = text := by
  induction n with
  | zero =>
      rw [List.replicate_zero, List.append_nil, List.rdropWhile_eq_self_iff]
      intro hne hlast
      exact h (beq_iff_eq.mp hlast ▸ List.getLast_mem hne)
  | succ n ih =>
      rw [List.replicate_succ', ← List.append_assoc, List.rdropWhile_concat_pos _ _ _ rfl, ih]

/-- Cleaning undoes lower case, white space and padding. -/
theorem clean_respelling (U : UpperCase) {text body : List Char} (h : Respelling text body)
    (halpha : ∀ c ∈ text, c ∈ ALPHABET.toList) (padding : Nat) :
    clean U (String.ofList (body ++ List.replicate padding '=')) = text := by
  obtain ⟨hmem, htext⟩ := h.upper U halpha
  unfold clean
  rw [String.toList_ofList, List.flatMap_append, flatMap_padding, rdropWhile_padding hmem, htext]

end Respelling

section RoundTrip

variable (U : UpperCase)

/-- Every respelling of an encoded text decodes to its bytes. -/
theorem base32Decode_respelling {bytes : List (BitVec 8)} {body : List Char}
    (h : Respelling (base32Encode bytes).toList body) (padding : Nat) :
    base32Decode U (String.ofList (body ++ List.replicate padding '=')) = .ok bytes := by
  have hbytes : Below 8 (bytes.map BitVec.toNat) := by
    intro d hd
    rcases List.mem_map.mp hd with ⟨byte, -, rfl⟩
    exact byte.isLt
  have hdigits : Below 5 (pad 8 5 (bytes.map BitVec.toNat)) := below_spread _ _
  rw [base32Encode_eq, String.toList_ofList] at h
  have halpha : ∀ c ∈ (pad 8 5 (bytes.map BitVec.toNat)).map symbol, c ∈ ALPHABET.toList := by
    intro c hc
    rcases List.mem_map.mp hc with ⟨d, hd, rfl⟩
    exact symbol_mem (hdigits d hd)
  -- Cleaned of spelling and padding, the text is that of the digits.
  obtain ⟨s, hrun, hs⟩ := foldlM_decodeChar hdigits
  rw [trim_pad (by omega) (by omega) hbytes] at hs
  have hout : s.out = bytes := List.map_injective_iff.mpr (fun _ _ => BitVec.eq_of_toNat_eq) hs
  unfold base32Decode
  rw [clean_respelling U h halpha padding, hrun]
  exact congrArg Except.ok hout

/-- Base32 is read back byte by byte, however long the secret is, whatever the
    case of its letters, with spaces anywhere in it and any padding. -/
theorem base32Decode_base32Encode :
    (∀ bytes, base32Decode U (base32Encode bytes) = .ok bytes) ∧
      (∀ (bytes : List (BitVec 8)) (body : List Char) (padding : Nat),
        Respelling (base32Encode bytes).toList body →
          base32Decode U (String.ofList (body ++ List.replicate padding '=')) = .ok bytes) ∧
      ∀ text ∈ Set.range base32Encode,
        ∃ bytes, base32Decode U text = .ok bytes ∧ base32Encode bytes = text := by
  have hplain : ∀ bytes, base32Decode U (base32Encode bytes) = .ok bytes := by
    intro bytes
    have h := base32Decode_respelling U (Respelling.refl (base32Encode bytes).toList) 0
    rwa [List.replicate_zero, List.append_nil, String.ofList_toList] at h
  refine ⟨hplain, fun bytes body padding h => base32Decode_respelling U h padding, ?_⟩
  rintro text ⟨bytes, rfl⟩
  exact ⟨bytes, hplain bytes, rfl⟩

end RoundTrip

/-- The part of `toUpperCase` that keeps to ASCII. -/
def UpperCase.onlyAscii : UpperCase where
  upper c := [c.toUpper]
  ascii _ _ := rfl
  whitespace c h := by
    have hletter : ¬('a'.val ≤ c.val ∧ c.val ≤ 'z'.val) := by
      rintro ⟨hlow, hhigh⟩
      have hl : 97 ≤ c.toNat := hlow
      have hh : c.toNat ≤ 122 := hhigh
      simp [isWhitespace] at h
      omega
    have hsame : c.toUpper = c := dif_neg hletter
    rw [hsame]

theorem base32Decode_lowerCase :
    base32Decode UpperCase.onlyAscii "m y======" = .ok [102] := by
  have htext : (base32Encode [102]).toList = ['M', 'Y'] := by decide
  have hbody : Respelling (base32Encode [102]).toList ['M'.toLower, ' ', 'Y'.toLower] := by
    rw [htext]
    exact .lower 'M' (.space ' ' rfl (.lower 'Y' .nil))
  have hspelled : "m y======" =
      String.ofList (['M'.toLower, ' ', 'Y'.toLower] ++ List.replicate 6 '=') := by decide
  rw [hspelled]
  exact (base32Decode_base32Encode UpperCase.onlyAscii).2.1 [102] _ 6 hbody

end Sandbox
