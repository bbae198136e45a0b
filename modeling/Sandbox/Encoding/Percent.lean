import Sandbox.Encoding.Utf8

/-!
# Percent-Encoding

A text in which only certain characters of ASCII stand for themselves. Every
other character is written as its bytes in UTF-8, each as a percent sign and two
hexadecimal digits.

Reading takes any character but the percent sign for itself. At a percent sign
there have to be the bytes of one character, as many as the first of them
announces. Otherwise the text cannot be read.

## Main definitions

* `encodeURIComponent`: Text with escapes.
* `escaped`, `escapes`, `readChar`: A byte, several bytes, and a character.
* `decodeURIComponent`: Text from which escapes are removed, if it can be read.

## Theorems

* `readChar_encodeChar`: A character is read from its escapes.
* `decode_encode`: Reading undoes writing.
* `encode_ascii`: What is written is ASCII, without a colon.
-/

namespace Encoding.Percent

open Radix

/-- The characters that stand for themselves. -/
def isUnreserved (c : Char) : Bool :=
  c.isAlphanum || c ∈ ['-', '_', '.', '!', '~', '*', '(', ')'] || c.toNat = 0x27

def hexDigits : List Char := "0123456789ABCDEF".toList

/-- Two hexadecimal digits after a percent sign. -/
def escapeByte (b : Nat) : List Char :=
  ['%', hexDigits.getD (b / 16) '0', hexDigits.getD (b % 16) '0']

def encodeURIComponent (text : List Char) : List Char :=
  text.flatMap fun c =>
    if isUnreserved c then [c] else (Utf8.encodeChar c).flatMap escapeByte

/-- A hexadecimal digit, with a capital letter or a small one. -/
def hexValue (c : Char) : Option Nat :=
  (hexDigits.findIdx? (· == c)).or ("0123456789abcdef".toList.findIdx? (· == c))

/-- The byte at the front. -/
def escaped : List Char → Option (Nat × List Char)
  | '%' :: high :: low :: rest =>
      match hexValue high, hexValue low with
      | some h, some l => some (h * 16 + l, rest)
      | _, _ => none
  | _ => none

/-- So many bytes at the front. -/
def escapes : Nat → List Char → Option (List Nat × List Char)
  | 0, text => some ([], text)
  | n + 1, text =>
      match escaped text with
      | none => none
      | some (b, rest) => (escapes n rest).map fun x => (b :: x.1, x.2)

/-- The number of ones that a byte begins with, up to five. -/
def leadingOnes (b : Nat) : Nat :=
  if b < 0x80 then 0 else if b < 0xC0 then 1 else if b < 0xE0 then 2
  else if b < 0xF0 then 3 else if b < 0xF8 then 4 else 5

/-- The character that has these bytes. -/
def character (bytes : List Nat) : Option Char :=
  match Utf8.decode bytes with
  | [c] => if Utf8.encodeChar c = bytes then some c else none
  | _ => none

/-- The escaped character at the front. -/
def readChar (text : List Char) : Option (Char × List Char) :=
  match escaped text with
  | none => none
  | some (b, rest) =>
      let n := leadingOnes b
      if n = 0 then some (Char.ofNat b, rest)
      -- A continuation byte does not begin a character.
      else if n = 1 ∨ 4 < n then none
      else
        match escapes (n - 1) rest with
        | none => none
        | some (bs, rest) => (character (b :: bs)).map fun c => (c, rest)

/-- Reading with as many steps as there are characters, or more. -/
def decodeWith : Nat → List Char → Option (List Char)
  | _, [] => some []
  | 0, _ => none
  | n + 1, c :: cs =>
      if c = '%' then
        match readChar (c :: cs) with
        | none => none
        | some (d, rest) => (decodeWith n rest).map (d :: ·)
      else (decodeWith n cs).map (c :: ·)

/-- The exception is `none`. -/
def decodeURIComponent (text : List Char) : Option (List Char) := decodeWith text.length text

theorem escaped_escapeByte {b : Nat} (h : b < 2 ^ 8) (rest : List Char) :
    escaped (escapeByte b ++ rest) = some (b, rest) := by
  have hdigit : ∀ d, d < 16 → hexValue (hexDigits.getD d '0') = some d := by decide
  have hhigh := hdigit (b / 16) (by omega)
  have hlow := hdigit (b % 16) (by omega)
  have hb : b / 16 * 16 + b % 16 = b := by omega
  unfold escapeByte escaped
  simp only [List.cons_append, List.nil_append, hhigh, hlow, hb]

theorem escapes_flatMap {bytes : List Nat} (h : Below 8 bytes) (rest : List Char) :
    escapes bytes.length (bytes.flatMap escapeByte ++ rest) = some (bytes, rest) := by
  induction bytes with
  | nil => rfl
  | cons b bytes ih =>
      -- One byte is read back, then the others.
      rw [List.flatMap_cons, List.append_assoc, List.length_cons, escapes,
        escaped_escapeByte (h b List.mem_cons_self)]
      dsimp only
      rw [ih fun x hx => h x (List.mem_cons_of_mem _ hx)]
      rfl

/-- The first byte of a character says how many there are. -/
theorem encodeChar_cases (c : Char) :
    (∃ b, Utf8.encodeChar c = [b] ∧ leadingOnes b = 0 ∧ Char.ofNat b = c) ∨
      ∃ b bs, Utf8.encodeChar c = b :: bs ∧ leadingOnes b = bs.length + 1 ∧ 1 ≤ bs.length ∧
        bs.length ≤ 3 := by
  have hc := Utf8.toNat_bounds c
  have hread := Char.ofNat_toNat c
  unfold Utf8.encodeChar
  dsimp only
  split
  · next h =>
      exact .inl ⟨_, rfl, if_pos h, hread⟩
  · refine .inr ?_
    -- The first byte of a sequence tells its length, which is two, three or four.
    split
    · refine ⟨_, _, rfl, ?_, by simp, by simp⟩
      unfold leadingOnes
      rw [if_neg (by omega), if_neg (by omega), if_pos (by omega)]
      rfl
    · split
      · refine ⟨_, _, rfl, ?_, by simp, by simp⟩
        unfold leadingOnes
        rw [if_neg (by omega), if_neg (by omega), if_neg (by omega), if_pos (by omega)]
        rfl
      · refine ⟨_, _, rfl, ?_, by simp, by simp⟩
        unfold leadingOnes
        rw [if_neg (by omega), if_neg (by omega), if_neg (by omega), if_neg (by omega),
          if_pos (by omega)]
        rfl

theorem character_encodeChar (c : Char) : character (Utf8.encodeChar c) = some c := by
  have hdecode := Utf8.decodeFrom_encodeChar c []
  rw [List.append_nil] at hdecode
  unfold character Utf8.decode
  rw [hdecode]
  exact if_pos rfl

/-- A character is read from its escapes. -/
theorem readChar_encodeChar (c : Char) (rest : List Char) :
    readChar ((Utf8.encodeChar c).flatMap escapeByte ++ rest) = some (c, rest) := by
  have hbelow := Utf8.below_encodeChar c
  -- One byte is the character itself; of more, the first says how many follow.
  rcases encodeChar_cases c with ⟨b, hb, hones, hread⟩ | ⟨b, bs, hb, hones, hmin, hmax⟩
  · rw [hb] at hbelow ⊢
    have hescaped := escaped_escapeByte (hbelow b List.mem_cons_self) rest
    unfold readChar
    rw [List.flatMap_singleton, hescaped]
    dsimp only
    rw [hones, if_pos rfl, hread]
  · have hchar := character_encodeChar c
    rw [hb] at hbelow hchar ⊢
    have hescaped := escaped_escapeByte (hbelow b List.mem_cons_self)
      (bs.flatMap escapeByte ++ rest)
    have hmore := escapes_flatMap (fun x hx => hbelow x (List.mem_cons_of_mem _ hx)) rest
    unfold readChar
    rw [List.flatMap_cons, List.append_assoc, hescaped]
    dsimp only
    rw [hones, if_neg (by omega), if_neg (by omega), Nat.add_sub_cancel, hmore]
    dsimp only
    rw [hchar]
    rfl

theorem percent_not_unreserved : isUnreserved '%' = false := by decide

theorem length_escapes_pos (c : Char) (rest : List Char) :
    ∃ cs, (Utf8.encodeChar c).flatMap escapeByte ++ rest = '%' :: cs := by
  rcases encodeChar_cases c with ⟨b, hb, _⟩ | ⟨b, bs, hb, _⟩
  · exact ⟨_, by rw [hb]; rfl⟩
  · exact ⟨_, by rw [hb]; rfl⟩

/-- Reading undoes writing, with enough steps. -/
theorem decodeWith_encode (text : List Char) : ∀ n, (encodeURIComponent text).length ≤ n →
    decodeWith n (encodeURIComponent text) = some text := by
  induction text with
  | nil =>
      intro n _
      cases n <;> rfl
  | cons c text ih =>
      intro n hn
      have hsplit : encodeURIComponent (c :: text) =
          (if isUnreserved c then [c] else (Utf8.encodeChar c).flatMap escapeByte) ++
            encodeURIComponent text := List.flatMap_cons
      rw [hsplit] at hn ⊢
      -- A character that is kept is read as itself.
      by_cases hc : isUnreserved c = true
      · have hne : c ≠ '%' := by
          rintro rfl
          exact absurd hc (by rw [percent_not_unreserved]; decide)
        rw [if_pos hc, List.singleton_append] at hn ⊢
        cases n with
        | zero => cases hn
        | succ n =>
            rw [decodeWith, if_neg hne, ih n (Nat.le_of_succ_le_succ hn)]
            rfl
      -- The bytes of any other are read as one character.
      · rw [if_neg hc] at hn ⊢
        obtain ⟨cs, hcs⟩ := length_escapes_pos c (encodeURIComponent text)
        have hread := readChar_encodeChar c (encodeURIComponent text)
        have hshort : (encodeURIComponent text).length < n := by
          have hpos : 0 < ((Utf8.encodeChar c).flatMap escapeByte).length := by
            rcases encodeChar_cases c with ⟨b, hb, _⟩ | ⟨b, bs, hb, _⟩
            · rw [hb]
              exact Nat.zero_lt_succ _
            · rw [hb]
              exact Nat.zero_lt_succ _
          rw [List.length_append] at hn
          omega
        rw [hcs] at hread ⊢
        cases n with
        | zero => omega
        | succ n =>
            rw [decodeWith, if_pos rfl, hread]
            dsimp only
            rw [ih n (by omega)]
            rfl

/-- Reading undoes writing. -/
theorem decode_encode (text : List Char) :
    decodeURIComponent (encodeURIComponent text) = some text :=
  decodeWith_encode text _ (Nat.le_refl _)

/-- What is written is unreserved, or belongs to an escape. -/
theorem mem_encode {text : List Char} {c : Char} (h : c ∈ encodeURIComponent text) :
    isUnreserved c = true ∨ c = '%' ∨ c ∈ hexDigits := by
  obtain ⟨d, _, hd⟩ := List.mem_flatMap.mp h
  by_cases hun : isUnreserved d = true
  · rw [if_pos hun, List.mem_singleton] at hd
    exact .inl (hd ▸ hun)
  · rw [if_neg hun] at hd
    obtain ⟨b, hb, hc⟩ := List.mem_flatMap.mp hd
    have hlt := Utf8.below_encodeChar d b hb
    have hmem : ∀ k, k < 16 → hexDigits.getD k '0' ∈ hexDigits := by decide
    simp only [escapeByte, List.mem_cons, List.not_mem_nil, or_false] at hc
    rcases hc with rfl | rfl | rfl
    · exact .inr (.inl rfl)
    · exact .inr (.inr (hmem _ (by omega)))
    · exact .inr (.inr (hmem _ (by omega)))

/-- Letters and digits are ASCII. -/
theorem ascii_of_isAlphanum {c : Char} (h : c.isAlphanum = true) : c.toNat < 0x80 := by
  change (decide (_ ∧ _) || (decide _ && decide _) || (decide _ && decide _)) = true at h
  simp only [Bool.or_eq_true, Bool.and_eq_true, decide_eq_true_eq] at h
  have hnat : c.toNat = c.val.toNat := rfl
  rw [hnat]
  rcases h with (⟨_, h⟩ | ⟨_, h⟩) | ⟨_, h⟩
  · exact Nat.lt_of_le_of_lt (UInt32.le_iff_toNat_le.mp h) (by decide)
  · exact Nat.lt_of_le_of_lt (UInt32.le_iff_toNat_le.mp h) (by decide)
  · exact Nat.lt_of_le_of_lt (UInt32.le_iff_toNat_le.mp h) (by decide)

/-- What stands for itself is ASCII. -/
theorem ascii_of_isUnreserved {c : Char} (h : isUnreserved c = true) : c.toNat < 0x80 := by
  unfold isUnreserved at h
  simp only [Bool.or_eq_true, decide_eq_true_eq] at h
  rcases h with (h | h) | h
  · exact ascii_of_isAlphanum h
  · have hall : ['-', '_', '.', '!', '~', '*', '(', ')'].all (·.toNat < 0x80) = true := by decide
    exact of_decide_eq_true (List.all_eq_true.mp hall c h)
  · omega

/-- All that is written is ASCII, and there is no colon. -/
theorem encode_ascii {text : List Char} {c : Char} (h : c ∈ encodeURIComponent text) :
    c.toNat < 0x80 ∧ c ≠ ':' := by
  rcases mem_encode h with h | rfl | h
  · refine ⟨ascii_of_isUnreserved h, ?_⟩
    rintro rfl
    exact absurd h (by decide)
  · decide
  · have hhex : hexDigits.all (fun d => d.toNat < 0x80 ∧ d ≠ ':') = true := by decide
    exact of_decide_eq_true (List.all_eq_true.mp hhex c h)

theorem encode_ne_nil {text : List Char} (h : text ≠ []) : encodeURIComponent text ≠ [] := by
  cases text with
  | nil => exact absurd rfl h
  | cons c text =>
      have hsplit : encodeURIComponent (c :: text) =
          (if isUnreserved c then [c] else (Utf8.encodeChar c).flatMap escapeByte) ++
            encodeURIComponent text := List.flatMap_cons
      rw [hsplit]
      by_cases hc : isUnreserved c = true
      · rw [if_pos hc]
        exact List.cons_ne_nil _ _
      · rw [if_neg hc]
        obtain ⟨cs, hcs⟩ := length_escapes_pos c (encodeURIComponent text)
        rw [hcs]
        exact List.cons_ne_nil _ _

end Encoding.Percent
