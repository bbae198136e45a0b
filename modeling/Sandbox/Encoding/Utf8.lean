import Sandbox.Radix.Digits

/-!
# UTF-8

Characters as bytes and bytes as characters. Bytes are numbers.

Reading never fails. A byte that cannot begin a character, or cannot go on with
the one that has begun, stands for a replacement character, and in the second
case it is read again as a beginning. Reading is a machine that holds the
character that has begun: how many bytes are missing, the bits so far, and the
range of the next byte. The ranges keep out characters written with more bytes
than they need, surrogates, and what lies beyond the last character.

## Main definitions

* `encodeChar`, `encode`: The bytes of characters.
* `Pending`, `first`, `next`, `decodeFrom`, `decode`: The machine that reads.

## Theorems

* `below_encode`: What is written are bytes.
* `decode_encode`: Reading undoes writing.
* `encode_ascii`: Characters of ASCII are their own bytes.
-/

namespace Encoding.Utf8

open Radix

/-- The bytes of a character. -/
def encodeChar (c : Char) : List Nat :=
  let n := c.toNat
  if n < 0x80 then [n]
  else if n < 0x800 then [0xC0 + n / 64, 0x80 + n % 64]
  else if n < 0x10000 then [0xE0 + n / 4096, 0x80 + n / 64 % 64, 0x80 + n % 64]
  else [0xF0 + n / 262144, 0x80 + n / 4096 % 64, 0x80 + n / 64 % 64, 0x80 + n % 64]

def encode (text : List Char) : List Nat := text.flatMap encodeChar

/-- A character that has begun. -/
structure Pending where
  /-- The number of bytes that are missing. -/
  needed : Nat
  point : Nat
  /-- The range of the next byte. -/
  lower : Nat
  upper : Nat

/-- U+FFFD -/
def replacement : Char := Char.ofNat 0xFFFD

/-- A byte at the beginning of a character. -/
def first (b : Nat) : List Char × Option Pending :=
  if b < 0x80 then ([Char.ofNat b], none)
  else if 0xC2 ≤ b ∧ b ≤ 0xDF then ([], some ⟨1, b - 0xC0, 0x80, 0xBF⟩)
  else if 0xE0 ≤ b ∧ b ≤ 0xEF then
    ([], some ⟨2, b - 0xE0, if b = 0xE0 then 0xA0 else 0x80, if b = 0xED then 0x9F else 0xBF⟩)
  else if 0xF0 ≤ b ∧ b ≤ 0xF4 then
    ([], some ⟨3, b - 0xF0, if b = 0xF0 then 0x90 else 0x80, if b = 0xF4 then 0x8F else 0xBF⟩)
  else ([replacement], none)

/-- The characters that a byte completes, and what has begun after it. -/
def next : Option Pending → Nat → List Char × Option Pending
  | none, b => first b
  | some p, b =>
      if p.lower ≤ b ∧ b ≤ p.upper then
        if p.needed ≤ 1 then ([Char.ofNat (p.point * 64 + (b - 0x80))], none)
        else ([], some ⟨p.needed - 1, p.point * 64 + (b - 0x80), 0x80, 0xBF⟩)
      else (replacement :: (first b).1, (first b).2)

def decodeFrom : Option Pending → List Nat → List Char
  | none, [] => []
  | some _, [] => [replacement]
  | p, b :: bs => (next p b).1 ++ decodeFrom (next p b).2 bs

def decode (bytes : List Nat) : List Char := decodeFrom none bytes

section Writing

theorem toNat_bounds (c : Char) :
    c.toNat < 0xD800 ∨ 0xDFFF < c.toNat ∧ c.toNat < 0x110000 := c.valid

theorem below_encodeChar (c : Char) : Below 8 (encodeChar c) := by
  have hc := toNat_bounds c
  intro d hd
  unfold encodeChar at hd
  dsimp only at hd
  split at hd
  · simp only [List.mem_cons, List.not_mem_nil, or_false] at hd
    omega
  · split at hd
    · simp only [List.mem_cons, List.not_mem_nil, or_false] at hd
      omega
    · split at hd
      · simp only [List.mem_cons, List.not_mem_nil, or_false] at hd
        omega
      · simp only [List.mem_cons, List.not_mem_nil, or_false] at hd
        omega

/-- What is written are bytes. -/
theorem below_encode (text : List Char) : Below 8 (encode text) := by
  intro d hd
  obtain ⟨c, _, hmem⟩ := List.mem_flatMap.mp hd
  exact below_encodeChar c d hmem

/-- Characters of ASCII are their own bytes. -/
theorem encode_ascii {text : List Char} (h : ∀ c ∈ text, c.toNat < 0x80) :
    encode text = text.map Char.toNat := by
  induction text with
  | nil => rfl
  | cons c text ih =>
      have hc : encodeChar c = [c.toNat] := if_pos (h c List.mem_cons_self)
      have hrest := ih fun x hx => h x (List.mem_cons_of_mem _ hx)
      unfold encode at hrest ⊢
      rw [List.flatMap_cons, hc, hrest]
      rfl

end Writing

section Reading

theorem decodeFrom_cons {p q : Option Pending} {b : Nat} {cs : List Char} (bs : List Nat)
    (h : next p b = (cs, q)) : decodeFrom p (b :: bs) = cs ++ decodeFrom q bs := by
  cases p <;> rw [decodeFrom, h]

/-- A byte in the range goes on with a character. -/
theorem next_more {p : Pending} {b : Nat} (hlow : p.lower ≤ b) (hhigh : b ≤ p.upper)
    (hmore : 1 < p.needed) :
    next (some p) b = ([], some ⟨p.needed - 1, p.point * 64 + (b - 0x80), 0x80, 0xBF⟩) := by
  unfold next
  dsimp only
  rw [if_pos ⟨hlow, hhigh⟩, if_neg (by omega)]

/-- The last byte completes a character. -/
theorem next_last {p : Pending} {b : Nat} (hlow : p.lower ≤ b) (hhigh : b ≤ p.upper)
    (hlast : p.needed = 1) :
    next (some p) b = ([Char.ofNat (p.point * 64 + (b - 0x80))], none) := by
  unfold next
  dsimp only
  rw [if_pos ⟨hlow, hhigh⟩, if_pos (by omega)]

theorem next_two {b : Nat} (hlow : 0xC2 ≤ b) (hhigh : b ≤ 0xDF) :
    next none b = ([], some ⟨1, b - 0xC0, 0x80, 0xBF⟩) := by
  unfold next first
  dsimp only
  rw [if_neg (by omega), if_pos ⟨hlow, hhigh⟩]

theorem next_three {b : Nat} (hlow : 0xE0 ≤ b) (hhigh : b ≤ 0xEF) :
    next none b = ([], some ⟨2, b - 0xE0, if b = 0xE0 then 0xA0 else 0x80,
      if b = 0xED then 0x9F else 0xBF⟩) := by
  unfold next first
  dsimp only
  rw [if_neg (by omega), if_neg (by omega), if_pos ⟨hlow, hhigh⟩]

theorem next_four {b : Nat} (hlow : 0xF0 ≤ b) (hhigh : b ≤ 0xF4) :
    next none b = ([], some ⟨3, b - 0xF0, if b = 0xF0 then 0x90 else 0x80,
      if b = 0xF4 then 0x8F else 0xBF⟩) := by
  unfold next first
  dsimp only
  rw [if_neg (by omega), if_neg (by omega), if_neg (by omega), if_pos ⟨hlow, hhigh⟩]

/-- A character is read from its bytes, and nothing has begun after it. -/
theorem decodeFrom_encodeChar (c : Char) (rest : List Nat) :
    decodeFrom none (encodeChar c ++ rest) = c :: decodeFrom none rest := by
  have hc := toNat_bounds c
  have hread : ∀ m, m = c.toNat → Char.ofNat m = c := by
    rintro m rfl
    exact Char.ofNat_toNat c
  unfold encodeChar
  dsimp only
  generalize c.toNat = n at hc hread
  by_cases h1 : n < 0x80
  · have hone : next none n = ([c], none) := by
      unfold next first
      dsimp only
      rw [if_pos h1, hread n rfl]
    rw [if_pos h1, List.singleton_append, decodeFrom_cons rest hone, List.singleton_append]
  rw [if_neg h1]
  by_cases h2 : n < 0x800
  · rw [if_pos h2]
    simp only [List.cons_append, List.nil_append]
    have hfirst := next_two (b := 0xC0 + n / 64) (by omega) (by omega)
    rw [decodeFrom_cons _ hfirst, List.nil_append]
    rw [decodeFrom_cons _ (next_last (by dsimp only; omega) (by dsimp only; omega) rfl),
      hread _ (by dsimp only; omega), List.singleton_append]
  rw [if_neg h2]
  by_cases h3 : n < 0x10000
  · rw [if_pos h3]
    simp only [List.cons_append, List.nil_append]
    have hfirst := next_three (b := 0xE0 + n / 4096) (by omega) (by omega)
    rw [decodeFrom_cons _ hfirst, List.nil_append]
    -- The range of the second byte depends on the first one.
    rw [decodeFrom_cons _ (next_more (by dsimp only; split <;> omega)
      (by dsimp only; split <;> omega) (by dsimp only; omega)), List.nil_append]
    rw [decodeFrom_cons _ (next_last (by dsimp only; omega) (by dsimp only; omega) rfl),
      hread _ (by dsimp only; omega), List.singleton_append]
  · rw [if_neg h3]
    simp only [List.cons_append, List.nil_append]
    have hfirst := next_four (b := 0xF0 + n / 262144) (by omega) (by omega)
    rw [decodeFrom_cons _ hfirst, List.nil_append]
    rw [decodeFrom_cons _ (next_more (by dsimp only; split <;> omega)
      (by dsimp only; split <;> omega) (by dsimp only; omega)), List.nil_append]
    rw [decodeFrom_cons _ (next_more (by dsimp only; omega) (by dsimp only; omega)
      (by dsimp only; omega)), List.nil_append]
    rw [decodeFrom_cons _ (next_last (by dsimp only; omega) (by dsimp only; omega) rfl),
      hread _ (by dsimp only; omega), List.singleton_append]

/-- Reading undoes writing. -/
theorem decode_encode (text : List Char) : decode (encode text) = text := by
  unfold decode encode
  induction text with
  | nil => rfl
  | cons c text ih => rw [List.flatMap_cons, decodeFrom_encodeChar, ih]

end Reading

end Encoding.Utf8
