import Mathlib

/-!
# Signed machine integers

A signed integer of `n` bits holds the integers from `-2 ^ (n - 1)` to `2 ^ (n - 1) - 1`. `as`
between a signed and an unsigned integer of the same width keeps the bits, so it moves a value
that does not fit by `2 ^ n`. `saturating_add` and `saturating_sub` stop at the ends of the range.
Inside the range each is the operation on integers.
-/

namespace Signed

variable {n : ℕ} {a b : ℤ} {x : ℕ}

/-- `x as iN` of an unsigned `x` of `n` bits. -/
def ofUnsigned (n x : ℕ) : ℤ := if x < 2 ^ (n - 1) then x else x - 2 ^ n

/-- `x as uN` of a signed `x` of `n` bits. -/
def toUnsigned (n : ℕ) (x : ℤ) : ℕ := (x % 2 ^ n).toNat

/-- `a.saturating_add(b)` on `n` bits. -/
def saturatingAdd (n : ℕ) (a b : ℤ) : ℤ := max (min (a + b) (2 ^ (n - 1) - 1)) (-2 ^ (n - 1))

/-- `a.saturating_sub(b)` on `n` bits. -/
def saturatingSub (n : ℕ) (a b : ℤ) : ℤ := max (min (a - b) (2 ^ (n - 1) - 1)) (-2 ^ (n - 1))

lemma ofUnsigned_of_lt (h : x < 2 ^ (n - 1)) : ofUnsigned n x = x := if_pos h

lemma toUnsigned_of_lt (h0 : 0 ≤ a) (h : a < 2 ^ n) : toUnsigned n a = a.toNat := by
  rw [toUnsigned, Int.emod_eq_of_lt h0 h]

lemma saturatingAdd_of_le (hlo : -2 ^ (n - 1) ≤ a + b) (hhi : a + b ≤ 2 ^ (n - 1) - 1) :
    saturatingAdd n a b = a + b := by
  rw [saturatingAdd, min_eq_left hhi, max_eq_left hlo]

lemma saturatingSub_of_le (hlo : -2 ^ (n - 1) ≤ a - b) (hhi : a - b ≤ 2 ^ (n - 1) - 1) :
    saturatingSub n a b = a - b := by
  rw [saturatingSub, min_eq_left hhi, max_eq_left hlo]

/-- Adding an unsigned value that keeps a nonnegative sum below the top of the range. -/
lemma saturatingAdd_ofUnsigned (h0 : 0 ≤ a) (h : a + x < 2 ^ (n - 1)) :
    saturatingAdd n a (ofUnsigned n x) = a + x := by
  have hx : (x : ℤ) < 2 ^ (n - 1) := by omega
  have hpos : (0 : ℤ) < 2 ^ (n - 1) := Int.pow_pos (by decide)
  rw [ofUnsigned_of_lt (by exact_mod_cast hx), saturatingAdd_of_le] <;> omega

/-- Subtracting an unsigned value at most a value below the top of the range. -/
lemma saturatingSub_ofUnsigned (hx : (x : ℤ) ≤ a) (h : a < 2 ^ (n - 1)) :
    saturatingSub n a (ofUnsigned n x) = a - x := by
  have hx' : (x : ℤ) < 2 ^ (n - 1) := by omega
  have hpos : (0 : ℤ) < 2 ^ (n - 1) := Int.pow_pos (by decide)
  rw [ofUnsigned_of_lt (by exact_mod_cast hx'), saturatingSub_of_le] <;> omega

end Signed
