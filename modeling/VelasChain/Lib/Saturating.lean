import Mathlib

/-!
# Saturating arithmetic and bit counts on unsigned machine integers

On an unsigned integer of `w` bits, `saturating_add`, `saturating_mul` and `saturating_pow` stop
at the largest value `2 ^ w - 1` instead of wrapping; `saturating_sub` stops at zero, which is
subtraction of naturals. `next_power_of_two` wraps to zero where the power does not fit, as in a
release build, and `trailing_zeros` of zero is the width.

Below the largest value each operation is the operation on naturals, and `next_power_of_two`
is `2 ^ Nat.clog 2 n`; the lemmas say so, and how the saturating operations nest.
-/

namespace Saturating

variable {w a b c a' b' k n : ℕ}

/-- `a.saturating_add(b)` on `w` bits. -/
def add (w a b : ℕ) : ℕ := min (a + b) (2 ^ w - 1)

/-- `a.saturating_mul(b)` on `w` bits. -/
def mul (w a b : ℕ) : ℕ := min (a * b) (2 ^ w - 1)

/-- `b.saturating_pow(k)` on `w` bits. -/
def pow (w b k : ℕ) : ℕ := min (b ^ k) (2 ^ w - 1)

/-- `n.next_power_of_two()` on `w` bits: the least power of two at least `n`. -/
def nextPowerOfTwo (w n : ℕ) : ℕ := 2 ^ Nat.clog 2 n % 2 ^ w

/-- `n.trailing_zeros()` on `w` bits. -/
def trailingZeros : ℕ → ℕ → ℕ
  | 0, _ => 0
  | w + 1, n => if n % 2 = 1 then 0 else trailingZeros w (n / 2) + 1

lemma add_of_le (h : a + b ≤ 2 ^ w - 1) : add w a b = a + b := min_eq_left h

lemma pow_of_le (h : a ^ k ≤ 2 ^ w - 1) : pow w a k = a ^ k := min_eq_left h

lemma add_le : add w a b ≤ 2 ^ w - 1 := min_le_right _ _

/-- A power of two below the width fits. -/
lemma two_pow_le_max (h : k < w) : 2 ^ k ≤ 2 ^ w - 1 := by
  have := Nat.pow_lt_pow_right Nat.one_lt_two h
  omega

lemma add_mono (ha : a ≤ a') (hb : b ≤ b') : add w a b ≤ add w a' b' := by
  unfold add
  omega

/-- Adding to a saturated value saturates the whole sum. -/
lemma add_min_left : add w (min a (2 ^ w - 1)) b = min (a + b) (2 ^ w - 1) := by
  unfold add
  omega

/-- A saturated product plus a value is the saturated sum. -/
lemma add_mul : add w (mul w a b) c = min (a * b + c) (2 ^ w - 1) := add_min_left

lemma trailingZeros_two_pow (h : k < w) : trailingZeros w (2 ^ k) = k := by
  induction k generalizing w with
  | zero =>
    obtain ⟨w, rfl⟩ := Nat.exists_eq_add_one_of_ne_zero (Nat.pos_iff_ne_zero.mp h)
    simp [trailingZeros]
  | succ k ih =>
    obtain ⟨w, rfl⟩ := Nat.exists_eq_add_one_of_ne_zero (Nat.pos_iff_ne_zero.mp
      (Nat.zero_lt_of_lt h))
    have heven : 2 ^ k * 2 % 2 = 0 := Nat.mul_mod_left _ _
    rw [trailingZeros, Nat.pow_succ, if_neg (by omega), Nat.mul_div_cancel _ Nat.zero_lt_two,
      ih (by omega)]

/-- Below `2 ^ k`, with `k` less than the width, the next power of two does not wrap. -/
lemma nextPowerOfTwo_of_le (hn : n ≤ 2 ^ k) (hk : k < w) :
    nextPowerOfTwo w n = 2 ^ Nat.clog 2 n := by
  have hlog : Nat.clog 2 n ≤ k := Nat.clog_le_of_le_pow hn
  exact Nat.mod_eq_of_lt (Nat.pow_lt_pow_right Nat.one_lt_two (by omega))

end Saturating
