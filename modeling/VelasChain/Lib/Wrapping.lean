import Mathlib

/-!
# Wrapping and checked arithmetic on unsigned machine integers

Without overflow checks, as in a release build, `+`, `-` and `*` on an unsigned integer of `w`
bits wrap around instead of panicking. Values are naturals below `2 ^ w`; each operation reduces
modulo `2 ^ w`, and agrees with the operation on naturals when nothing overflows. A sum of a
list wraps as the sum of the naturals reduced once. The `checked_*` operations return `none`
where the result does not fit.
-/

namespace Wrapping

variable {w a b : ℕ}

/-- `a + b` on `w` bits. -/
def add (w a b : ℕ) : ℕ := (a + b) % 2 ^ w

/-- `a - b` on `w` bits. -/
def sub (w a b : ℕ) : ℕ := (a + (2 ^ w - b % 2 ^ w)) % 2 ^ w

/-- `a * b` on `w` bits. -/
def mul (w a b : ℕ) : ℕ := (a * b) % 2 ^ w

/-- `Iterator::sum` on `w` bits. -/
def sum (w : ℕ) (l : List ℕ) : ℕ := l.foldl (add w) 0

/-- `a.checked_add(b)` on `w` bits. -/
def checkedAdd (w a b : ℕ) : Option ℕ := if a + b < 2 ^ w then some (a + b) else none

/-- `a.checked_mul(b)` on `w` bits. -/
def checkedMul (w a b : ℕ) : Option ℕ := if a * b < 2 ^ w then some (a * b) else none

/-- `a.checked_sub(b)`. -/
def checkedSub (a b : ℕ) : Option ℕ := if b ≤ a then some (a - b) else none

/-- `a.checked_div(b)`. -/
def checkedDiv (a b : ℕ) : Option ℕ := if b = 0 then none else some (a / b)

/-- `a.checked_rem(b)`. -/
def checkedRem (a b : ℕ) : Option ℕ := if b = 0 then none else some (a % b)

lemma add_of_lt (h : a + b < 2 ^ w) : add w a b = a + b := Nat.mod_eq_of_lt h

lemma add_lt : add w a b < 2 ^ w := Nat.mod_lt _ (Nat.two_pow_pos w)

lemma mul_of_lt (h : a * b < 2 ^ w) : mul w a b = a * b := Nat.mod_eq_of_lt h

lemma sub_of_le (hb : b ≤ a) (ha : a < 2 ^ w) : sub w a b = a - b := by
  have hbw : b % 2 ^ w = b := Nat.mod_eq_of_lt (lt_of_le_of_lt hb ha)
  rw [sub, hbw, show a + (2 ^ w - b) = (a - b) + 2 ^ w by omega, Nat.add_mod_right,
    Nat.mod_eq_of_lt (by omega)]

lemma foldl_add (l : List ℕ) (s : ℕ) : l.foldl (add w) (s % 2 ^ w) = (s + l.sum) % 2 ^ w := by
  induction l generalizing s with
  | nil => simp
  | cons x l ih =>
    rw [List.foldl_cons, List.sum_cons, add, Nat.mod_add_mod, ih, Nat.add_assoc]

/-- A wrapping sum is the sum reduced once. -/
lemma sum_eq (l : List ℕ) : sum w l = l.sum % 2 ^ w := by
  have h := foldl_add (w := w) l 0
  rwa [Nat.zero_mod, Nat.zero_add] at h

lemma sum_of_lt {l : List ℕ} (h : l.sum < 2 ^ w) : sum w l = l.sum := by
  rw [sum_eq, Nat.mod_eq_of_lt h]

/-! ### Rounding up

`(n + d - 1) / d` is `n / d` rounded up: times `d`, it is at least `n` and less than `n + d`. -/

section RoundingUp

variable {n d k : ℕ}

lemma le_add_sub_one_div_mul (hd : 0 < d) : n ≤ (n + d - 1) / d * d := by
  have h := Nat.lt_mul_div_succ (n + d - 1) hd
  rw [Nat.mul_add, Nat.mul_one, Nat.mul_comm] at h
  omega

lemma add_sub_one_div_mul_lt (hd : 0 < d) : (n + d - 1) / d * d < n + d := by
  have h := Nat.div_mul_le_self (n + d - 1) d
  omega

lemma add_sub_one_div_le (hd : 0 < d) (h : n ≤ k * d) : (n + d - 1) / d ≤ k := by
  have hlt : (n + d - 1) / d * d < (k + 1) * d := by
    have := add_sub_one_div_mul_lt (n := n) hd
    rw [Nat.add_mul, Nat.one_mul]
    omega
  exact Nat.le_of_lt_succ (Nat.lt_of_mul_lt_mul_right hlt)

lemma le_add_sub_one_div (hd : 0 < d) (h : k * d ≤ n) : k ≤ (n + d - 1) / d :=
  (Nat.le_div_iff_mul_le hd).mpr (by omega)

end RoundingUp

end Wrapping
