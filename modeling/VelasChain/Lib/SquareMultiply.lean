import Mathlib

/-!
# Left-to-right binary exponentiation

The square-and-multiply loop (Handbook of Applied Cryptography, Algorithm 14.79): the bits of
the exponent are read from the most significant one down, and each bit squares the running
result and, when it is set, multiplies it by the base, reducing modulo `m` after each product.
Started from one, the loop computes `base ^ e % m` for the number `e` the bits spell.

`ofBits` is the number a list of bits spells, most significant first, and `bitsOf k n` the `k`
low bits of `n` in that order.
-/

namespace SquareMultiply

/-- The number whose binary digits are `bits`, most significant first. -/
def ofBits (bits : List Bool) : ℕ := bits.foldl (fun n b => 2 * n + b.toNat) 0

/-- The `k` low bits of `n`, most significant first. -/
def bitsOf (k n : ℕ) : List Bool := (List.range k).map fun i => n.testBit (k - 1 - i)

@[simp] lemma ofBits_nil : ofBits [] = 0 := rfl

lemma foldl_ofBits (a : ℕ) (bits : List Bool) :
    bits.foldl (fun n b => 2 * n + b.toNat) a = a * 2 ^ bits.length + ofBits bits := by
  induction bits generalizing a with
  | nil => simp
  | cons b bits ih =>
    have hcons : ofBits (b :: bits) = b.toNat * 2 ^ bits.length + ofBits bits := by
      rw [ofBits, List.foldl_cons, ih, Nat.mul_zero, Nat.zero_add]
    rw [List.foldl_cons, ih, hcons, List.length_cons, Nat.pow_succ]
    ring

lemma ofBits_cons (b : Bool) (bits : List Bool) :
    ofBits (b :: bits) = b.toNat * 2 ^ bits.length + ofBits bits := by
  rw [ofBits, List.foldl_cons, foldl_ofBits, Nat.mul_zero, Nat.zero_add]

lemma ofBits_append (l l' : List Bool) :
    ofBits (l ++ l') = ofBits l * 2 ^ l'.length + ofBits l' := by
  rw [ofBits, List.foldl_append, foldl_ofBits]
  rfl

@[simp] lemma length_bitsOf (k n : ℕ) : (bitsOf k n).length = k := by
  simp [bitsOf]

/-- The low `k + 1` bits of `n` are the low `k` bits of `n / 2`, then the last bit of `n`. -/
lemma bitsOf_succ (k n : ℕ) : bitsOf (k + 1) n = bitsOf k (n / 2) ++ [n.testBit 0] := by
  simp only [bitsOf, List.range_succ, List.map_append, List.map_cons, List.map_nil,
    Nat.add_sub_cancel, Nat.sub_self]
  congr 1
  apply List.map_congr_left
  intro i hi
  rw [List.mem_range] at hi
  rw [Nat.testBit_div_two, show k - 1 - i + 1 = k - i by omega]

lemma ofBits_bitsOf {k n : ℕ} (h : n < 2 ^ k) : ofBits (bitsOf k n) = n := by
  induction k generalizing n with
  | zero =>
    obtain rfl : n = 0 := by simpa using h
    rfl
  | succ k ih =>
    have hhalf : n / 2 < 2 ^ k := by
      rw [Nat.pow_succ] at h
      omega
    rw [bitsOf_succ, ofBits_append, ih hhalf, ofBits_cons, Nat.testBit_zero]
    rcases Nat.mod_two_eq_zero_or_one n with hbit | hbit <;> simp [hbit] <;> omega

/-! ### The loop -/

variable (base m : ℕ)

/-- One bit of the loop: square the result, then multiply it by the base when the bit is set. -/
def step (r : ℕ) (bit : Bool) : ℕ :=
  if bit then r * r % m * base % m else r * r % m

variable {base m}

lemma step_modEq (r : ℕ) (bit : Bool) : step base m r bit ≡ r ^ 2 * base ^ bit.toNat [MOD m] := by
  cases bit with
  | false => simpa [step, pow_two] using Nat.mod_modEq (r * r) m
  | true =>
    simp only [step, if_true, Bool.toNat_true, pow_one, pow_two]
    exact (Nat.mod_modEq _ m).trans ((Nat.mod_modEq _ m).mul_right base)

/-- From any start `r`, the loop over `bits` multiplies `r ^ 2 ^ bits.length` by the power of
the base the bits spell, modulo `m`. -/
theorem foldl_step_modEq (bits : List Bool) (r : ℕ) :
    bits.foldl (step base m) r ≡ r ^ 2 ^ bits.length * base ^ ofBits bits [MOD m] := by
  induction bits generalizing r with
  | nil => simp [Nat.ModEq]
  | cons b bits ih =>
    rw [List.foldl_cons, ofBits_cons, List.length_cons]
    calc bits.foldl (step base m) (step base m r b)
        ≡ step base m r b ^ 2 ^ bits.length * base ^ ofBits bits [MOD m] := ih _
      _ ≡ (r ^ 2 * base ^ b.toNat) ^ 2 ^ bits.length * base ^ ofBits bits [MOD m] :=
          ((step_modEq r b).pow _).mul_right _
      _ = r ^ 2 ^ (bits.length + 1) * base ^ (b.toNat * 2 ^ bits.length + ofBits bits) := by
          rw [mul_pow, ← pow_mul, ← pow_mul, Nat.pow_succ, pow_add]
          ring

lemma step_lt (hm : 0 < m) (r : ℕ) (bit : Bool) : step base m r bit < m := by
  cases bit <;> exact Nat.mod_lt _ hm

lemma foldl_step_lt (hm : 0 < m) {bits : List Bool} (hbits : bits ≠ []) (r : ℕ) :
    bits.foldl (step base m) r < m := by
  induction bits generalizing r with
  | nil => contradiction
  | cons b bits ih =>
    rw [List.foldl_cons]
    by_cases hnil : bits = []
    · subst hnil
      exact step_lt hm r b
    · exact ih hnil _

/-- Started from one over a nonempty list of bits, the loop computes `base ^ e % m`. -/
theorem foldl_step_one (hm : 0 < m) {bits : List Bool} (hbits : bits ≠ []) :
    bits.foldl (step base m) 1 = base ^ ofBits bits % m := by
  have hmod := @foldl_step_modEq base m bits 1
  rw [one_pow, one_mul] at hmod
  exact (Nat.mod_eq_of_lt (foldl_step_lt hm hbits 1)).symm.trans hmod

end SquareMultiply
