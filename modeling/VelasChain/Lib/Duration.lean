import Mathlib

/-!
# Durations

`std::time::Duration`, as its whole number of nanoseconds: from zero to `Duration::MAX`, which is
`u64::MAX` seconds and `999_999_999` nanoseconds. The operations are those of the standard library
of the toolchain: `saturating_mul` by a `u32` stops at `Duration::MAX` and `saturating_sub` at
zero, and division by a nonzero `u32` divides the seconds, carries their remainder into the
nanoseconds, and drops the remainder of the nanoseconds' own division (`divNanos`). Durations are
ordered by their nanoseconds, as by seconds and then nanoseconds.
-/

/-- `NANOS_PER_SEC`. -/
def Duration.nanosPerSec : ℕ := 10 ^ 9

lemma Duration.nanosPerSec_eq : Duration.nanosPerSec = 1000000000 := rfl

/-- `Duration::MAX`, in nanoseconds. -/
def Duration.maxNanos : ℕ := 2 ^ 64 * Duration.nanosPerSec - 1

/-- `std::time::Duration`, as its nanoseconds. -/
structure Duration where
  toNanos : ℕ
  toNanos_le : toNanos ≤ Duration.maxNanos

namespace Duration

variable {n r : ℕ}

instance : DecidableEq Duration := fun a b =>
  decidable_of_iff (a.toNanos = b.toNanos) (by cases a; cases b; simp)

instance : LT Duration := ⟨fun a b => a.toNanos < b.toNanos⟩

instance (a b : Duration) : Decidable (a < b) := inferInstanceAs (Decidable (a.toNanos < b.toNanos))

lemma lt_iff {a b : Duration} : a < b ↔ a.toNanos < b.toNanos := Iff.rfl

/-- `Duration::ZERO`. -/
def zero : Duration := ⟨0, Nat.zero_le _⟩

/-- `Duration::MAX`. -/
def max : Duration := ⟨maxNanos, le_rfl⟩

/-- `Duration::as_secs`. -/
def asSecs (d : Duration) : ℕ := d.toNanos / nanosPerSec

lemma lt_two_pow_mul_nanosPerSec (h : n < 2 ^ 64) : n * nanosPerSec ≤ maxNanos := by
  unfold maxNanos nanosPerSec at *
  omega

/-- `Duration::from_secs` of a `u64`. -/
def fromSecs (s : ℕ) : Duration :=
  ⟨s % 2 ^ 64 * nanosPerSec, lt_two_pow_mul_nanosPerSec (Nat.mod_lt _ (Nat.two_pow_pos 64))⟩

/-- `d.saturating_mul(k)` of a `u32` `k`. -/
def saturatingMul (d : Duration) (k : ℕ) : Duration :=
  if h : d.toNanos * k ≤ maxNanos then ⟨d.toNanos * k, h⟩ else max

/-- `a.saturating_sub(b)`. -/
def saturatingSub (a b : Duration) : Duration :=
  if b.toNanos ≤ a.toNanos then ⟨a.toNanos - b.toNanos, (Nat.sub_le _ _).trans a.toNanos_le⟩
  else zero

/-- The nanoseconds of `d / r` for `d` of `n` nanoseconds: the seconds divided, and the
remainder of the seconds carried into the nanoseconds divided. -/
def divNanos (n r : ℕ) : ℕ :=
  n / nanosPerSec / r * nanosPerSec + (n % nanosPerSec / r + n / nanosPerSec % r * nanosPerSec / r)

lemma divNanos_le (n r : ℕ) : divNanos n r ≤ n := by
  unfold divNanos
  rcases Nat.eq_zero_or_pos r with rfl | hr
  · simp
  have hsecs : n / nanosPerSec / r + n / nanosPerSec % r ≤ n / nanosPerSec := by
    have hq : n / nanosPerSec / r ≤ n / nanosPerSec / r * r := Nat.le_mul_of_pos_right _ hr
    have hqr := Nat.div_add_mod' (n / nanosPerSec) r
    omega
  have hcarry : n / nanosPerSec % r * nanosPerSec / r ≤ n / nanosPerSec % r * nanosPerSec :=
    Nat.div_le_self _ _
  have hnanos : n % nanosPerSec / r ≤ n % nanosPerSec := Nat.div_le_self _ _
  have hn := Nat.div_add_mod' n nanosPerSec
  have hmul : (n / nanosPerSec / r + n / nanosPerSec % r) * nanosPerSec ≤
      n / nanosPerSec * nanosPerSec := Nat.mul_le_mul_right _ hsecs
  rw [Nat.add_mul] at hmul
  omega

/-- A hundred divides a second, so dividing by it loses nothing to the carry: it is the exact
division. -/
lemma divNanos_hundred (n : ℕ) : divNanos n 100 = n / 100 := by
  unfold divNanos
  rw [nanosPerSec_eq]
  omega

/-- `d / r` of a nonzero `u32` `r`. -/
def div (d : Duration) (r : ℕ) : Duration :=
  ⟨divNanos d.toNanos r, (divNanos_le _ _).trans d.toNanos_le⟩

@[simp] lemma toNanos_fromSecs (h : n < 2 ^ 64) : (fromSecs n).toNanos = n * nanosPerSec := by
  show n % 2 ^ 64 * nanosPerSec = n * nanosPerSec
  rw [Nat.mod_eq_of_lt h]

@[simp] lemma asSecs_fromSecs (h : n < 2 ^ 64) : (fromSecs n).asSecs = n := by
  rw [asSecs, toNanos_fromSecs h]
  exact Nat.mul_div_cancel n (by rw [nanosPerSec_eq]; omega)

lemma toNanos_saturatingMul {d : Duration} (h : d.toNanos * n ≤ maxNanos) :
    (d.saturatingMul n).toNanos = d.toNanos * n := by
  simp [saturatingMul, h]

@[simp] lemma toNanos_div (d : Duration) : (d.div r).toNanos = divNanos d.toNanos r := rfl

/-- Saturating at zero is subtraction of naturals. -/
@[simp] lemma toNanos_saturatingSub (a b : Duration) :
    (a.saturatingSub b).toNanos = a.toNanos - b.toNanos := by
  unfold saturatingSub
  split_ifs with h
  · rfl
  · simp only [zero]
    omega

end Duration
