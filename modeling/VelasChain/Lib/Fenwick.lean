import Mathlib

/-!
# Fenwick trees

A Fenwick (binary indexed) tree over the values `v 1, v 2, …` keeps at position `j` the sum of
the values at `(j - lowbit j, j]` (`node`), where `lowbit j` is the lowest set bit of `j`: the
largest power of two that divides it. A prefix sum walks down from `k`, clearing the lowest bit
each time (`queryLoop`), and a change of the value at `k` walks up, adding the lowest bit each
time (`updateLoop`).

The walk up from `k` passes exactly the positions whose range holds `k` (`covers_iff`): a
position `j` holds `k` when `k` is `j` itself, or when `j` holds `k + lowbit k`. So an update
changes every node that sums the value changed and no other (`Represents.updateLoop`), and the
walk down adds up consecutive ranges (`queryLoop_eq`).

On a machine word the lowest bit is `k & k.wrapping_neg()` and clearing it is `k ^ lowbit k`
(`land_two_pow_sub`, `xor_lowbit`).
-/

namespace Fenwick

/-- The lowest set bit of `k`, the largest power of two that divides it; `0` for `0`. -/
def lowbit (k : ℕ) : ℕ := if k = 0 then 0 else 2 ^ padicValNat 2 k

/-! ### The lowest set bit -/

section LowBit

variable {k j x : ℕ}

lemma lowbit_of_pos (hk : 0 < k) : lowbit k = 2 ^ padicValNat 2 k := if_neg hk.ne'

lemma lowbit_pos (hk : 0 < k) : 0 < lowbit k := by
  rw [lowbit_of_pos hk]
  exact Nat.two_pow_pos _

lemma lowbit_dvd (k : ℕ) : lowbit k ∣ k := by
  unfold lowbit
  split_ifs with hk
  · rw [hk]
  · exact pow_padicValNat_dvd

lemma lowbit_le (hk : 0 < k) : lowbit k ≤ k := Nat.le_of_dvd hk (lowbit_dvd k)

/-- A power of two divides `k` exactly when it divides the lowest bit of `k`. -/
lemma two_pow_dvd_iff (hk : 0 < k) {a : ℕ} : 2 ^ a ∣ k ↔ 2 ^ a ∣ lowbit k := by
  rw [lowbit_of_pos hk, padicValNat_dvd_iff_le hk.ne', Nat.pow_dvd_pow_iff_le_right (by norm_num)]

/-- Of two lowest bits, the smaller divides the larger. -/
lemma lowbit_dvd_lowbit (hk : 0 < k) (hj : 0 < j) (h : lowbit k ≤ lowbit j) :
    lowbit k ∣ lowbit j := by
  rw [lowbit_of_pos hk, lowbit_of_pos hj] at h ⊢
  exact Nat.pow_dvd_pow 2 ((Nat.pow_le_pow_iff_right (by norm_num)).mp h)

/-- A smaller lowest bit doubled still divides the larger. -/
lemma two_mul_lowbit_dvd_lowbit (hk : 0 < k) (hj : 0 < j) (h : lowbit k < lowbit j) :
    2 * lowbit k ∣ lowbit j := by
  rw [lowbit_of_pos hk, lowbit_of_pos hj] at h ⊢
  rw [← pow_succ']
  exact Nat.pow_dvd_pow 2 ((Nat.pow_lt_pow_iff_right (by norm_num)).mp h)

lemma not_two_mul_lowbit_dvd (hk : 0 < k) : ¬2 * lowbit k ∣ k := by
  rw [lowbit_of_pos hk, ← pow_succ']
  exact pow_succ_padicValNat_not_dvd hk.ne'

/-- `k` is its lowest bit times an odd number. -/
lemma exists_odd_mul (hk : 0 < k) : ∃ m, k = lowbit k * (2 * m + 1) := by
  have hnot := not_two_mul_lowbit_dvd hk
  obtain ⟨q, hq⟩ := lowbit_dvd k
  generalize lowbit k = L at hq hnot ⊢
  subst hq
  have hodd : q % 2 = 1 := by
    by_contra heven
    have hq : q = 2 * (q / 2) := by omega
    exact hnot ⟨q / 2, by nth_rewrite 1 [hq]; ring⟩
  exact ⟨q / 2, by congr 1; omega⟩

/-- Below the lowest bit of `j` lies a multiple of twice that bit. -/
lemma two_mul_lowbit_dvd_sub (hj : 0 < j) : 2 * lowbit j ∣ j - lowbit j := by
  obtain ⟨m, hm⟩ := exists_odd_mul hj
  generalize lowbit j = L at hm ⊢
  subst hm
  exact ⟨m, by rw [Nat.mul_add, Nat.mul_one, Nat.add_sub_cancel]; ring⟩

lemma lowbit_dvd_sub (hj : 0 < j) : lowbit j ∣ j - lowbit j :=
  (Nat.dvd_mul_left _ 2).trans (two_mul_lowbit_dvd_sub hj)

/-- Adding the lowest bit raises it. -/
lemma lowbit_lt_lowbit_add (hk : 0 < k) : lowbit k < lowbit (k + lowbit k) := by
  have hpos : 0 < k + lowbit k := by omega
  have hdvd : 2 * lowbit k ∣ k + lowbit k := by
    obtain ⟨m, hm⟩ := exists_odd_mul hk
    generalize lowbit k = L at hm ⊢
    subst hm
    exact ⟨m + 1, by ring⟩
  -- twice the lowest bit is a power of two that divides the sum, so its lowest bit
  have htwice : 2 * lowbit k = 2 ^ (padicValNat 2 k + 1) := by rw [lowbit_of_pos hk, pow_succ']
  rw [htwice, two_pow_dvd_iff hpos, ← htwice] at hdvd
  calc lowbit k < 2 * lowbit k := by have := lowbit_pos hk; omega
    _ ≤ lowbit (k + lowbit k) := Nat.le_of_dvd (lowbit_pos hpos) hdvd

/-- Two multiples of `d` less than `d` apart are equal. -/
lemma eq_of_dvd_of_le_of_lt {d a b : ℕ} (ha : d ∣ a) (hb : d ∣ b) (hab : a ≤ b) (hba : b < a + d) :
    b = a := by
  have hzero : b - a = 0 := Nat.eq_zero_of_dvd_of_lt (Nat.dvd_sub hb ha) (by omega)
  omega

/-- Strictly inside the range a position keeps, the lowest bit is below the position's. -/
lemma lowbit_lt_of_mem_Ioo (hj : 0 < j) (hx : j - lowbit j < x) (hxj : x < j) :
    lowbit x < lowbit j := by
  have hxpos : 0 < x := by omega
  by_contra hle
  -- then `x` would be a multiple of `lowbit j` strictly between two consecutive ones
  have hdvd : lowbit j ∣ x :=
    (lowbit_dvd_lowbit hj hxpos (not_lt.mp hle)).trans (lowbit_dvd x)
  have heq := eq_of_dvd_of_le_of_lt (lowbit_dvd_sub hj) hdvd hx.le
    (by have := lowbit_le hj; omega)
  omega

/-- Strictly inside the range a position keeps, a step up stays within the position. -/
lemma add_lowbit_le_of_mem_Ioo (hj : 0 < j) (hx : j - lowbit j < x) (hxj : x < j) :
    x + lowbit x ≤ j := by
  have hxpos : 0 < x := by omega
  have hlt := lowbit_lt_of_mem_Ioo hj hx hxj
  have hdvd : lowbit x ∣ j := (lowbit_dvd_lowbit hxpos hj hlt.le).trans (lowbit_dvd j)
  obtain ⟨q, hq⟩ := lowbit_dvd x
  obtain ⟨r, hr⟩ := hdvd
  have hpos := lowbit_pos hxpos
  -- two multiples of `lowbit x`, the first below the second
  have hqr : q < r := by
    by_contra hle
    have : lowbit x * r ≤ lowbit x * q := Nat.mul_le_mul_left _ (not_lt.mp hle)
    omega
  calc x + lowbit x = lowbit x * (q + 1) := by nth_rewrite 1 [hq]; ring
    _ ≤ lowbit x * r := Nat.mul_le_mul_left _ hqr
    _ = j := hr.symm

/-- The positions whose range holds `k`: `k` itself, and those whose range holds the next
position up. -/
theorem covers_iff (hk : 0 < k) :
    (j - lowbit j < k ∧ k ≤ j) ↔
      j = k ∨ (j - lowbit j < k + lowbit k ∧ k + lowbit k ≤ j) := by
  have hkpos := lowbit_pos hk
  constructor
  · rintro ⟨hlo, hhi⟩
    rcases hhi.eq_or_lt with rfl | hlt
    · exact .inl rfl
    · exact .inr ⟨by omega, add_lowbit_le_of_mem_Ioo (by omega) hlo hlt⟩
  · rintro (rfl | ⟨hlo, hhi⟩)
    · exact ⟨by omega, le_rfl⟩
    · have hj : 0 < j := by omega
      refine ⟨?_, by omega⟩
      by_contra hle
      -- the next position up has a lowest bit above `k`'s and at most `j`'s
      have hnext : lowbit (k + lowbit k) ≤ lowbit j := by
        rcases hhi.eq_or_lt with heq | hlt
        · rw [heq]
        · exact (lowbit_lt_of_mem_Ioo hj hlo hlt).le
      have hlt : lowbit k < lowbit j := (lowbit_lt_lowbit_add hk).trans_le hnext
      -- so `j - lowbit j` is a multiple of `lowbit k` in `[k, k + lowbit k)`: it is `k`
      have hdvd : lowbit k ∣ j - lowbit j :=
        (lowbit_dvd_lowbit hk hj hlt.le).trans (lowbit_dvd_sub hj)
      have heq := eq_of_dvd_of_le_of_lt (lowbit_dvd k) hdvd (not_lt.mp hle) hlo
      -- but twice `lowbit j` divides it, and so twice `lowbit k`
      have hdouble : 2 * lowbit k ∣ j - lowbit j :=
        (Nat.mul_dvd_mul_left 2 (lowbit_dvd_lowbit hk hj hlt.le)).trans (two_mul_lowbit_dvd_sub hj)
      rw [heq] at hdouble
      exact not_two_mul_lowbit_dvd hk hdouble

end LowBit

/-! ### The lowest bit on a machine word -/

section Bits

variable {k m n w : ℕ}

/-- A number below `2 ^ n` shares no bit with its complement in `n` bits. -/
lemma land_two_pow_sub_one_sub (hm : m < 2 ^ n) : m &&& (2 ^ n - 1 - m) = 0 := by
  induction n generalizing m with
  | zero =>
    have hzero : m = 0 := by simpa using hm
    subst hzero
    rfl
  | succ n ih =>
    -- the last bits are complementary, and so are the bits above them
    have hpow : 0 < 2 ^ n := Nat.two_pow_pos n
    rcases Nat.even_or_odd' m with ⟨m', rfl | rfl⟩
    · have hm' : m' < 2 ^ n := by rw [pow_succ] at hm; omega
      have hcomp : 2 ^ (n + 1) - 1 - 2 * m' = Nat.bit true (2 ^ n - 1 - m') := by
        rw [Nat.bit_val, pow_succ]
        simp only [Bool.toNat_true]
        omega
      have hbit : 2 * m' = Nat.bit false m' := by simp [Nat.bit_val]
      rw [hcomp, hbit, Nat.land_bit, ih hm']
      rfl
    · have hm' : m' < 2 ^ n := by rw [pow_succ] at hm; omega
      have hcomp : 2 ^ (n + 1) - 1 - (2 * m' + 1) = Nat.bit false (2 ^ n - 1 - m') := by
        rw [Nat.bit_val, pow_succ]
        simp only [Bool.toNat_false]
        omega
      have hbit : 2 * m' + 1 = Nat.bit true m' := by simp [Nat.bit_val]
      rw [hcomp, hbit, Nat.land_bit, ih hm']
      rfl

/-- An odd number below `2 ^ u` shares only its last bit with its complement to `2 ^ u`. -/
lemma odd_land_two_pow_sub {u : ℕ} (h : 2 * m + 1 < 2 ^ u) :
    (2 * m + 1) &&& (2 ^ u - (2 * m + 1)) = 1 := by
  obtain ⟨n, rfl⟩ : ∃ n, u = n + 1 := by
    cases u with
    | zero => simp at h
    | succ n => exact ⟨n, rfl⟩
  have hm : m < 2 ^ n := by rw [pow_succ] at h; omega
  have hcomp : 2 ^ (n + 1) - (2 * m + 1) = Nat.bit true (2 ^ n - 1 - m) := by
    rw [Nat.bit_val, pow_succ]
    simp only [Bool.toNat_true]
    omega
  have hbit : 2 * m + 1 = Nat.bit true m := by simp [Nat.bit_val]
  rw [hcomp, hbit, Nat.land_bit, land_two_pow_sub_one_sub hm]
  rfl

/-- `k` is an odd number shifted left by the exponent of its lowest bit. -/
lemma exists_odd_shiftLeft (hk : 0 < k) :
    ∃ a m, lowbit k = 2 ^ a ∧ k = (2 * m + 1) <<< a := by
  obtain ⟨m, hm⟩ := exists_odd_mul hk
  refine ⟨padicValNat 2 k, m, lowbit_of_pos hk, ?_⟩
  rw [Nat.shiftLeft_eq, mul_comm, ← lowbit_of_pos hk]
  exact hm

/-- On a word of `w` bits, `k & k.wrapping_neg()` is the lowest bit of `k`. -/
theorem land_two_pow_sub (hk : 0 < k) (hkw : k < 2 ^ w) : k &&& (2 ^ w - k) = lowbit k := by
  obtain ⟨a, m, ha, hm⟩ := exists_odd_shiftLeft hk
  rw [ha]
  rw [hm, Nat.shiftLeft_eq] at hkw ⊢
  -- the complement is the odd part's complement to `2 ^ (w - a)`, shifted the same way
  have haw : a < w := by
    have : 2 ^ a < 2 ^ w := lt_of_le_of_lt (Nat.le_mul_of_pos_left _ (by omega)) hkw
    exact (Nat.pow_lt_pow_iff_right (by norm_num)).mp this
  have hpow : 2 ^ w = 2 ^ (w - a) * 2 ^ a := by rw [← pow_add, Nat.sub_add_cancel haw.le]
  have hodd : 2 * m + 1 < 2 ^ (w - a) := by
    rw [hpow] at hkw
    exact Nat.lt_of_mul_lt_mul_right hkw
  have hcomp : 2 ^ w - (2 * m + 1) * 2 ^ a = (2 ^ (w - a) - (2 * m + 1)) * 2 ^ a := by
    rw [hpow, Nat.sub_mul]
  rw [hcomp, ← Nat.shiftLeft_eq, ← Nat.shiftLeft_eq, ← Nat.shiftLeft_and_distrib,
    odd_land_two_pow_sub hodd, Nat.shiftLeft_eq, one_mul]

/-- Clearing the lowest bit with `^` takes it away. -/
theorem xor_lowbit (hk : 0 < k) : k ^^^ lowbit k = k - lowbit k := by
  obtain ⟨a, m, ha, hm⟩ := exists_odd_shiftLeft hk
  have hone : (2 * m + 1) ^^^ 1 = 2 * m := by
    have hbit : 2 * m + 1 = Nat.bit true m := by simp [Nat.bit_val]
    rw [hbit, show (1 : ℕ) = Nat.bit true 0 from rfl, Nat.xor_bit, Nat.xor_zero]
    simp [Nat.bit_val]
  rw [ha, hm, show (2 : ℕ) ^ a = 1 <<< a by rw [Nat.shiftLeft_eq, one_mul],
    ← Nat.shiftLeft_xor_distrib, hone, Nat.shiftLeft_eq, Nat.shiftLeft_eq, Nat.shiftLeft_eq]
  rw [one_mul, add_mul, one_mul, Nat.add_sub_cancel]

end Bits

/-! ### Trees of sums -/

section Tree

variable (v : ℕ → ℕ)

/-- What position `j` keeps: the sum of the values at `(j - lowbit j, j]`. -/
def node (j : ℕ) : ℕ := ∑ i ∈ Finset.Ioc (j - lowbit j) j, v i

/-- `arr` keeps the tree of the values `v` at its positions from `1` on. -/
def Represents (arr : List ℕ) : Prop :=
  ∀ j (hj : j < arr.length), 0 < j → arr[j] = node v j

/-- The walk down from `k`: the node at each position is added, and the lowest bit cleared. -/
def queryLoop (arr : List ℕ) : ℕ → ℕ → ℕ → ℕ
  | 0, _, out => out
  | fuel + 1, k, out =>
    if k ≠ 0 then queryLoop arr fuel (k - lowbit k) (out + arr.getD k 0) else out

/-- The walk up from `k` below `size`: the node at each position is changed by `f`, and the
lowest bit added. -/
def updateLoop (f : ℕ → ℕ) (size : ℕ) : ℕ → ℕ → List ℕ → List ℕ
  | 0, _, arr => arr
  | fuel + 1, k, arr =>
    if k < size then updateLoop f size fuel (k + lowbit k) (arr.modify k f) else arr

variable {v}

lemma represents_replicate (n : ℕ) : Represents (fun _ => 0) (List.replicate n 0) := by
  intro j _ _
  simp [node]

/-- With enough steps, the walk down from `k` adds the values up to `k`. -/
theorem queryLoop_eq {arr : List ℕ} (hrep : Represents v arr) {fuel k : ℕ} (hk : k < arr.length)
    (hfuel : k ≤ fuel) (out : ℕ) :
    queryLoop arr fuel k out = out + ∑ i ∈ Finset.Ioc 0 k, v i := by
  induction fuel generalizing k out with
  | zero =>
    obtain rfl : k = 0 := by omega
    simp [queryLoop]
  | succ fuel ih =>
    by_cases hk0 : k = 0
    · subst hk0
      simp [queryLoop]
    · have hpos : 0 < k := Nat.pos_of_ne_zero hk0
      have hle := lowbit_le hpos
      have hlpos := lowbit_pos hpos
      rw [queryLoop, if_pos hk0, ih (by omega) (by omega), List.getD_eq_getElem _ _ hk,
        hrep k hk hpos, node]
      -- the node's range and the prefix below it make up the prefix up to `k`
      rw [← Finset.sum_Ioc_consecutive v (Nat.zero_le (k - lowbit k)) (Nat.sub_le k _)]
      ring

@[simp] lemma length_updateLoop (f : ℕ → ℕ) (size fuel k : ℕ) (arr : List ℕ) :
    (updateLoop f size fuel k arr).length = arr.length := by
  induction fuel generalizing k arr with
  | zero => rfl
  | succ fuel ih =>
    unfold updateLoop
    split
    · rw [ih, List.length_modify]
    · rfl

/-- With enough steps, the walk up from `k` changes exactly the positions below `size` whose
range holds `k`. -/
theorem getElem?_updateLoop {f : ℕ → ℕ} {size fuel k : ℕ} (hk : 0 < k) (hfuel : size ≤ fuel + k)
    (arr : List ℕ) (j : ℕ) :
    (updateLoop f size fuel k arr)[j]? =
      if j < size ∧ j - lowbit j < k ∧ k ≤ j then f <$> arr[j]? else arr[j]? := by
  induction fuel generalizing k arr with
  | zero =>
    rw [updateLoop, if_neg (by omega)]
  | succ fuel ih =>
    have hlpos := lowbit_pos hk
    unfold updateLoop
    split
    · rename_i hsize
      rw [ih (by omega) (by omega)]
      -- `j` holds `k` when it is `k`, or when it holds the next position up
      by_cases hjk : j = k
      · subst hjk
        have hcond : j < size ∧ j - lowbit j < j ∧ j ≤ j := ⟨hsize, by omega, le_rfl⟩
        rw [if_neg (by omega), if_pos hcond, List.getElem?_modify_eq]
      · rw [List.getElem?_modify_ne _ _ (Ne.symm hjk)]
        have hcovers := covers_iff (j := j) hk
        by_cases hnext : j - lowbit j < k + lowbit k ∧ k + lowbit k ≤ j
        · have hcur : j - lowbit j < k ∧ k ≤ j := hcovers.mpr (.inr hnext)
          simp only [hnext, hcur, and_true]
        · have hnot : ¬(j - lowbit j < k ∧ k ≤ j) := fun h => (hcovers.mp h).elim hjk hnext
          rw [if_neg (fun h => hnext h.2), if_neg (fun h => hnot h.2)]
    · rename_i hsize
      rw [if_neg (by omega)]

/-- A node whose range holds `k` changes with the value at `k`. -/
lemma node_update_add (hj : k ∈ Finset.Ioc (j - lowbit j) j) (b : ℕ) :
    node (Function.update v k b) j + v k = node v j + b := by
  rw [node, node, Finset.sum_update_of_mem hj, ← Finset.add_sum_erase _ _ hj,
    Finset.sdiff_singleton_eq_erase]
  ring

/-- A node whose range does not hold `k` stays. -/
lemma node_update_of_notMem (hj : k ∉ Finset.Ioc (j - lowbit j) j) (b : ℕ) :
    node (Function.update v k b) j = node v j := by
  rw [node, node, Finset.sum_update_of_notMem hj]

/-- A walk up from `k` that changes each node holding `k` as changing the value at `k` to `b`
changes it keeps the tree. -/
theorem Represents.updateLoop {arr : List ℕ} (hrep : Represents v arr) {k : ℕ} (hk : 0 < k)
    {b : ℕ} {f : ℕ → ℕ}
    (hf : ∀ j, k ∈ Finset.Ioc (j - lowbit j) j → f (node v j) = node (Function.update v k b) j) :
    Represents (Function.update v k b) (Fenwick.updateLoop f arr.length arr.length k arr) := by
  intro j hj hjpos
  have hjarr : j < arr.length := by simpa using hj
  have hget := getElem?_updateLoop (f := f) hk (Nat.le_add_right arr.length k) arr j
  rw [List.getElem?_eq_getElem hj, List.getElem?_eq_getElem hjarr] at hget
  by_cases hmem : k ∈ Finset.Ioc (j - lowbit j) j
  · have hcond : j < arr.length ∧ j - lowbit j < k ∧ k ≤ j := ⟨hjarr, Finset.mem_Ioc.mp hmem⟩
    rw [if_pos hcond, Option.map_eq_map, Option.map_some, Option.some_inj,
      hrep j hjarr hjpos] at hget
    rw [hget, hf j hmem]
  · have hcond : ¬(j < arr.length ∧ j - lowbit j < k ∧ k ≤ j) :=
      fun h => hmem (Finset.mem_Ioc.mpr h.2)
    rw [if_neg hcond, Option.some_inj, hrep j hjarr hjpos] at hget
    rw [hget, node_update_of_notMem hmem]

/-- Adding `δ` along the walk up from `k` adds `δ` to the value at `k`. -/
theorem Represents.updateLoop_add {arr : List ℕ} (hrep : Represents v arr) {k : ℕ} (hk : 0 < k)
    (δ : ℕ) :
    Represents (Function.update v k (v k + δ))
      (Fenwick.updateLoop (· + δ) arr.length arr.length k arr) :=
  hrep.updateLoop hk fun j hj => by
    have := node_update_add (v := v) hj (v k + δ)
    omega

/-- Taking the value at `k` away along the walk up from `k` sets it to zero. -/
theorem Represents.updateLoop_sub {arr : List ℕ} (hrep : Represents v arr) {k : ℕ} (hk : 0 < k) :
    Represents (Function.update v k 0) (Fenwick.updateLoop (· - v k) arr.length arr.length k arr) :=
  hrep.updateLoop hk fun j hj => by
    have := node_update_add (v := v) hj 0
    omega

end Tree

end Fenwick
