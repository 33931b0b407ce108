import Mathlib

/-!
# Ordered sets of naturals and their range queries

A `BTreeSet` of indices is modelled by the finite set of its elements. The code asks three things
of it: one past the greatest element below a bound, or zero
(`set.range(..n).next_back().map(|i| i + 1).unwrap_or_default()`, here `startAfter`), the least
element from a bound on (`set.range(n..).next()`, here `nextFrom`), and the number of elements in
a half-open range (`set.range(a..b).count()`, here `countIn`).

`startAfter` is characterised by what it bounds (`startAfter_le_iff`), `nextFrom` by membership
and minimality (`nextFrom_eq_some_iff`), and a range holds as many elements as it is long exactly
when it holds all of them (`countIn_eq_iff`).
-/

namespace OrderedSet

/-- One past the greatest element of `s` below `n`, or zero where there is none. -/
def startAfter (s : Finset ℕ) (n : ℕ) : ℕ := (s.filter (· < n)).sup (· + 1)

/-- The least element of `s` from `n` on. -/
def nextFrom (s : Finset ℕ) (n : ℕ) : Option ℕ :=
  if h : (s.filter (n ≤ ·)).Nonempty then some ((s.filter (n ≤ ·)).min' h) else none

/-- The number of elements of `s` from `a` up to, not including, `b`. -/
def countIn (s : Finset ℕ) (a b : ℕ) : ℕ := (s.filter fun i => a ≤ i ∧ i < b).card

variable {s : Finset ℕ} {n m k c : ℕ}

lemma startAfter_le_iff : startAfter s n ≤ m ↔ ∀ c ∈ s, c < n → c < m := by
  simp [startAfter, Finset.sup_le_iff, Nat.succ_le_iff]

lemma lt_startAfter_iff : m < startAfter s n ↔ ∃ c ∈ s, c < n ∧ m ≤ c := by
  rw [← not_le, startAfter_le_iff]
  simp only [not_forall, not_lt, exists_prop]

lemma startAfter_le (s : Finset ℕ) (n : ℕ) : startAfter s n ≤ n :=
  startAfter_le_iff.mpr fun _ _ h => h

lemma lt_startAfter_of_mem (hc : c ∈ s) (h : c < n) : c < startAfter s n :=
  lt_startAfter_iff.mpr ⟨c, hc, h, le_rfl⟩

/-- With no element of `s` from `m` up to `n`, the start after `n` is the start after `m`. -/
lemma startAfter_eq_of_forall (hmn : m ≤ n) (h : ∀ c ∈ s, m ≤ c → n ≤ c) :
    startAfter s n = startAfter s m := by
  apply le_antisymm
  · rw [startAfter_le_iff]
    intro c hc hcn
    by_cases hcm : c < m
    · exact lt_startAfter_of_mem hc hcm
    · exact absurd (h c hc (not_lt.mp hcm)) (not_le.mpr hcn)
  · rw [startAfter_le_iff]
    intro c hc hcm
    exact lt_startAfter_of_mem hc (lt_of_lt_of_le hcm hmn)

lemma startAfter_succ_of_mem (hc : c ∈ s) : startAfter s (c + 1) = c + 1 :=
  le_antisymm (startAfter_le s _) (lt_startAfter_of_mem hc (Nat.lt_succ_self c))

lemma startAfter_insert :
    startAfter (insert k s) n = if k < n then max (k + 1) (startAfter s n) else startAfter s n := by
  unfold startAfter
  rw [Finset.filter_insert]
  split_ifs with h
  · rw [Finset.sup_insert]
  · rfl

lemma startAfter_insert_of_le (h : n ≤ k) : startAfter (insert k s) n = startAfter s n := by
  rw [startAfter_insert, if_neg (not_lt.mpr h)]

lemma nextFrom_eq_some_iff :
    nextFrom s n = some c ↔ c ∈ s ∧ n ≤ c ∧ ∀ d ∈ s, n ≤ d → c ≤ d := by
  unfold nextFrom
  split_ifs with h
  · rw [Option.some_inj]
    constructor
    · rintro rfl
      obtain ⟨hmem, hle⟩ := Finset.mem_filter.mp (Finset.min'_mem _ h)
      exact ⟨hmem, hle, fun d hd hnd => Finset.min'_le _ _ (Finset.mem_filter.mpr ⟨hd, hnd⟩)⟩
    · rintro ⟨hc, hnc, hleast⟩
      apply le_antisymm (Finset.min'_le _ _ (Finset.mem_filter.mpr ⟨hc, hnc⟩))
      obtain ⟨hmem, hle⟩ := Finset.mem_filter.mp (Finset.min'_mem _ h)
      exact hleast _ hmem hle
  · simp only [false_iff]
    rintro ⟨hc, hnc, -⟩
    exact h ⟨c, Finset.mem_filter.mpr ⟨hc, hnc⟩⟩

lemma nextFrom_eq_none_iff : nextFrom s n = none ↔ ∀ d ∈ s, d < n := by
  unfold nextFrom
  split_ifs with h
  · simp only [false_iff, not_forall, not_lt]
    obtain ⟨d, hd⟩ := h
    exact ⟨d, (Finset.mem_filter.mp hd).1, (Finset.mem_filter.mp hd).2⟩
  · simp only [true_iff]
    intro d hd
    by_contra hnd
    exact h ⟨d, Finset.mem_filter.mpr ⟨hd, not_lt.mp hnd⟩⟩

lemma nextFrom_insert_of_lt (h : k < n) : nextFrom (insert k s) n = nextFrom s n := by
  unfold nextFrom
  rw [Finset.filter_insert, if_neg (not_le.mpr h)]

/-- A range holds as many elements as it is long exactly when it holds all of them. -/
lemma countIn_eq_iff {a b : ℕ} : countIn s a b = b - a ↔ ∀ i, a ≤ i → i < b → i ∈ s := by
  have hfilter : s.filter (fun i => a ≤ i ∧ i < b) = s ∩ Finset.Ico a b := by
    ext i
    simp
  unfold countIn
  rw [hfilter, ← Nat.card_Ico a b]
  constructor
  · intro hcard i hai hib
    have hsub := Finset.eq_of_subset_of_card_le Finset.inter_subset_right hcard.ge
    exact Finset.mem_of_mem_inter_left (hsub ▸ Finset.mem_Ico.mpr ⟨hai, hib⟩ : i ∈ s ∩ _)
  · intro hall
    congr 1
    apply Finset.inter_eq_right.mpr
    intro i hi
    obtain ⟨hai, hib⟩ := Finset.mem_Ico.mp hi
    exact hall i hai hib

end OrderedSet
