import VelasChain.Turbine.ClusterNodes
import Mathlib.Algebra.Order.BigOperators.Group.List
import Mathlib.Data.List.GetD

/-!
# The order of the weighted shuffle

`WeightedShuffle::shuffle` draws every index of positive weight first, each by a sample below
the weight left, and then the indexes of weight zero, by `swap_remove`. On a generator that
samples within its bounds (`SampleInRange`) with enough items, the shuffle is a permutation of
the indexes of positive weight followed by a permutation of the zeros (`shuffle_perm`).

A shuffle whose weights hold a zero at `i`, where no zero names `i`, draws as the shuffle of the
weights without `i`, with the indexes from `i` on moved up by one (`Skips.shuffle`). This is the
state `remove_index` leaves behind.
-/

namespace VelasChain.Turbine

/-- The generator samples within its bounds: `sample_single(0, n)` is below `n`. -/
def SampleInRange {R : Type*} (sampleSingle : R → ℕ → ℕ → ℕ × R) : Prop :=
  ∀ rng n, 0 < n → (sampleSingle rng 0 n).1 < n

/-! ### Indexes of the weights -/

/-- The indexes, counted from `n`, of the weights that `p` holds of, as
`iter().enumerate().filter(..).map(|(i, _)| i)` lists them. -/
def indexesFrom (p : ℕ → Bool) (n : ℕ) (weights : List ℕ) : List ℕ :=
  ((weights.zipIdx n).filter fun q => p q.1).map Prod.snd

/-- The indexes of positive weight. -/
def positives (weights : List ℕ) : List ℕ := indexesFrom (0 < ·) 0 weights

/-- The indexes of weight zero. -/
def zeroIndexes (weights : List ℕ) : List ℕ := indexesFrom (· = 0) 0 weights

/-- Index `j` of a list with index `i` taken out, in the list before: the indexes from `i` on
move up by one. -/
def skipIndex (i j : ℕ) : ℕ := if j < i then j else j + 1

section Indexes

variable {p : ℕ → Bool} {n i : ℕ}

@[simp] lemma indexesFrom_nil : indexesFrom p n [] = [] := rfl

lemma indexesFrom_cons (x : ℕ) (l : List ℕ) :
    indexesFrom p n (x :: l) =
      if p x then n :: indexesFrom p (n + 1) l else indexesFrom p (n + 1) l := by
  by_cases hx : p x <;> simp [indexesFrom, List.zipIdx_cons, hx]

lemma mem_indexesFrom {l : List ℕ} :
    i ∈ indexesFrom p n l ↔ n ≤ i ∧ ∃ x, l[i - n]? = some x ∧ p x := by
  simp only [indexesFrom, List.mem_map, List.mem_filter, List.mem_zipIdx_iff_le_and_getElem?_sub]
  constructor
  · rintro ⟨⟨x, j⟩, ⟨⟨hle, hget⟩, hp⟩, rfl⟩
    exact ⟨hle, x, hget, hp⟩
  · rintro ⟨hle, x, hget, hp⟩
    exact ⟨(x, i), ⟨⟨hle, hget⟩, hp⟩, rfl⟩

lemma not_mem_indexesFrom_succ {l : List ℕ} : n ∉ indexesFrom p (n + 1) l := fun h => by
  have := (mem_indexesFrom.mp h).1
  omega

/-- Counting from one further moves every index up by one. -/
lemma indexesFrom_succ (l : List ℕ) :
    indexesFrom p (n + 1) l = (indexesFrom p n l).map (· + 1) := by
  induction l generalizing n with
  | nil => rfl
  | cons x l ih =>
    rw [indexesFrom_cons, indexesFrom_cons, ih, ih]
    split <;> rfl

lemma indexesFrom_append_singleton (l : List ℕ) (x : ℕ) :
    indexesFrom p n (l ++ [x]) = indexesFrom p n l ++ if p x then [n + l.length] else [] := by
  simp only [indexesFrom, List.zipIdx_append, List.filter_append, List.map_append]
  split <;> simp [*]

/-- A weight that `p` does not hold of, set at `j`, takes index `j` out. -/
lemma indexesFrom_set {a : ℕ} (hpa : p a = false) (l : List ℕ) (j : ℕ) :
    indexesFrom p n (l.set j a) = (indexesFrom p n l).erase (n + j) := by
  induction l generalizing n j with
  | nil => simp
  | cons x l ih =>
    cases j with
    | zero =>
      simp only [List.set_cons_zero, indexesFrom_cons, hpa, if_neg Bool.false_ne_true,
        Nat.add_zero]
      split
      · rw [List.erase_cons_head]
      · rw [List.erase_of_not_mem not_mem_indexesFrom_succ]
    | succ j =>
      rw [List.set_cons_succ, indexesFrom_cons, indexesFrom_cons, ih,
        show n + 1 + j = n + (j + 1) by omega]
      split
      · rw [List.erase_cons_tail (by simp only [beq_iff_eq]; omega)]
      · rfl

/-- Taking index `i` out of the weights takes it out of their indexes and moves the indexes above
it down by one. -/
lemma erase_indexesFrom (l : List ℕ) (i : ℕ) :
    (indexesFrom p n l).erase (n + i) = (indexesFrom p n (l.eraseIdx i)).map (skipIndex (n + i)) := by
  induction l generalizing n i with
  | nil => simp
  | cons x l ih =>
    cases i with
    | zero =>
      -- every index of the tail is above `n`, and moves up by one
      have hshift : (indexesFrom p n l).map (skipIndex n) = indexesFrom p (n + 1) l := by
        rw [indexesFrom_succ]
        refine List.map_congr_left fun j hj => ?_
        have := (mem_indexesFrom.mp hj).1
        simp only [skipIndex, if_neg (Nat.not_lt.mpr this)]
      rw [List.eraseIdx_cons_zero, Nat.add_zero, hshift, indexesFrom_cons]
      split
      · rw [List.erase_cons_head]
      · rw [List.erase_of_not_mem not_mem_indexesFrom_succ]
    | succ i =>
      have hn : skipIndex (n + 1 + i) n = n := if_pos (by omega)
      rw [List.eraseIdx_cons_succ, indexesFrom_cons, indexesFrom_cons,
        show n + (i + 1) = n + 1 + i by omega]
      split
      · rw [List.erase_cons_tail (by simp only [beq_iff_eq]; omega), List.map_cons, hn, ih]
      · exact ih i

/-- The indexes of positive weight and those of weight zero are all the indexes, once each. -/
lemma positives_append_zeroIndexes_perm (l : List ℕ) :
    (positives l ++ zeroIndexes l).Perm (List.range l.length) := by
  have hzero : zeroIndexes l = ((l.zipIdx 0).filter fun q => !decide (0 < q.1)).map Prod.snd := by
    simp only [zeroIndexes, indexesFrom]
    congr 1
    refine List.filter_congr fun q _ => ?_
    simp [Nat.pos_iff_ne_zero]
  rw [positives, hzero, indexesFrom, ← List.map_append, List.range_eq_range',
    ← List.zipIdx_map_snd]
  exact (List.filter_append_perm _ _).map _

lemma mem_positives {l : List ℕ} : i ∈ positives l ↔ ∃ hi : i < l.length, 0 < l[i] := by
  simp [positives, mem_indexesFrom, List.getElem?_eq_some_iff]

lemma mem_zeroIndexes {l : List ℕ} : i ∈ zeroIndexes l ↔ ∃ hi : i < l.length, l[i] = 0 := by
  simp [zeroIndexes, mem_indexesFrom, List.getElem?_eq_some_iff]

/-- The weights add up to zero exactly when none is positive. -/
lemma sum_eq_zero_iff_positives_eq_nil {l : List ℕ} : l.sum = 0 ↔ positives l = [] := by
  rw [List.sum_eq_zero_iff, List.eq_nil_iff_forall_not_mem]
  simp only [mem_positives, not_exists, Nat.not_lt, Nat.le_zero]
  constructor
  · intro h i hi
    exact h _ (List.getElem_mem hi)
  · intro h x hx
    obtain ⟨i, hi, rfl⟩ := List.getElem_of_mem hx
    exact h i hi

/-- Setting a weight to zero takes what it held out of the sum. -/
lemma sum_set_zero_add (l : List ℕ) (j : ℕ) : (l.set j 0).sum + l.getD j 0 = l.sum := by
  induction l generalizing j with
  | nil => simp
  | cons x l ih =>
    cases j with
    | zero => simp [Nat.add_comm]
    | succ j =>
      simp only [List.set_cons_succ, List.sum_cons, List.getD_cons_succ]
      rw [Nat.add_assoc, ih]

/-- Setting weight `j` to zero takes `j` out of the indexes of positive weight. -/
lemma positives_set_zero (l : List ℕ) (j : ℕ) : positives (l.set j 0) = (positives l).erase j := by
  rw [positives, positives, indexesFrom_set (by decide), Nat.zero_add]

end Indexes

/-! ### Removing by swapping -/

@[simp] lemma length_swapRemove (l : List ℕ) (index : ℕ) :
    (swapRemove l index).length = l.length - 1 := by
  simp [swapRemove]

/-- `swap_remove` keeps the other elements, in another order. -/
lemma swapRemove_perm {l : List ℕ} {index : ℕ} (h : index < l.length) :
    (swapRemove l index).Perm (l.eraseIdx index) := by
  rcases List.eq_nil_or_concat' l with rfl | ⟨l, y, rfl⟩
  · simp at h
  · simp only [swapRemove, List.getLast?_concat, Option.getD_some, List.set_append]
    rw [List.length_append, List.length_singleton] at h
    by_cases hlt : index < l.length
    · -- the last element takes the place of the one removed
      rw [if_pos hlt, List.dropLast_concat, List.eraseIdx_append_of_lt_length hlt,
        List.set_eq_take_append_cons_drop, if_pos hlt, List.eraseIdx_eq_take_drop_succ]
      exact List.perm_middle.trans (List.perm_append_singleton _ _).symm
    · obtain rfl : index = l.length := by omega
      simp [List.eraseIdx_eq_take_drop_succ]

/-- The element removed and what `swap_remove` leaves are the whole list. -/
lemma cons_swapRemove_perm {l : List ℕ} {index : ℕ} (h : index < l.length) :
    (l[index] :: swapRemove l index).Perm l :=
  ((swapRemove_perm h).cons _).trans (List.getElem_cons_eraseIdx_perm h)

lemma swapRemove_map (f : ℕ → ℕ) (l : List ℕ) (index : ℕ) :
    swapRemove (l.map f) index = (swapRemove l index).map f := by
  rcases List.eq_nil_or_concat' l with rfl | ⟨l, y, rfl⟩
  · rfl
  · simp [swapRemove, List.map_set, List.map_dropLast]

/-! ### Steps of the shuffle -/

namespace WeightedShuffle

section Search

variable {val : ℕ}

/-- `go` finds the first weight whose running sum from `cumsum` exceeds `val`, when one does. -/
lemma search_go_spec (weights : List ℕ) (k cumsum : ℕ) (hle : cumsum ≤ val)
    (hlt : val < cumsum + weights.sum) :
    ∃ j, ∃ hj : j < weights.length, search.go val weights k cumsum = (k + j, weights[j]) ∧
      cumsum + (weights.take j).sum ≤ val ∧ val < cumsum + (weights.take (j + 1)).sum := by
  induction weights generalizing k cumsum with
  | nil =>
    rw [List.sum_nil, Nat.add_zero] at hlt
    omega
  | cons w weights ih =>
    rw [search.go]
    split_ifs with hw
    · exact ⟨0, by simp, by simp, by simpa using hle, by simpa using hw⟩
    · rw [List.sum_cons, ← Nat.add_assoc] at hlt
      obtain ⟨j, hj, hgo, hlo, hhi⟩ := ih (k + 1) (cumsum + w) (by omega) hlt
      refine ⟨j + 1, by simpa using hj, ?_, ?_, ?_⟩
      · rw [hgo, show k + 1 + j = k + (j + 1) by omega]
        rfl
      · simp only [List.take_succ_cons, List.sum_cons]
        omega
      · simp only [List.take_succ_cons, List.sum_cons]
        omega

/-- The index `go` answers is never below the one it starts from. -/
lemma le_search_go (weights : List ℕ) (k cumsum : ℕ) : k ≤ (search.go val weights k cumsum).1 := by
  induction weights generalizing k cumsum with
  | nil => exact Nat.le_refl k
  | cons w weights ih =>
    rw [search.go]
    split
    · exact Nat.le_refl k
    · exact Nat.le_of_succ_le (ih (k + 1) (cumsum + w))

lemma search_go_succ (weights : List ℕ) (k cumsum : ℕ) :
    search.go val weights (k + 1) cumsum = Prod.map (· + 1) id (search.go val weights k cumsum) := by
  induction weights generalizing k cumsum with
  | nil => rfl
  | cons w weights ih =>
    rw [search.go, search.go]
    split
    · rfl
    · exact ih (k + 1) (cumsum + w)

/-- `go` reads the running sums as `position` reads them: the answer is the first index whose
running sum exceeds `val`. -/
lemma search_go_eq_position (weights : List ℕ) (k cumsum : ℕ) :
    search.go val weights k cumsum =
      ((weights.scanl (· + ·) cumsum).tail.findIdx? (val < ·)).elim (k + weights.length, 0)
        fun j => (k + j, weights.getD j 0) := by
  have hhead : ∀ (b : ℕ) (l : List ℕ), l.scanl (· + ·) b = b :: (l.scanl (· + ·) b).tail :=
    fun b l => by cases l <;> simp
  induction weights generalizing k cumsum with
  | nil => rfl
  | cons w weights ih =>
    rw [search.go, List.scanl_cons, List.tail_cons, hhead, List.findIdx?_cons]
    by_cases hw : val < cumsum + w
    · simp [hw]
    · simp only [hw, decide_false, if_false, Bool.false_eq_true]
      rw [ih, Option.elim_map]
      simp [Nat.add_assoc, Nat.add_comm 1, Function.comp_def]

/-- A zero inserted at `i`, past the sums at or below `val`, is never the answer; the answers
from `i` on move up by one. -/
lemma search_go_insertIdx (l : List ℕ) (i k cumsum : ℕ) (hle : cumsum ≤ val) (hi : i ≤ l.length) :
    search.go val (l.insertIdx i 0) k cumsum =
      Prod.map (skipIndex (k + i)) id (search.go val l k cumsum) := by
  induction l generalizing i k cumsum with
  | nil =>
    obtain rfl : i = 0 := by simpa using hi
    simp [search.go, skipIndex, Nat.not_lt.mpr hle]
  | cons x l ih =>
    cases i with
    | zero =>
      -- the zero in front only moves every answer up by one
      rw [List.insertIdx_zero, search.go, if_neg (by omega)]
      simp only [Nat.add_zero]
      rw [search_go_succ]
      have hge := @le_search_go val (x :: l) k cumsum
      generalize search.go val (x :: l) k cumsum = r at hge ⊢
      obtain ⟨m, w⟩ := r
      simp only [Prod.map, skipIndex, if_neg (Nat.not_lt.mpr hge)]
    | succ i =>
      rw [List.insertIdx_succ_cons, search.go, search.go]
      split
      · simp [skipIndex]
      · rw [ih i (k + 1) (cumsum + x) (by omega) (by simpa using hi),
          show k + 1 + i = k + (i + 1) by omega]

/-- Below the total weight, `search` answers `j + 1` with the weight of index `j`, the first
whose running sum exceeds `val`. -/
lemma search_spec {ws : WeightedShuffle} (h : val < ws.sum) :
    ∃ j, ∃ hj : j < ws.weights.length, ws.search val = (j + 1, ws.weights[j]) ∧
      (ws.weights.take j).sum ≤ val ∧ val < (ws.weights.take (j + 1)).sum := by
  obtain ⟨j, hj, hgo, hlo, hhi⟩ :=
    search_go_spec ws.weights 1 0 (Nat.zero_le val) (by rw [Nat.zero_add]; exact h)
  refine ⟨j, hj, ?_, by simpa using hlo, by simpa using hhi⟩
  rw [search, hgo, Nat.add_comm]

end Search

/-- Taking out the weight of index `j` found at `j + 1` zeroes it. -/
lemma remove_succ (ws : WeightedShuffle) (j : ℕ) :
    ws.remove (j + 1) (ws.weights.getD j 0) = ⟨ws.weights.set j 0, ws.zeros⟩ := by
  simp [remove, List.modify_eq_set, List.getD_eq_getElem?_getD]

variable {R : Type*} (sampleSingle : R → ℕ → ℕ → ℕ × R)

section Steps

variable {ws ws' : WeightedShuffle} {rng rng' : R}

/-! What one item of the shuffle can do: draw a positive weight while weight is left, else draw
a zero, else end. -/

lemma next_of_pos {sample index weight : ℕ} (hpos : 0 < ws.sum)
    (hs : sampleSingle rng 0 ws.sum = (sample, rng')) (hsearch : ws.search sample = (index, weight)) :
    ws.next sampleSingle rng = some (index - 1, ws.remove index weight, rng') := by
  simp only [next, if_pos hpos, hs, hsearch]

lemma next_of_zeros {index : ℕ} (hsum : ws.sum = 0) (hzeros : ws.zeros ≠ [])
    (hs : sampleSingle rng 0 ws.zeros.length = (index, rng')) :
    ws.next sampleSingle rng =
      ws.zeros[index]?.map fun z => (z, ⟨ws.weights, swapRemove ws.zeros index⟩, rng') := by
  simp only [next, hsum, Nat.lt_irrefl, if_false, hzeros, hs]

lemma next_of_nil (hsum : ws.sum = 0) (hzeros : ws.zeros = []) : ws.next sampleSingle rng = none := by
  simp only [next, hsum, Nat.lt_irrefl, if_false, hzeros, if_true]

lemma shuffle_succ_of_next {fuel index : ℕ} (h : ws.next sampleSingle rng = some (index, ws', rng')) :
    ws.shuffle sampleSingle (fuel + 1) rng = index :: ws'.shuffle sampleSingle fuel rng' := by
  rw [shuffle, h]

lemma shuffle_of_next_eq_none {fuel : ℕ} (h : ws.next sampleSingle rng = none) :
    ws.shuffle sampleSingle fuel rng = [] := by
  cases fuel with
  | zero => rfl
  | succ fuel => rw [shuffle, h]

variable {sampleSingle} (hrng : SampleInRange sampleSingle)
include hrng

/-- While weight is left, an item draws an index `j` of positive weight and zeroes it. -/
lemma next_of_pos_spec {sample : ℕ} (hpos : 0 < ws.sum)
    (hs : sampleSingle rng 0 ws.sum = (sample, rng')) :
    ∃ j, ∃ hj : j < ws.weights.length, ws.search sample = (j + 1, ws.weights[j]) ∧
      0 < ws.weights[j] ∧ ws.next sampleSingle rng = some (j, ⟨ws.weights.set j 0, ws.zeros⟩, rng') := by
  have hsample : sample < ws.sum := by simpa [hs] using hrng rng ws.sum hpos
  obtain ⟨j, hj, hsearch, hlo, hhi⟩ := search_spec hsample
  have hweight : 0 < ws.weights[j] := by
    rw [List.sum_take_succ _ _ hj] at hhi
    omega
  refine ⟨j, hj, hsearch, hweight, ?_⟩
  rw [next_of_pos sampleSingle hpos hs hsearch, Nat.add_sub_cancel, ← List.getD_eq_getElem _ 0 hj,
    remove_succ]

/-- With the weights used up, an item draws a zero, which `swap_remove` takes out. -/
lemma next_of_zeros_spec {index : ℕ} (hsum : ws.sum = 0) (hzeros : ws.zeros ≠ [])
    (hs : sampleSingle rng 0 ws.zeros.length = (index, rng')) :
    ∃ hi : index < ws.zeros.length, ws.next sampleSingle rng =
      some (ws.zeros[index], ⟨ws.weights, swapRemove ws.zeros index⟩, rng') := by
  have hi : index < ws.zeros.length := by
    simpa [hs] using hrng rng ws.zeros.length (List.length_pos_iff.mpr hzeros)
  refine ⟨hi, ?_⟩
  rw [next_of_zeros sampleSingle hsum hzeros hs, List.getElem?_eq_getElem hi, Option.map_some]

/-- With the weights used up and enough items, the shuffle draws every zero once. -/
theorem shuffle_perm_zeros {fuel : ℕ} (hsum : ws.sum = 0) (hfuel : ws.zeros.length ≤ fuel) :
    (ws.shuffle sampleSingle fuel rng).Perm ws.zeros := by
  induction fuel generalizing ws rng with
  | zero =>
    rw [List.eq_nil_of_length_eq_zero (Nat.le_zero.mp hfuel)]
    rfl
  | succ fuel ih =>
    by_cases hzeros : ws.zeros = []
    · rw [shuffle_of_next_eq_none sampleSingle (next_of_nil sampleSingle hsum hzeros), hzeros]
    · generalize hs : sampleSingle rng 0 ws.zeros.length = draw
      obtain ⟨index, rng'⟩ := draw
      obtain ⟨hi, hnext⟩ := next_of_zeros_spec hrng hsum hzeros hs
      rw [shuffle_succ_of_next sampleSingle hnext]
      have hrest := @ih ⟨ws.weights, swapRemove ws.zeros index⟩ rng' hsum
        (by rw [length_swapRemove]; omega)
      exact (hrest.cons _).trans (cons_swapRemove_perm hi)

/-- With enough items, the shuffle draws the indexes of positive weight, each once, and then
the zeros, each once. -/
theorem shuffle_perm {fuel : ℕ} (hfuel : (positives ws.weights).length + ws.zeros.length ≤ fuel) :
    ∃ pos zer, ws.shuffle sampleSingle fuel rng = pos ++ zer ∧
      pos.Perm (positives ws.weights) ∧ zer.Perm ws.zeros := by
  induction fuel generalizing ws rng with
  | zero =>
    have hpos : positives ws.weights = [] := List.eq_nil_of_length_eq_zero (by omega)
    have hzeros : ws.zeros = [] := List.eq_nil_of_length_eq_zero (by omega)
    exact ⟨[], [], rfl, by rw [hpos], by rw [hzeros]⟩
  | succ fuel ih =>
    by_cases hpos : 0 < ws.sum
    · -- a positive weight is drawn and zeroed: one index fewer of positive weight
      generalize hs : sampleSingle rng 0 ws.sum = draw
      obtain ⟨sample, rng'⟩ := draw
      obtain ⟨j, hj, -, hweight, hnext⟩ := next_of_pos_spec hrng hpos hs
      have hmem : j ∈ positives ws.weights := mem_positives.mpr ⟨hj, hweight⟩
      have hlength := List.length_erase_of_mem hmem
      have hlen_pos := List.length_pos_of_mem hmem
      obtain ⟨pos, zer, hrest, hpos', hzer⟩ :=
        @ih ⟨ws.weights.set j 0, ws.zeros⟩ rng'
          (by rw [positives_set_zero, hlength]; dsimp only; omega)
      refine ⟨j :: pos, zer, ?_, ?_, hzer⟩
      · rw [shuffle_succ_of_next sampleSingle hnext, hrest, List.cons_append]
      · rw [positives_set_zero] at hpos'
        exact (hpos'.cons j).trans (List.perm_cons_erase hmem).symm
    · -- no weight is left: only zeros are drawn
      have hsum : ws.sum = 0 := Nat.eq_zero_of_not_pos hpos
      have hnil : positives ws.weights = [] := sum_eq_zero_iff_positives_eq_nil.mp hsum
      rw [hnil, List.length_nil, Nat.zero_add] at hfuel
      exact ⟨[], _, rfl, by rw [hnil], shuffle_perm_zeros hrng hsum hfuel⟩

end Steps

/-! ### A zero that no zero names -/

lemma skipIndex_succ (i j : ℕ) : skipIndex (i + 1) (j + 1) = skipIndex i j + 1 := by
  unfold skipIndex
  split_ifs <;> omega

/-- Changing the weight at `j` of a list with a zero inserted at `i` changes it at the index `j`
moves to. -/
lemma modify_insertIdx (f : ℕ → ℕ) (l : List ℕ) (i j : ℕ) :
    (l.insertIdx i 0).modify (skipIndex i j) f = (l.modify j f).insertIdx i 0 := by
  induction l generalizing i j with
  | nil =>
    cases i with
    | zero => simp [skipIndex]
    | succ i => simp
  | cons x l ih =>
    cases i with
    | zero => simp [skipIndex]
    | succ i =>
      cases j with
      | zero => simp [skipIndex]
      | succ j =>
        rw [List.insertIdx_succ_cons, skipIndex_succ, List.modify_succ_cons, ih,
          List.modify_succ_cons, List.insertIdx_succ_cons]

/-- `A` is `B` with a weight zero inserted at `i` that no zero of `A` names: index `j` of `B` is
index `skipIndex i j` of `A`. -/
structure Skips (i : ℕ) (A B : WeightedShuffle) : Prop where
  weights_eq : A.weights = B.weights.insertIdx i 0
  le_length : i ≤ B.weights.length
  zeros_eq : A.zeros = B.zeros.map (skipIndex i)

namespace Skips

variable {i : ℕ} {A B : WeightedShuffle}

/-- Weights with index `i` zeroed, and their zeros without `i`, skip `i` of the weights without
index `i` and their zeros. -/
lemma eraseIdx {weights : List ℕ} (hi : i < weights.length) :
    Skips i ⟨weights.set i 0, (zeroIndexes weights).erase i⟩
      ⟨weights.eraseIdx i, zeroIndexes (weights.eraseIdx i)⟩ := by
  refine ⟨?_, by rw [List.length_eraseIdx_of_lt hi]; omega, ?_⟩
  · have h := List.insertIdx_eraseIdx_getElem (l := weights.set i 0) (n := i) (by simpa using hi)
    rw [List.eraseIdx_set_eq, List.getElem_set_self] at h
    exact h.symm
  · have h := erase_indexesFrom (p := (· = 0)) (n := 0) weights i
    rwa [Nat.zero_add] at h

lemma sum_eq (h : Skips i A B) : A.sum = B.sum := by
  rw [WeightedShuffle.sum, WeightedShuffle.sum, h.weights_eq,
    List.sum_insertIdx h.le_length fun _ _ => AddCommute.all _ _, Nat.zero_add]

/-- The inserted zero is never the answer; the answers from `i` on move up by one. -/
lemma search_eq (h : Skips i A B) (val : ℕ) :
    A.search val = Prod.map (skipIndex (1 + i)) id (B.search val) := by
  rw [search, search, h.weights_eq]
  exact search_go_insertIdx B.weights i 1 0 (Nat.zero_le val) h.le_length

/-- An item of each draws the same index, up to the moved indexes, and leaves them related. -/
theorem next (h : Skips i A B) (rng : R) :
    Option.Rel (fun a b => a.1 = skipIndex i b.1 ∧ Skips i a.2.1 b.2.1 ∧ a.2.2 = b.2.2)
      (A.next sampleSingle rng) (B.next sampleSingle rng) := by
  by_cases hpos : 0 < B.sum
  · generalize hs : sampleSingle rng 0 B.sum = draw
    obtain ⟨sample, rng'⟩ := draw
    generalize hsearch : B.search sample = found
    obtain ⟨m, weight⟩ := found
    have hm : 1 ≤ m := by
      have := @le_search_go sample B.weights 1 0
      rwa [← search, hsearch] at this
    obtain ⟨m, rfl⟩ : ∃ m', m = m' + 1 := ⟨m - 1, by omega⟩
    have hsearchA : A.search sample = (skipIndex i m + 1, weight) := by
      rw [h.search_eq, hsearch, Nat.add_comm 1 i]
      exact congrArg (·, weight) (skipIndex_succ i m)
    rw [next_of_pos sampleSingle (h.sum_eq ▸ hpos) (h.sum_eq ▸ hs) hsearchA,
      next_of_pos sampleSingle hpos hs hsearch, Nat.add_sub_cancel, Nat.add_sub_cancel]
    refine .some ⟨rfl, ⟨?_, ?_, h.zeros_eq⟩, rfl⟩
    · simp only [remove, Nat.add_sub_cancel]
      rw [h.weights_eq, modify_insertIdx]
    · simp only [remove, Nat.add_sub_cancel, List.length_modify]
      exact h.le_length
  · have hsum : B.sum = 0 := Nat.eq_zero_of_not_pos hpos
    by_cases hzeros : B.zeros = []
    · have hzerosA : A.zeros = [] := by rw [h.zeros_eq, hzeros, List.map_nil]
      rw [next_of_nil sampleSingle (h.sum_eq.trans hsum) hzerosA,
        next_of_nil sampleSingle hsum hzeros]
      exact .none
    · -- the zeros of `A` are those of `B` moved, so the same sample draws them
      have hlength : A.zeros.length = B.zeros.length := by rw [h.zeros_eq, List.length_map]
      have hzerosA : A.zeros ≠ [] := by
        rw [h.zeros_eq]
        exact fun hnil => hzeros (List.map_eq_nil_iff.mp hnil)
      generalize hs : sampleSingle rng 0 B.zeros.length = draw
      obtain ⟨index, rng'⟩ := draw
      rw [next_of_zeros sampleSingle (h.sum_eq.trans hsum) hzerosA (hlength ▸ hs),
        next_of_zeros sampleSingle hsum hzeros hs, h.zeros_eq, List.getElem?_map]
      cases B.zeros[index]? with
      | none => exact .none
      | some z =>
        exact .some ⟨rfl, ⟨h.weights_eq, h.le_length, swapRemove_map _ _ _⟩, rfl⟩

/-- The shuffles draw the same, up to the moved indexes. -/
theorem shuffle (h : Skips i A B) (fuel : ℕ) (rng : R) :
    A.shuffle sampleSingle fuel rng = (B.shuffle sampleSingle fuel rng).map (skipIndex i) := by
  induction fuel generalizing A B rng with
  | zero => rfl
  | succ fuel ih =>
    have hrel := h.next sampleSingle rng
    rw [WeightedShuffle.shuffle, WeightedShuffle.shuffle]
    generalize A.next sampleSingle rng = a, B.next sampleSingle rng = b at hrel
    cases hrel with
    | none => rfl
    | some hab =>
      rename_i a b
      obtain ⟨index, A', rngA⟩ := a
      obtain ⟨index', B', rngB⟩ := b
      obtain ⟨hindex, hskips, hrngs⟩ := hab
      dsimp only at hindex hrngs ⊢
      rw [List.map_cons, hindex, hrngs, ih hskips]

end Skips

end WeightedShuffle

end VelasChain.Turbine
