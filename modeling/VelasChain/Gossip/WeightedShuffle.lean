import VelasChain.Turbine.WeightedShuffle
import VelasChain.Lib.Fenwick
import VelasChain.Lib.BinarySearch
import VelasChain.Lib.Wrapping

/-!
# The weighted shuffle over a Fenwick tree

`WeightedShuffle` (`gossip/src/weighted_shuffle.rs`) keeps `u64` weights in a binary indexed
tree `arr` over the positions `1..=n`, with their sum and the indexes of weight zero. `new` takes
the weights one by one: a weight zero, or one whose addition would overflow the running `u64`
sum, is listed as a zero, and any other is added along the tree's update path. `search` finds the
first position whose cumulative sum (`cumsum`) exceeds a sample by a binary search, `remove`
subtracts a weight along the update path, and `shuffle` draws the positive weights, then the
zeros.

The tree refines the abstract shuffle `Turbine.WeightedShuffle` (`Refines`): every operation
answers what the abstract one answers and keeps the relation, so the two shuffles draw the same
(`Refines.shuffle`). `new` keeps the weights as `acceptedWeights` reads them, with the
overflowing ones zeroed, and the reference `weighted_shuffle_slow` of the tests draws what the
abstract shuffle draws (`weightedShuffleSlow_eq`).

The machine word's lowest bit `k & k.wrapping_neg()` and `k ^= lowest bit` are the `Fenwick`
ones below `2 ^ 64` (`lowestBit_eq`), and the tree is shorter than that.
-/

namespace VelasChain.Gossip

open Turbine (SampleInRange swapRemove skipIndex positives zeroIndexes)

/-- `k & k.wrapping_neg()` on `usize`. -/
def lowestBit (k : ℕ) : ℕ := k &&& Wrapping.sub 64 0 k

/-- The loop `while k < size { arr[k] op= weight; k += k & k.wrapping_neg(); }` of `new` and
`remove`, with `f` the change made at each position; `fuel` bounds the rounds. -/
def updatePath (f : ℕ → ℕ) (size : ℕ) : ℕ → ℕ → List ℕ → List ℕ
  | 0, _, arr => arr
  | fuel + 1, k, arr =>
    if k < size then updatePath f size fuel (k + lowestBit k) (arr.modify k f) else arr

/-- The loop of `cumsum`: `while k != 0 { out += arr[k]; k ^= k & k.wrapping_neg(); }`. -/
def cumsumLoop (arr : List ℕ) : ℕ → ℕ → ℕ → ℕ
  | 0, _, out => out
  | fuel + 1, k, out =>
    if k ≠ 0 then cumsumLoop arr fuel (k ^^^ lowestBit k) (out + arr.getD k 0) else out

/-- `WeightedShuffle<u64>`: the tree of cumulative sums, the sum of the weights not yet drawn,
and the indexes of weight zero. -/
structure WeightedShuffle where
  arr : List ℕ
  sum : ℕ
  zeros : List ℕ
  deriving DecidableEq, Repr

namespace WeightedShuffle

/-- One round of the loop of `new`: `weight` is the `k`-th weight, counted from one. -/
def newStep (size : ℕ) (ws : WeightedShuffle) : ℕ × ℕ → WeightedShuffle
  | (weight, k) =>
    if weight = 0 then { ws with zeros := ws.zeros ++ [k - 1] }
    else
      match Wrapping.checkedAdd 64 ws.sum weight with
      | some sum => { ws with arr := updatePath (· + weight) size size k ws.arr, sum := sum }
      | none => { ws with zeros := ws.zeros ++ [k - 1] }

/-- `WeightedShuffle::new`: the weights taken one by one, counted from one. -/
def new (weights : List ℕ) : WeightedShuffle :=
  (weights.zipIdx 1).foldl (newStep (weights.length + 1))
    ⟨List.replicate (weights.length + 1) 0, 0, []⟩

/-- `cumsum`: the sum of the weights at positions `1..=k`. -/
def cumsum (ws : WeightedShuffle) (k : ℕ) : ℕ := cumsumLoop ws.arr k k 0

/-- `remove`: `weight` taken out at position `k`. -/
def remove (ws : WeightedShuffle) (k weight : ℕ) : WeightedShuffle :=
  { ws with
    sum := ws.sum - weight
    arr := updatePath (· - weight) ws.arr.length ws.arr.length k ws.arr }

/-- `search`: the first position whose cumulative sum exceeds `val`, with the weight there,
between `lo = (0, 0)` and `hi = (arr.len() - 1, sum)`. -/
def search (ws : WeightedShuffle) (val : ℕ) : ℕ × ℕ :=
  let (lo, hi) :=
    BinarySearch.crossingLoop ws.cumsum val ws.arr.length (0, 0) (ws.arr.length - 1, ws.sum)
  (hi.1, hi.2 - lo.2)

/-- `remove_index`: a positive weight is removed from the tree, a zero from the zeros. `none`
where `cumsum(index + 1)` reads past the tree and panics. -/
def removeIndex (ws : WeightedShuffle) (index : ℕ) : Option WeightedShuffle :=
  if index + 1 < ws.arr.length then
    let weight := ws.cumsum (index + 1) - ws.cumsum index
    if weight ≠ 0 then some (ws.remove (index + 1) weight)
    else
      match ws.zeros.findIdx? (· = index) with
      | some position => some { ws with zeros := ws.zeros.eraseIdx position }
      | none => some ws
  else none

variable {R : Type*} (sampleSingle : R → ℕ → ℕ → ℕ × R)

/-- `WeightedShuffle::first`. -/
def first (ws : WeightedShuffle) (rng : R) : Option ℕ :=
  if 0 < ws.sum then some ((ws.search (sampleSingle rng 0 ws.sum).1).1 - 1)
  else if ws.zeros = [] then none
  else ws.zeros[(sampleSingle rng 0 ws.zeros.length).1]?

/-- One item of `WeightedShuffle::shuffle`: the index drawn, and the shuffle and the generator
after it. -/
def next (ws : WeightedShuffle) (rng : R) : Option (ℕ × WeightedShuffle × R) :=
  if 0 < ws.sum then
    let (sample, rng) := sampleSingle rng 0 ws.sum
    let (index, weight) := ws.search sample
    some (index - 1, ws.remove index weight, rng)
  else if ws.zeros = [] then none
  else
    let (index, rng) := sampleSingle rng 0 ws.zeros.length
    ws.zeros[index]?.map fun z => (z, { ws with zeros := swapRemove ws.zeros index }, rng)

/-- `WeightedShuffle::shuffle`, collected: at most `fuel` items. -/
def shuffle : ℕ → WeightedShuffle → R → List ℕ
  | 0, _, _ => []
  | fuel + 1, ws, rng =>
    match ws.next sampleSingle rng with
    | none => []
    | some (index, ws, rng) => index :: shuffle fuel ws rng

end WeightedShuffle

/-! ### The reference of the tests -/

section Slow

variable {R : Type*} (sampleSingle : R → ℕ → ℕ → ℕ × R)

/-- The first loop of `weighted_shuffle_slow`: while weight is left, a sample below it picks the
first index whose running sum exceeds it, and that weight is zeroed. `none` where `unwrap`
panics, or past `fuel` rounds. -/
def slowDraws : ℕ → List ℕ → ℕ → R → Option (List ℕ × R)
  | 0, _, high, rng => if high = 0 then some ([], rng) else none
  | fuel + 1, weights, high, rng =>
    if high = 0 then some ([], rng)
    else
      let (sample, rng) := sampleSingle rng 0 high
      match (weights.scanl (· + ·) 0).tail.findIdx? (sample < ·) with
      | none => none
      | some index =>
        (slowDraws fuel (weights.set index 0) (high - weights.getD index 0) rng).map
          fun (shuffle, rng) => (index :: shuffle, rng)

/-- The second loop of `weighted_shuffle_slow`: the zeros, drawn by `swap_remove`. -/
def slowZeros : ℕ → List ℕ → R → Option (List ℕ)
  | 0, zeros, _ => if zeros = [] then some [] else none
  | fuel + 1, zeros, rng =>
    if zeros = [] then some []
    else
      let (index, rng) := sampleSingle rng 0 zeros.length
      match zeros[index]? with
      | none => none
      | some z => (slowZeros fuel (swapRemove zeros index) rng).map (z :: ·)

/-- `weighted_shuffle_slow`: the positive weights drawn one by one, then the zeros. -/
def weightedShuffleSlow (rng : R) (weights : List ℕ) : Option (List ℕ) :=
  match slowDraws sampleSingle weights.length weights weights.sum rng with
  | none => none
  | some (shuffle, rng) =>
    (slowZeros sampleSingle (zeroIndexes weights).length (zeroIndexes weights) rng).map
      (shuffle ++ ·)

end Slow

/-- The weights as `new` keeps them after a running sum `sum`: a weight whose addition would
overflow the `u64` sum counts as zero. -/
def acceptFrom : ℕ → List ℕ → List ℕ
  | _, [] => []
  | sum, weight :: weights =>
    if sum + weight < 2 ^ 64 then weight :: acceptFrom (sum + weight) weights
    else 0 :: acceptFrom sum weights

/-- The weights as `new` keeps them. -/
def acceptedWeights (weights : List ℕ) : List ℕ := acceptFrom 0 weights

/-! ### The machine word's tree walks -/

section Walks

variable {k : ℕ}

/-- Below `2 ^ 64`, `k & k.wrapping_neg()` is the lowest set bit. -/
lemma lowestBit_eq (hk : k < 2 ^ 64) : lowestBit k = Fenwick.lowbit k := by
  rcases Nat.eq_zero_or_pos k with rfl | hpos
  · rfl
  · have hneg : Wrapping.sub 64 0 k = 2 ^ 64 - k := by
      rw [Wrapping.sub, Nat.mod_eq_of_lt hk, Nat.zero_add, Nat.mod_eq_of_lt (by omega)]
    rw [lowestBit, hneg, Fenwick.land_two_pow_sub hpos hk]

/-- On a tree shorter than `2 ^ 64` the update walk is `Fenwick.updateLoop`. -/
lemma updatePath_eq (f : ℕ → ℕ) {size : ℕ} (hsize : size ≤ 2 ^ 64) (fuel : ℕ) (arr : List ℕ) :
    updatePath f size fuel k arr = Fenwick.updateLoop f size fuel k arr := by
  induction fuel generalizing k arr with
  | zero => rfl
  | succ fuel ih =>
    rw [updatePath, Fenwick.updateLoop]
    split
    · rw [lowestBit_eq (by omega), ih]
    · rfl

/-- Below `2 ^ 64` the walk of `cumsum` is `Fenwick.queryLoop`. -/
lemma cumsumLoop_eq (arr : List ℕ) (fuel : ℕ) (hk : k < 2 ^ 64) (out : ℕ) :
    cumsumLoop arr fuel k out = Fenwick.queryLoop arr fuel k out := by
  induction fuel generalizing k out with
  | zero => rfl
  | succ fuel ih =>
    rw [cumsumLoop, Fenwick.queryLoop]
    split
    · rename_i hk0
      have hpos : 0 < k := Nat.pos_of_ne_zero hk0
      rw [lowestBit_eq hk, Fenwick.xor_lowbit hpos, ih (by omega)]
    · rfl

end Walks

/-! ### What the tree keeps -/

/-- The weight at position `k` of the tree, the `k`-th of the list, counted from one. -/
def weightAt (weights : List ℕ) : ℕ → ℕ
  | 0 => 0
  | k + 1 => weights.getD k 0

section Weights

variable {weights : List ℕ}

lemma weightAt_append_singleton (x : ℕ) :
    weightAt (weights ++ [x]) = Function.update (weightAt weights) (weights.length + 1) x := by
  funext k
  cases k with
  | zero => rfl
  | succ k =>
    simp only [weightAt, Function.update, Nat.add_right_cancel_iff, eq_rec_constant, dite_eq_ite,
      List.getD_eq_getElem?_getD, List.getElem?_append, List.getElem?_singleton]
    split_ifs with hk hlt <;> simp_all
    omega

lemma weightAt_set_zero (j : ℕ) :
    weightAt (weights.set j 0) = Function.update (weightAt weights) (j + 1) 0 := by
  funext k
  cases k with
  | zero => rfl
  | succ k =>
    simp only [weightAt, Function.update, Nat.add_right_cancel_iff, eq_rec_constant, dite_eq_ite,
      List.getD_eq_getElem?_getD, List.getElem?_set]
    split_ifs with hk hlt <;> simp_all

/-- The running sums of the positions are those of the list. -/
lemma sum_take_succ_getD (l : List ℕ) (k : ℕ) : (l.take (k + 1)).sum = (l.take k).sum + l.getD k 0 := by
  by_cases hk : k < l.length
  · rw [List.sum_take_succ _ _ hk, List.getD_eq_getElem _ _ hk]
  · rw [List.take_of_length_le (by omega), List.take_of_length_le (by omega),
      List.getD_eq_default _ _ (by omega), Nat.add_zero]

lemma sum_Ioc_weightAt (k : ℕ) : ∑ i ∈ Finset.Ioc 0 k, weightAt weights i = (weights.take k).sum := by
  induction k with
  | zero => simp
  | succ k ih =>
    rw [Finset.sum_Ioc_succ_top (Nat.zero_le k), ih, sum_take_succ_getD]
    rfl

end Weights

namespace WeightedShuffle

/-- `ws` keeps `weights` at positions `1, 2, …` of a tree `size` long, their sum, and `zeros`. -/
structure Keeps (size : ℕ) (weights zeros : List ℕ) (ws : WeightedShuffle) : Prop where
  represents : Fenwick.Represents (weightAt weights) ws.arr
  length_arr : ws.arr.length = size
  sum_eq : ws.sum = weights.sum
  zeros_eq : ws.zeros = zeros

/-- The tree refines the abstract shuffle: it keeps its weights, one position for each, and its
zeros, on fewer than `2 ^ 64` positions. -/
structure Refines (ws : WeightedShuffle) (abs : Turbine.WeightedShuffle) : Prop
    extends Keeps (abs.weights.length + 1) abs.weights abs.zeros ws where
  length_lt : abs.weights.length < 2 ^ 64

section Keeps

variable {size : ℕ} {weights zeros : List ℕ} {ws : WeightedShuffle}

/-- A tree that keeps the weights answers their running sums. -/
lemma Keeps.cumsum (h : Keeps size weights zeros ws) (hsize : size ≤ 2 ^ 64) {k : ℕ}
    (hk : k < size) : ws.cumsum k = (weights.take k).sum := by
  have harr : k < ws.arr.length := h.length_arr ▸ hk
  rw [WeightedShuffle.cumsum, cumsumLoop_eq _ _ (by omega),
    Fenwick.queryLoop_eq h.represents harr (Nat.le_refl k), Nat.zero_add, sum_Ioc_weightAt]

/-- A zero, or a weight that would overflow, is listed among the zeros. -/
lemma Keeps.push_zero (h : Keeps size weights (zeroIndexes weights) ws) :
    Keeps size (weights ++ [0]) (zeroIndexes (weights ++ [0]))
      { ws with zeros := ws.zeros ++ [weights.length] } := by
  have hat : weightAt (weights ++ [0]) = weightAt weights := by
    rw [weightAt_append_singleton]
    exact Function.update_eq_self_iff.mpr (by simp [weightAt])
  refine ⟨hat ▸ h.represents, h.length_arr, by simp [h.sum_eq], ?_⟩
  simp [zeroIndexes, Turbine.indexesFrom_append_singleton, h.zeros_eq]

/-- A weight that fits the sum is added along its update path. -/
lemma Keeps.push_pos (h : Keeps size weights (zeroIndexes weights) ws) (hsize : size ≤ 2 ^ 64)
    {weight : ℕ} (hweight : weight ≠ 0) :
    Keeps size (weights ++ [weight]) (zeroIndexes (weights ++ [weight]))
      { ws with
        arr := updatePath (· + weight) size size (weights.length + 1) ws.arr
        sum := ws.sum + weight } := by
  have hrep := h.represents.updateLoop_add (Nat.succ_pos weights.length) weight
  have hat : weightAt weights (weights.length + 1) = 0 := by simp [weightAt]
  rw [hat, Nat.zero_add, ← weightAt_append_singleton, h.length_arr] at hrep
  refine ⟨?_, ?_, by simp [h.sum_eq], ?_⟩
  · rw [updatePath_eq _ hsize]
    exact hrep
  · rw [updatePath_eq _ hsize, Fenwick.length_updateLoop, h.length_arr]
  · simp [zeroIndexes, Turbine.indexesFrom_append_singleton, h.zeros_eq, hweight]

end Keeps

end WeightedShuffle

/-! ### `new` -/

section New

/-- The weight kept after a running sum `sum`. -/
lemma acceptFrom_cons (sum weight : ℕ) (weights : List ℕ) :
    acceptFrom sum (weight :: weights) =
      (if sum + weight < 2 ^ 64 then weight else 0) ::
        acceptFrom (sum + if sum + weight < 2 ^ 64 then weight else 0) weights := by
  rw [acceptFrom]
  split <;> simp

@[simp] lemma length_acceptFrom (sum : ℕ) (weights : List ℕ) :
    (acceptFrom sum weights).length = weights.length := by
  induction weights generalizing sum with
  | nil => rfl
  | cons weight weights ih =>
    rw [acceptFrom]
    split <;> simp [ih]

/-- Weights whose sum fits are all kept. -/
lemma acceptFrom_of_lt {sum : ℕ} {weights : List ℕ} (h : sum + weights.sum < 2 ^ 64) :
    acceptFrom sum weights = weights := by
  induction weights generalizing sum with
  | nil => rfl
  | cons weight weights ih =>
    rw [List.sum_cons, ← Nat.add_assoc] at h
    rw [acceptFrom, if_pos (by omega), ih h]

namespace WeightedShuffle

variable {size : ℕ} {weights : List ℕ} {ws : WeightedShuffle}

/-- One round of `new` keeps the weight as `acceptFrom` reads it. -/
lemma Keeps.newStep (h : Keeps size weights (zeroIndexes weights) ws) (hsize : size ≤ 2 ^ 64)
    (weight : ℕ) :
    Keeps size (weights ++ [if weights.sum + weight < 2 ^ 64 then weight else 0])
      (zeroIndexes (weights ++ [if weights.sum + weight < 2 ^ 64 then weight else 0]))
      (WeightedShuffle.newStep size ws (weight, weights.length + 1)) := by
  rw [WeightedShuffle.newStep, Nat.add_sub_cancel]
  by_cases hzero : weight = 0
  · -- a zero is listed among the zeros, whatever the sum
    subst hzero
    rw [if_pos rfl, ite_self]
    exact h.push_zero
  · rw [if_neg hzero, Wrapping.checkedAdd, ← h.sum_eq]
    by_cases hfit : ws.sum + weight < 2 ^ 64
    · rw [if_pos hfit, if_pos hfit]
      exact h.push_pos hsize hzero
    · -- the addition would overflow: the weight counts as zero
      rw [if_neg hfit, if_neg hfit]
      exact h.push_zero

/-- The rounds of `new` from the weights kept so far keep the rest as `acceptFrom` reads them. -/
lemma Keeps.foldl_newStep (hsize : size ≤ 2 ^ 64) (rest : List ℕ)
    (h : Keeps size weights (zeroIndexes weights) ws) :
    Keeps size (weights ++ acceptFrom weights.sum rest)
      (zeroIndexes (weights ++ acceptFrom weights.sum rest))
      ((rest.zipIdx (weights.length + 1)).foldl (WeightedShuffle.newStep size) ws) := by
  induction rest generalizing weights ws with
  | nil => simpa [acceptFrom] using h
  | cons weight rest ih =>
    rw [List.zipIdx_cons, List.foldl_cons, acceptFrom_cons, ← List.singleton_append,
      ← List.append_assoc]
    have hnext := ih (h.newStep hsize weight)
    rwa [List.length_append, List.length_singleton, List.sum_append, List.sum_singleton] at hnext

/-- `new` refines the abstract shuffle of the weights it keeps and their zeros. -/
theorem new_refines (hlen : weights.length < 2 ^ 64) :
    Refines (new weights) ⟨acceptedWeights weights, zeroIndexes (acceptedWeights weights)⟩ := by
  have hzero : weightAt [] = fun _ => 0 := by
    funext k
    cases k <;> rfl
  have hinit : Keeps (weights.length + 1) [] (zeroIndexes [])
      ⟨List.replicate (weights.length + 1) 0, 0, []⟩ :=
    ⟨hzero ▸ Fenwick.represents_replicate _, List.length_replicate, rfl, rfl⟩
  have hkeeps := hinit.foldl_newStep (by omega) weights
  rw [List.nil_append, List.length_nil, List.sum_nil, Nat.zero_add] at hkeeps
  refine ⟨?_, by simpa [acceptedWeights] using hlen⟩
  simp only [acceptedWeights, length_acceptFrom]
  exact hkeeps

end WeightedShuffle

end New

/-! ### The tree answers as the abstract shuffle -/

/-- Two crossings of the running sums of a list are one. -/
lemma eq_of_take_sum {l : List ℕ} {val j k : ℕ} (hj : (l.take j).sum ≤ val)
    (hj' : val < (l.take (j + 1)).sum) (hk : (l.take k).sum ≤ val)
    (hk' : val < (l.take (k + 1)).sum) : j = k := by
  have hmono : ∀ {a b : ℕ}, a ≤ b → (l.take a).sum ≤ (l.take b).sum := fun hab =>
    (List.take_sublist_take_left hab).sum_le_sum fun _ _ => Nat.zero_le _
  by_contra hne
  rcases Nat.lt_or_gt_of_ne hne with hlt | hlt
  · have := hmono (show j + 1 ≤ k from hlt)
    omega
  · have := hmono (show k + 1 ≤ j from hlt)
    omega

/-- `position` of the first `index` finds what `erase` takes out. -/
lemma eraseIdx_eq_erase_of_findIdx {l : List ℕ} {a p : ℕ} (h : l.findIdx? (· = a) = some p) :
    l.eraseIdx p = l.erase a := by
  induction l generalizing p with
  | nil => simp at h
  | cons x l ih =>
    rw [List.findIdx?_cons] at h
    by_cases hx : x = a
    · subst hx
      obtain rfl : p = 0 := by simpa using h.symm
      simp
    · simp only [hx, decide_false, Bool.false_eq_true, if_false] at h
      obtain ⟨p, hp, rfl⟩ := Option.map_eq_some_iff.mp h
      rw [List.eraseIdx_cons_succ, ih hp, List.erase_cons_tail (by simpa using hx)]

namespace WeightedShuffle

variable {R : Type*} (sampleSingle : R → ℕ → ℕ → ℕ × R)

section Steps

variable {ws : WeightedShuffle} {rng rng' : R}

/-! What one item of the shuffle can do, as for the abstract shuffle. -/

lemma next_of_pos {sample index weight : ℕ} (hpos : 0 < ws.sum)
    (hs : sampleSingle rng 0 ws.sum = (sample, rng')) (hsearch : ws.search sample = (index, weight)) :
    ws.next sampleSingle rng = some (index - 1, ws.remove index weight, rng') := by
  simp only [next, if_pos hpos, hs, hsearch]

lemma next_of_zeros {index : ℕ} (hsum : ws.sum = 0) (hzeros : ws.zeros ≠ [])
    (hs : sampleSingle rng 0 ws.zeros.length = (index, rng')) :
    ws.next sampleSingle rng =
      ws.zeros[index]?.map fun z => (z, { ws with zeros := swapRemove ws.zeros index }, rng') := by
  simp only [next, hsum, Nat.lt_irrefl, if_false, hzeros, hs]

lemma next_of_nil (hsum : ws.sum = 0) (hzeros : ws.zeros = []) : ws.next sampleSingle rng = none := by
  simp only [next, hsum, Nat.lt_irrefl, if_false, hzeros, if_true]

end Steps

section Refines

variable {ws : WeightedShuffle} {abs : Turbine.WeightedShuffle}

lemma Refines.cumsum (h : Refines ws abs) {k : ℕ} (hk : k ≤ abs.weights.length) :
    ws.cumsum k = (abs.weights.take k).sum :=
  h.toKeeps.cumsum (by have := h.length_lt; omega) (by omega)

/-- Below the total weight, the binary search over the tree answers what the abstract search
answers. -/
theorem Refines.search (h : Refines ws abs) {val : ℕ} (hval : val < abs.sum) :
    ws.search val = abs.search val := by
  obtain ⟨j, hj, habs, hlo, hhi⟩ := Turbine.WeightedShuffle.search_spec hval
  have h0 : ws.cumsum 0 = 0 := rfl
  have htop : ws.cumsum abs.weights.length = ws.sum := by
    rw [h.cumsum (Nat.le_refl _), List.take_length, h.sum_eq]
  -- the search ends at a crossing of the running sums, which is the abstract answer
  obtain ⟨k, hloop, -, hk, hfk, hfk'⟩ :=
    @BinarySearch.crossingLoop_spec ws.cumsum val ws.arr.length 0 abs.weights.length
      (by rw [h0]; exact Nat.zero_le val)
      (by rw [htop, h.sum_eq]; exact hval) (by omega) (by rw [h.length_arr]; omega)
  rw [h.cumsum (by omega)] at hfk
  rw [h.cumsum hk] at hfk'
  obtain rfl := eq_of_take_sum hlo hhi hfk hfk'
  rw [h0, htop] at hloop
  have hn : ws.arr.length - 1 = abs.weights.length := by
    rw [h.length_arr, Nat.add_sub_cancel]
  rw [habs, WeightedShuffle.search, hn, hloop]
  dsimp only
  rw [h.cumsum hk, h.cumsum (by omega), List.sum_take_succ _ _ hj, Nat.add_sub_cancel_left]

/-- Taking out the weight of index `j` at position `j + 1` zeroes it in the abstract shuffle. -/
theorem Refines.remove (h : Refines ws abs) (j : ℕ) :
    Refines (ws.remove (j + 1) (abs.weights.getD j 0)) ⟨abs.weights.set j 0, abs.zeros⟩ := by
  have hsize : ws.arr.length ≤ 2 ^ 64 := by
    have := h.length_lt
    rw [h.length_arr]
    omega
  have hrep := h.represents.updateLoop_sub (Nat.succ_pos j)
  rw [← weightAt_set_zero] at hrep
  have hsum := Turbine.sum_set_zero_add abs.weights j
  refine ⟨⟨?_, ?_, ?_, h.zeros_eq⟩, by simpa using h.length_lt⟩
  · rw [WeightedShuffle.remove, updatePath_eq _ hsize]
    exact hrep
  · show (updatePath _ ws.arr.length ws.arr.length _ ws.arr).length =
      (abs.weights.set j 0).length + 1
    rw [updatePath_eq _ hsize, Fenwick.length_updateLoop, h.length_arr, List.length_set]
  · simp only [WeightedShuffle.remove, h.sum_eq]
    omega

/-- An item of each draws the same index and leaves them related. -/
theorem Refines.next (hrng : SampleInRange sampleSingle) (h : Refines ws abs) (rng : R) :
    Option.Rel (fun a b => a.1 = b.1 ∧ Refines a.2.1 b.2.1 ∧ a.2.2 = b.2.2)
      (ws.next sampleSingle rng) (abs.next sampleSingle rng) := by
  have hsum : ws.sum = abs.sum := h.sum_eq
  by_cases hpos : 0 < abs.sum
  · generalize hs : sampleSingle rng 0 abs.sum = draw
    obtain ⟨sample, rng'⟩ := draw
    obtain ⟨j, hj, hsearch, -, hnext⟩ := Turbine.WeightedShuffle.next_of_pos_spec hrng hpos hs
    have hsample : sample < abs.sum := by simpa [hs] using hrng rng abs.sum hpos
    have hsearchws : ws.search sample = (j + 1, abs.weights.getD j 0) := by
      rw [h.search hsample, hsearch, List.getD_eq_getElem _ _ hj]
    rw [next_of_pos sampleSingle (hsum ▸ hpos) (hsum ▸ hs) hsearchws, hnext, Nat.add_sub_cancel]
    exact .some ⟨rfl, h.remove j, rfl⟩
  · have hzero : abs.sum = 0 := Nat.eq_zero_of_not_pos hpos
    by_cases hzeros : abs.zeros = []
    · rw [next_of_nil sampleSingle (hsum.trans hzero) (h.zeros_eq.trans hzeros),
        Turbine.WeightedShuffle.next_of_nil sampleSingle hzero hzeros]
      exact .none
    · -- the zeros are the same list, drawn by the same sample
      generalize hs : sampleSingle rng 0 abs.zeros.length = draw
      obtain ⟨index, rng'⟩ := draw
      have hzerosws : ws.zeros ≠ [] := by
        rw [h.zeros_eq]
        exact hzeros
      have hsws : sampleSingle rng 0 ws.zeros.length = (index, rng') := by
        rw [h.zeros_eq]
        exact hs
      rw [next_of_zeros sampleSingle (hsum.trans hzero) hzerosws hsws,
        Turbine.WeightedShuffle.next_of_zeros sampleSingle hzero hzeros hs, h.zeros_eq]
      cases abs.zeros[index]? with
      | none => exact .none
      | some z => exact .some ⟨rfl, ⟨⟨h.represents, h.length_arr, h.sum_eq, rfl⟩, h.length_lt⟩, rfl⟩

/-- The shuffle over the tree draws what the abstract shuffle draws. -/
theorem Refines.shuffle (hrng : SampleInRange sampleSingle) (h : Refines ws abs) (fuel : ℕ)
    (rng : R) : ws.shuffle sampleSingle fuel rng = abs.shuffle sampleSingle fuel rng := by
  induction fuel generalizing ws abs rng with
  | zero => rfl
  | succ fuel ih =>
    have hrel := h.next sampleSingle hrng rng
    rw [WeightedShuffle.shuffle, Turbine.WeightedShuffle.shuffle]
    generalize ws.next sampleSingle rng = a, abs.next sampleSingle rng = b at hrel
    cases hrel with
    | none => rfl
    | some hab =>
      rename_i a b
      obtain ⟨index, ws', rngA⟩ := a
      obtain ⟨index', abs', rngB⟩ := b
      obtain ⟨hindex, hrefines, hrngs⟩ := hab
      dsimp only at hindex hrngs ⊢
      rw [hindex, hrngs, ih hrefines]

/-- `first` draws what the abstract `first` draws. -/
theorem Refines.first (hrng : SampleInRange sampleSingle) (h : Refines ws abs) (rng : R) :
    ws.first sampleSingle rng = abs.first sampleSingle rng := by
  have hsum : ws.sum = abs.sum := h.sum_eq
  rw [WeightedShuffle.first, Turbine.WeightedShuffle.first, hsum, h.zeros_eq]
  split_ifs with hpos
  · rw [h.search (by simpa using hrng rng abs.sum hpos)]
  · rfl
  · rfl

/-- `remove_index` of an index of the weights zeroes its weight and takes it out of the zeros. -/
theorem Refines.removeIndex (h : Refines ws abs) {i : ℕ} (hi : i < abs.weights.length)
    (hzeros : ∀ j ∈ abs.zeros, abs.weights.getD j 0 = 0) :
    ∃ ws', ws.removeIndex i = some ws' ∧ Refines ws' ⟨abs.weights.set i 0, abs.zeros.erase i⟩ := by
  have hweight : ws.cumsum (i + 1) - ws.cumsum i = abs.weights.getD i 0 := by
    rw [h.cumsum hi, h.cumsum (by omega), sum_take_succ_getD, Nat.add_sub_cancel_left]
  have hbound : i + 1 < ws.arr.length := by
    rw [h.length_arr]
    omega
  rw [WeightedShuffle.removeIndex, if_pos hbound]
  dsimp only
  rw [hweight]
  by_cases hw : abs.weights.getD i 0 = 0
  · -- a zero: the tree is left as it is, and the index leaves the zeros
    have hset : abs.weights.set i 0 = abs.weights := by
      have := List.set_getElem_self hi
      rwa [← List.getD_eq_getElem _ 0 hi, hw] at this
    have hkeeps (zeros : List ℕ) (hz : zeros = abs.zeros.erase i) :
        Refines { ws with zeros := zeros } ⟨abs.weights.set i 0, abs.zeros.erase i⟩ := by
      rw [hset]
      exact ⟨⟨h.represents, h.length_arr, h.sum_eq, hz⟩, h.length_lt⟩
    rw [if_neg (not_not.mpr hw)]
    split
    · rename_i position hposition
      rw [h.zeros_eq] at hposition
      exact ⟨_, rfl, hkeeps _ (by rw [h.zeros_eq, eraseIdx_eq_erase_of_findIdx hposition])⟩
    · rename_i hnone
      have hnot : i ∉ abs.zeros := by
        rw [h.zeros_eq, List.findIdx?_eq_none_iff] at hnone
        exact fun hmem => by simpa using hnone i hmem
      exact ⟨ws, rfl, hkeeps ws.zeros (by rw [List.erase_of_not_mem hnot, h.zeros_eq])⟩
  · -- a positive weight: removed from the tree; it was never listed among the zeros
    have hnot : i ∉ abs.zeros := fun hmem => hw (hzeros i hmem)
    rw [if_pos hw, List.erase_of_not_mem hnot]
    exact ⟨_, rfl, h.remove i⟩

end Refines

end WeightedShuffle

/-! ### The reference draws as the abstract shuffle -/

section SlowSpec

variable {R : Type*} {sampleSingle : R → ℕ → ℕ → ℕ × R} (hrng : SampleInRange sampleSingle)
include hrng

/-- The first loop of the reference draws what the abstract shuffle draws while weight is left,
and stops once none is. -/
theorem slowDraws_spec (fuel : ℕ) (weights zeros : List ℕ) (rng : R)
    (hfuel : (positives weights).length ≤ fuel) :
    ∃ pos rng' rest, slowDraws sampleSingle fuel weights weights.sum rng = some (pos, rng') ∧
      pos.length = (positives weights).length ∧ rest.sum = 0 ∧
      ∀ F, Turbine.WeightedShuffle.shuffle sampleSingle (pos.length + F) ⟨weights, zeros⟩ rng =
        pos ++ Turbine.WeightedShuffle.shuffle sampleSingle F ⟨rest, zeros⟩ rng' := by
  induction fuel generalizing weights rng with
  | zero =>
    have hnil : positives weights = [] := List.eq_nil_of_length_eq_zero (Nat.le_zero.mp hfuel)
    have hsum : weights.sum = 0 := Turbine.sum_eq_zero_iff_positives_eq_nil.mpr hnil
    exact ⟨[], rng, weights, by rw [slowDraws, if_pos hsum], by rw [hnil], hsum,
      fun F => by rw [List.length_nil, Nat.zero_add, List.nil_append]⟩
  | succ fuel ih =>
    by_cases hsum : weights.sum = 0
    · have hnil := Turbine.sum_eq_zero_iff_positives_eq_nil.mp hsum
      exact ⟨[], rng, weights, by rw [slowDraws, if_pos hsum], by rw [hnil], hsum,
        fun F => by rw [List.length_nil, Nat.zero_add, List.nil_append]⟩
    · -- a positive weight is drawn: `position` finds the index the abstract search finds
      have hpos : 0 < (⟨weights, zeros⟩ : Turbine.WeightedShuffle).sum := Nat.pos_of_ne_zero hsum
      generalize hs : sampleSingle rng 0 weights.sum = draw
      obtain ⟨sample, rng'⟩ := draw
      obtain ⟨j, hj, hsearch, hweight, hnext⟩ :=
        Turbine.WeightedShuffle.next_of_pos_spec hrng hpos hs
      have hj' : j < weights.length := hj
      have hposition : (weights.scanl (· + ·) 0).tail.findIdx? (sample < ·) = some j := by
        have hgo : Turbine.WeightedShuffle.search.go sample weights 1 0 = (j + 1, weights[j]) :=
          hsearch
        rw [Turbine.WeightedShuffle.search_go_eq_position] at hgo
        rcases hfind : (weights.scanl (· + ·) 0).tail.findIdx? (sample < ·) with _ | j'
        · rw [hfind] at hgo
          have := congrArg Prod.fst hgo
          simp only [Option.elim_none] at this
          omega
        · rw [hfind] at hgo
          have := congrArg Prod.fst hgo
          simp only [Option.elim_some] at this
          rw [show j' = j by omega]
      have hmem : j ∈ positives weights := Turbine.mem_positives.mpr ⟨hj, hweight⟩
      have hlength := List.length_erase_of_mem hmem
      have hlen_pos := List.length_pos_of_mem hmem
      obtain ⟨pos, rng'', rest, hdraws, hlen, hrest, hshuffle⟩ :=
        ih (weights.set j 0) rng' (by rw [Turbine.positives_set_zero, hlength]; omega)
      have hhigh : weights.sum - weights.getD j 0 = (weights.set j 0).sum := by
        have := Turbine.sum_set_zero_add weights j
        omega
      refine ⟨j :: pos, rng'', rest, ?_, ?_, hrest, fun F => ?_⟩
      · rw [slowDraws, if_neg hsum, hs]
        dsimp only
        rw [hposition]
        dsimp only
        rw [hhigh, hdraws]
        rfl
      · rw [List.length_cons, hlen, Turbine.positives_set_zero, hlength]
        omega
      · rw [List.length_cons, Nat.add_right_comm,
          Turbine.WeightedShuffle.shuffle_succ_of_next sampleSingle hnext, hshuffle, List.cons_append]

/-- With no weight left, the second loop of the reference draws what the abstract shuffle
draws. -/
theorem slowZeros_spec (fuel F : ℕ) (ws : Turbine.WeightedShuffle) (rng : R) (hsum : ws.sum = 0)
    (hfuel : ws.zeros.length ≤ fuel) (hF : ws.zeros.length ≤ F) :
    slowZeros sampleSingle fuel ws.zeros rng = some (ws.shuffle sampleSingle F rng) := by
  induction fuel generalizing F ws rng with
  | zero =>
    have hnil : ws.zeros = [] := List.eq_nil_of_length_eq_zero (Nat.le_zero.mp hfuel)
    rw [slowZeros, if_pos hnil, Turbine.WeightedShuffle.shuffle_of_next_eq_none sampleSingle
      (Turbine.WeightedShuffle.next_of_nil sampleSingle hsum hnil)]
  | succ fuel ih =>
    by_cases hzeros : ws.zeros = []
    · rw [slowZeros, if_pos hzeros, Turbine.WeightedShuffle.shuffle_of_next_eq_none sampleSingle
        (Turbine.WeightedShuffle.next_of_nil sampleSingle hsum hzeros)]
    · -- a zero is drawn by the same sample, and `swap_remove` leaves the same zeros
      generalize hs : sampleSingle rng 0 ws.zeros.length = draw
      obtain ⟨index, rng'⟩ := draw
      obtain ⟨hi, hnext⟩ := Turbine.WeightedShuffle.next_of_zeros_spec hrng hsum hzeros hs
      obtain ⟨F, rfl⟩ : ∃ F', F = F' + 1 := ⟨F - 1, by
        have := List.length_pos_iff.mpr hzeros
        omega⟩
      have hrest := ih F ⟨ws.weights, swapRemove ws.zeros index⟩ rng' hsum
        (by rw [Turbine.length_swapRemove]; omega) (by rw [Turbine.length_swapRemove]; omega)
      rw [slowZeros, if_neg hzeros, hs]
      dsimp only
      rw [List.getElem?_eq_getElem hi]
      dsimp only
      rw [hrest, Turbine.WeightedShuffle.shuffle_succ_of_next sampleSingle hnext]
      rfl

/-- The reference draws what the abstract shuffle of its weights and their zeros draws. -/
theorem weightedShuffleSlow_eq (weights : List ℕ) (rng : R) {fuel : ℕ}
    (hfuel : weights.length ≤ fuel) :
    weightedShuffleSlow sampleSingle rng weights =
      some (Turbine.WeightedShuffle.shuffle sampleSingle fuel ⟨weights, zeroIndexes weights⟩ rng) := by
  have hcount : (positives weights).length + (zeroIndexes weights).length = weights.length := by
    have := (Turbine.positives_append_zeroIndexes_perm weights).length_eq
    rwa [List.length_append, List.length_range] at this
  obtain ⟨pos, rng', rest, hdraws, hlen, hrest, hshuffle⟩ :=
    slowDraws_spec hrng weights.length weights (zeroIndexes weights) rng (by omega)
  obtain ⟨F, rfl⟩ : ∃ F, fuel = pos.length + F := ⟨fuel - pos.length, by omega⟩
  rw [weightedShuffleSlow, hdraws]
  dsimp only
  rw [slowZeros_spec hrng _ F ⟨rest, zeroIndexes weights⟩ rng' hrest (Nat.le_refl _)
    (by dsimp only; omega), hshuffle]
  rfl

end SlowSpec

/-! ### The Fenwick shuffle and the reference -/

section Shuffle

variable {R : Type*} {sampleSingle : R → ℕ → ℕ → ℕ × R}

/-- On a generator that samples within its bounds, the shuffle `new` builds draws what the
reference draws on the weights `new` keeps: the indexes of positive weight first, then those of
weight zero, each index once. `first` draws the first of them. Where the weights add up within
`u64`, `remove_index(i)` leaves the shuffle the reference draws on the weights without `i`, its
indexes from `i` on moved up by one. -/
theorem fenwick_shuffle_draws_as_slow_reference (hrng : SampleInRange sampleSingle)
    (w : List ℕ) (hlen : w.length < 2 ^ 64) (rng : R) {fuel : ℕ} (hfuel : w.length ≤ fuel) :
    weightedShuffleSlow sampleSingle rng (acceptedWeights w) =
        some ((WeightedShuffle.new w).shuffle sampleSingle fuel rng) ∧
      ((WeightedShuffle.new w).shuffle sampleSingle fuel rng).Perm (List.range w.length) ∧
      (∃ pos zer, (WeightedShuffle.new w).shuffle sampleSingle fuel rng = pos ++ zer ∧
        (∀ i ∈ pos, 0 < (acceptedWeights w).getD i 0) ∧
        ∀ i ∈ zer, (acceptedWeights w).getD i 0 = 0) ∧
      (WeightedShuffle.new w).first sampleSingle rng =
        ((WeightedShuffle.new w).shuffle sampleSingle fuel rng).head? ∧
      (w.sum < 2 ^ 64 → ∀ i < w.length,
        ((WeightedShuffle.new w).removeIndex i).map (·.shuffle sampleSingle fuel rng) =
          (weightedShuffleSlow sampleSingle rng (w.eraseIdx i)).map (List.map (skipIndex i))) := by
  have hrefines := WeightedShuffle.new_refines hlen
  have hshuffle := hrefines.shuffle sampleSingle hrng fuel rng
  have hlength : (acceptedWeights w).length = w.length := length_acceptFrom 0 w
  have hcount : (positives (acceptedWeights w)).length +
      (zeroIndexes (acceptedWeights w)).length = w.length := by
    have := (Turbine.positives_append_zeroIndexes_perm (acceptedWeights w)).length_eq
    rwa [List.length_append, List.length_range, hlength] at this
  obtain ⟨pos, zer, hsplit, hpos, hzer⟩ : ∃ pos zer,
      Turbine.WeightedShuffle.shuffle sampleSingle fuel
          ⟨acceptedWeights w, zeroIndexes (acceptedWeights w)⟩ rng = pos ++ zer ∧
        pos.Perm (positives (acceptedWeights w)) ∧ zer.Perm (zeroIndexes (acceptedWeights w)) :=
    Turbine.WeightedShuffle.shuffle_perm hrng (by dsimp only; omega)
  rw [hshuffle]
  refine ⟨weightedShuffleSlow_eq hrng _ rng (by omega), ?_, ⟨pos, zer, hsplit, ?_, ?_⟩, ?_, ?_⟩
  · -- the positive indexes and the zeros are all the indexes
    rw [hsplit, ← hlength]
    exact (hpos.append hzer).trans (Turbine.positives_append_zeroIndexes_perm _)
  · intro i hi
    obtain ⟨hlt, hw⟩ := Turbine.mem_positives.mp (hpos.mem_iff.mp hi)
    rwa [List.getD_eq_getElem _ _ hlt]
  · intro i hi
    obtain ⟨hlt, hw⟩ := Turbine.mem_zeroIndexes.mp (hzer.mem_iff.mp hi)
    rwa [List.getD_eq_getElem _ _ hlt]
  · rw [hrefines.first sampleSingle hrng rng]
    cases fuel with
    | zero =>
      obtain rfl : w = [] := List.eq_nil_of_length_eq_zero (Nat.le_zero.mp hfuel)
      rfl
    | succ fuel => exact Turbine.WeightedShuffle.first_eq_head_shuffle sampleSingle _ rng fuel
  · -- every weight is kept: the abstract shuffle after the removal skips index `i`
    intro hsum i hi
    have hkept : acceptedWeights w = w := acceptFrom_of_lt (by omega)
    rw [hkept] at hrefines
    obtain ⟨ws', hremove, hrefines'⟩ := hrefines.removeIndex hi fun j hj => by
      obtain ⟨hlt, hw⟩ := Turbine.mem_zeroIndexes.mp hj
      rwa [List.getD_eq_getElem _ _ hlt]
    rw [hremove, Option.map_some, hrefines'.shuffle sampleSingle hrng,
      (Turbine.WeightedShuffle.Skips.eraseIdx hi).shuffle sampleSingle,
      weightedShuffleSlow_eq hrng _ rng
        (show (w.eraseIdx i).length ≤ fuel by rw [List.length_eraseIdx_of_lt hi]; omega),
      Option.map_some]

/-- A generator that always samples the lowest value. -/
def sampleLowest : Unit → ℕ → ℕ → ℕ × Unit := fun _ lo _ => (lo, ())

lemma sampleLowest_inRange : SampleInRange sampleLowest := fun _ _ hn => hn

theorem fenwick_shuffle_of_three_weights :
    SampleInRange sampleLowest ∧ [3, 0, 2].length < 2 ^ 64 ∧ [3, 0, 2].length ≤ 3 ∧
      (weightedShuffleSlow sampleLowest () (acceptedWeights [3, 0, 2]) =
          some ((WeightedShuffle.new [3, 0, 2]).shuffle sampleLowest 3 ()) ∧
        ((WeightedShuffle.new [3, 0, 2]).shuffle sampleLowest 3 ()).Perm (List.range 3) ∧
        (∃ pos zer, (WeightedShuffle.new [3, 0, 2]).shuffle sampleLowest 3 () = pos ++ zer ∧
          (∀ i ∈ pos, 0 < (acceptedWeights [3, 0, 2]).getD i 0) ∧
          ∀ i ∈ zer, (acceptedWeights [3, 0, 2]).getD i 0 = 0) ∧
        (WeightedShuffle.new [3, 0, 2]).first sampleLowest () =
          ((WeightedShuffle.new [3, 0, 2]).shuffle sampleLowest 3 ()).head? ∧
        ([3, 0, 2].sum < 2 ^ 64 → ∀ i < [3, 0, 2].length,
          ((WeightedShuffle.new [3, 0, 2]).removeIndex i).map (·.shuffle sampleLowest 3 ()) =
            (weightedShuffleSlow sampleLowest () ([3, 0, 2].eraseIdx i)).map
              (List.map (skipIndex i)))) :=
  ⟨sampleLowest_inRange, by decide, le_rfl,
    fenwick_shuffle_draws_as_slow_reference sampleLowest_inRange [3, 0, 2] (by decide) () le_rfl⟩

/-- After a weight overflows the sum, `remove_index` leaves the weights that overflowed among the
zeros, so the shuffle no longer draws what the reference draws on the weights without the
index: with the lowest samples, `[1, 3, 2]` against `[1, 2, 3]`. -/
theorem remove_index_after_overflow_draws_zeros :
    ((WeightedShuffle.new [2 ^ 64 - 1, 1, 1, 1]).removeIndex 0).map
        (·.shuffle sampleLowest 4 ()) = some [1, 3, 2] ∧
      (weightedShuffleSlow sampleLowest () ([2 ^ 64 - 1, 1, 1, 1].eraseIdx 0)).map
        (List.map (skipIndex 0)) = some [1, 2, 3] := by
  decide

end Shuffle

end VelasChain.Gossip
