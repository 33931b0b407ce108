import Mathlib

/-!
# Binary search over a slice

`searchBy f xs` is the binary search of a slice by a comparator: it halves the range
`[left, right)` around `mid = left + (right - left) / 2`, goes right where `f` finds the element
at `mid` less than the target and left where it finds it greater, and answers `Ok mid` at an
element `f` finds equal or `Err left` once the range is empty.

On a list sorted by a key, searching by comparison with a target finds an element exactly when
the target is the key of an element of the list (`isOk_searchBy_iff`). The proof keeps the
invariant `Bounded`: every element left of the range is below the target and every element
right of it above.

`crossingLoop f val` is the other search of this kind: it halves a range `(lo, hi]` whose ends
have `f lo ≤ val < f hi`, keeping each end with its value of `f`, until the two ends are
neighbours. It ends at a crossing, a `k` with `f k ≤ val < f (k + 1)`, for any `f` at all
(`crossingLoop_spec`); on a monotone `f` that is the first position where `f` exceeds `val`.
-/

namespace BinarySearch

variable {α : Type*} (f : α → Ordering) (xs : List α)

/-- The loop of `binary_search_by` over the range `[left, right)` of `xs`. -/
def searchLoop (left right : ℕ) : Except ℕ ℕ :=
  if _h : left < right then
    match xs[left + (right - left) / 2]? with
    | some x =>
      match f x with
      | .lt => searchLoop (left + (right - left) / 2 + 1) right
      | .gt => searchLoop left (left + (right - left) / 2)
      | .eq => .ok (left + (right - left) / 2)
    -- `mid < right ≤ xs.length`: never out of range
    | none => .error left
  else .error left
termination_by right - left
decreasing_by all_goals omega

/-- `binary_search_by`: `Ok` with the index of an element `f` finds equal, or `Err` with the
index where such an element would be inserted. -/
def searchBy : Except ℕ ℕ := searchLoop f xs 0 xs.length

variable {β : Type*} [LinearOrder β] (key : α → β) (t : β)

/-- Every element left of `[left, right)` has a key below `t`, every element right of it a key
above `t`. -/
def Bounded (left right : ℕ) : Prop :=
  right ≤ xs.length ∧
    (∀ i (hi : i < xs.length), i < left → key xs[i] < t) ∧
    (∀ i (hi : i < xs.length), right ≤ i → t < key xs[i])

variable {xs key t}

lemma le_of_sorted (hsorted : xs.Pairwise (fun a b => key a ≤ key b)) {i j : ℕ} (hij : i ≤ j)
    (hj : j < xs.length) : key xs[i] ≤ key xs[j] := by
  rcases Nat.lt_or_eq_of_le hij with h | rfl
  · exact List.pairwise_iff_getElem.mp hsorted i j (by omega) hj h
  · exact le_rfl

/-- On a sorted list, the search from a bounded range finds an element exactly when the target
is the key of an element of the list. -/
theorem isOk_searchLoop_iff (hsorted : xs.Pairwise (fun a b => key a ≤ key b)) (left right : ℕ)
    (hb : Bounded xs key t left right) :
    (searchLoop (fun x => compare (key x) t) xs left right).isOk ↔ ∃ x ∈ xs, key x = t := by
  fun_induction searchLoop (fun x => compare (key x) t) xs left right with
  | case1 left right hlt x hx hcmp ih =>
    -- below the target at `mid`: so is everything up to `mid`
    apply ih
    refine ⟨hb.1, fun i hi hle => ?_, hb.2.2⟩
    have hmid := List.getElem_of_getElem? hx
    obtain ⟨hmid, rfl⟩ := hmid
    exact lt_of_le_of_lt (le_of_sorted hsorted (by omega) hmid) (compare_lt_iff_lt.mp hcmp)
  | case2 left right hlt x hx hcmp ih =>
    -- above the target at `mid`: so is everything from `mid` on
    apply ih
    obtain ⟨hmid, rfl⟩ := List.getElem_of_getElem? hx
    refine ⟨by omega, hb.2.1, fun i hi hle => ?_⟩
    exact lt_of_lt_of_le (compare_gt_iff_gt.mp hcmp) (le_of_sorted hsorted hle hi)
  | case3 left right hlt x hx hcmp =>
    simp only [Except.isOk, Except.toBool, true_iff]
    exact ⟨x, List.mem_of_getElem? hx, compare_eq_iff_eq.mp hcmp⟩
  | case4 left right hlt hx =>
    have := hb.1
    rw [List.getElem?_eq_none_iff] at hx
    omega
  | case5 left right hge =>
    simp only [Except.isOk, Except.toBool, Bool.false_eq_true, false_iff, not_exists, not_and]
    intro x hx hkey
    obtain ⟨i, hi, rfl⟩ := List.getElem_of_mem hx
    rcases Nat.lt_or_ge i left with h | h
    · exact absurd hkey (ne_of_lt (hb.2.1 i hi h))
    · exact absurd hkey (ne_of_gt (hb.2.2 i hi (by omega)))

theorem isOk_searchBy_iff (hsorted : xs.Pairwise (fun a b => key a ≤ key b)) :
    (searchBy (fun x => compare (key x) t) xs).isOk ↔ ∃ x ∈ xs, key x = t :=
  isOk_searchLoop_iff hsorted 0 xs.length
    ⟨Nat.le_refl _, fun _ _ h => absurd h (Nat.not_lt_zero _), fun _ hi h => absurd hi (by omega)⟩

/-- A search for a target below every element (each compares greater) moves left all the way
and answers `Err left`: the target goes in front. -/
theorem searchLoop_of_forall_gt (h : ∀ x ∈ xs, f x = .gt) (left right : ℕ) :
    searchLoop f xs left right = .error left := by
  fun_induction searchLoop f xs left right with
  | case1 left right hlt x hx hcmp ih => rw [h x (List.mem_of_getElem? hx)] at hcmp; cases hcmp
  | case2 left right hlt x hx hcmp ih => exact ih
  | case3 left right hlt x hx hcmp => rw [h x (List.mem_of_getElem? hx)] at hcmp; cases hcmp
  | case4 => rfl
  | case5 => rfl

theorem searchBy_of_forall_gt (h : ∀ x ∈ xs, f x = .gt) : searchBy f xs = .error 0 :=
  searchLoop_of_forall_gt f h 0 xs.length

/-! ### Searching for a crossing -/

section Crossing

variable (f : ℕ → ℕ) (val : ℕ)

/-- Halve the range between `lo` and `hi`, each given with its value of `f`, keeping `f` at most
`val` at `lo` and above it at `hi`. -/
def crossingLoop : ℕ → ℕ × ℕ → ℕ × ℕ → (ℕ × ℕ) × (ℕ × ℕ)
  | 0, lo, hi => (lo, hi)
  | fuel + 1, lo, hi =>
    if lo.1 + 1 < hi.1 then
      if f (lo.1 + (hi.1 - lo.1) / 2) ≤ val then
        crossingLoop fuel (lo.1 + (hi.1 - lo.1) / 2, f (lo.1 + (hi.1 - lo.1) / 2)) hi
      else crossingLoop fuel lo (lo.1 + (hi.1 - lo.1) / 2, f (lo.1 + (hi.1 - lo.1) / 2))
    else (lo, hi)

variable {f val}

/-- With a step for each position between the ends, the search ends at neighbours `k` and
`k + 1` between `lo` and `hi` with `f k ≤ val < f (k + 1)`. -/
theorem crossingLoop_spec {fuel lo hi : ℕ} (hlo : f lo ≤ val) (hhi : val < f hi) (hlt : lo < hi)
    (hfuel : hi ≤ lo + fuel + 1) :
    ∃ k, crossingLoop f val fuel (lo, f lo) (hi, f hi) = ((k, f k), (k + 1, f (k + 1))) ∧
      lo ≤ k ∧ k + 1 ≤ hi ∧ f k ≤ val ∧ val < f (k + 1) := by
  induction fuel generalizing lo hi with
  | zero =>
    obtain rfl : hi = lo + 1 := by omega
    exact ⟨lo, rfl, Nat.le_refl _, Nat.le_refl _, hlo, hhi⟩
  | succ fuel ih =>
    rw [crossingLoop]
    dsimp only
    split_ifs with hgap hmid
    · -- `f` is at most `val` at the midpoint: it becomes the lower end
      obtain ⟨k, hk, hlok, hkhi, hfk⟩ := ih hmid hhi (by omega) (by omega)
      exact ⟨k, hk, by omega, hkhi, hfk⟩
    · -- `f` exceeds `val` at the midpoint: it becomes the upper end
      obtain ⟨k, hk, hlok, hkhi, hfk⟩ := ih hlo (Nat.lt_of_not_le hmid) (by omega) (by omega)
      exact ⟨k, hk, hlok, by omega, hfk⟩
    · obtain rfl : hi = lo + 1 := by omega
      exact ⟨lo, rfl, Nat.le_refl _, Nat.le_refl _, hlo, hhi⟩

end Crossing

end BinarySearch
