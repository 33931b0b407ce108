import Mathlib

/-!
# A fixed window over the end of a history

An array of `w` cells that keeps the last `w` values of a sequence, oldest first, is a view of
the whole history: cell `i` holds the value `w - 1 - i` places before the newest one, or zero
where the history is shorter (`window`). Shifting every cell one place towards the front and
writing a new value into the last cell (`shiftIn`) is appending the value to the history.

A history of numbered values whose numbers run on by one from `first` is looked up by position:
the value numbered `n` is the one `n - first` places after the oldest.
-/

namespace Window

variable {α : Type} [Zero α] {w : ℕ}

/-- The last `w` values of `l`, oldest first, with zeros before the first value. -/
def window (w : ℕ) (l : List α) (i : Fin w) : α := l.reverse.getD (w - 1 - i) 0

/-- Move every cell one place towards the front and write `x` into the last one. -/
def shiftIn (cells : Fin w → α) (x : α) (i : Fin w) : α :=
  if h : i.val + 1 < w then cells ⟨i.val + 1, h⟩ else x

@[simp] lemma window_nil : window w ([] : List α) = fun _ => 0 := by
  funext i
  simp [window]

/-- Shifting a value into the window of a history is the window of the longer history. -/
theorem shiftIn_window (l : List α) (x : α) : shiftIn (window w l) x = window w (l ++ [x]) := by
  funext i
  unfold shiftIn window
  rw [List.reverse_append, List.reverse_singleton, List.singleton_append]
  by_cases h : i.val + 1 < w
  · -- an older value: one place further back in the longer history
    rw [dif_pos h, show w - 1 - i.val = (w - 1 - (i.val + 1)) + 1 by omega, List.getD_cons_succ]
  · rw [dif_neg h, show w - 1 - i.val = 0 by omega, List.getD_cons_zero]

/-- The cell `k` places before the last holds the value `k` places before the newest. -/
lemma window_sub (l : List α) {k : ℕ} (hk : k < w) :
    window w l ⟨w - 1 - k, by omega⟩ = l.reverse.getD k 0 := by
  show l.reverse.getD (w - 1 - (w - 1 - k)) 0 = _
  rw [show w - 1 - (w - 1 - k) = k by omega]

/-! ### Histories numbered on by one -/

section Numbered

variable {β : Type}

lemma lookup_of_lt {l : List (ℕ × β)} {first n : ℕ}
    (h : l.map Prod.fst = List.range' first l.length) (hn : n < first) : l.lookup n = none := by
  induction l generalizing first with
  | nil => rfl
  | cons e l ih =>
    obtain ⟨k, b⟩ := e
    simp only [List.map_cons, List.length_cons, List.range'_succ, List.cons.injEq] at h
    obtain ⟨rfl, hrest⟩ := h
    simp only [List.lookup, show (n == k) = false from beq_false_of_ne (by omega)]
    exact ih hrest (by omega)

/-- The value numbered `n` is at position `n - first`. -/
lemma lookup_of_le {l : List (ℕ × β)} {first n : ℕ}
    (h : l.map Prod.fst = List.range' first l.length) (hn : first ≤ n) :
    l.lookup n = (l.map Prod.snd)[n - first]? := by
  induction l generalizing first with
  | nil => rfl
  | cons e l ih =>
    obtain ⟨k, b⟩ := e
    simp only [List.map_cons, List.length_cons, List.range'_succ, List.cons.injEq] at h
    obtain ⟨rfl, hrest⟩ := h
    by_cases hk : n = k
    · subst hk
      simp [List.lookup]
    · -- a later value: one place further into the rest
      simp only [List.lookup, show (n == k) = false from beq_false_of_ne hk]
      rw [ih hrest (by omega), List.map_cons, show n - k = (n - (k + 1)) + 1 by omega,
        List.getElem?_cons_succ]

end Numbered

end Window
