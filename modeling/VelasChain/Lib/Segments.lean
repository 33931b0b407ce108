import Mathlib

/-!
# Consecutive segments of the naturals

Segments of lengths `len 0, len 1, …` are laid end to end from zero: segment `e` starts at
`start len e`, the sum of the lengths before it. A position `s` splits as segment `e` and offset
`i` (`Splits`) when `i < len e` and `start len e + i = s`.

Each position splits in at most one way, and the segment of a position never decreases as the
position grows; with every length positive it grows by at most one from a position to the next,
and the last position of a segment is the one just before the next segment starts.

Along any list, a position between the first element's and the last one's is crossed by a pair
of consecutive elements (`exists_zip_of_le_of_lt`).
-/

namespace Segments

variable (len : ℕ → ℕ)

/-- The first position of segment `e`. -/
def start : ℕ → ℕ
  | 0 => 0
  | e + 1 => start e + len e

/-- Position `s` is at offset `i` of segment `e`. -/
def Splits (s e i : ℕ) : Prop := i < len e ∧ start len e + i = s

variable {len} {s s' e e' i i' : ℕ}

@[simp] lemma start_zero : start len 0 = 0 := rfl

@[simp] lemma start_succ (e : ℕ) : start len (e + 1) = start len e + len e := rfl

lemma start_mono : Monotone (start len) :=
  monotone_nat_of_le_succ fun _ => Nat.le_add_right _ _

/-- A segment ends where any later one starts, or before. -/
lemma start_add_len_le (h : e < e') : start len e + len e ≤ start len e' :=
  start_mono (Nat.succ_le_of_lt h)

lemma Splits.start_le (h : Splits len s e i) : start len e ≤ s := h.2 ▸ Nat.le_add_right _ _

/-- A position before the start of a segment lies in an earlier one. -/
lemma Splits.index_lt (h : Splits len s e i) (hs : s < start len e') : e < e' := by
  by_contra hle
  have hstart : start len e' ≤ start len e := start_mono (Nat.le_of_not_lt hle)
  have := h.start_le
  omega

lemma Splits.index_le (h : Splits len s e i) (h' : Splits len s' e' i') (hs : s ≤ s') :
    e ≤ e' := by
  by_contra hlt
  have hend : start len e' + len e' ≤ start len e := start_add_len_le (Nat.lt_of_not_le hlt)
  obtain ⟨hi, rfl⟩ := h
  obtain ⟨hi', rfl⟩ := h'
  omega

/-- A position splits in at most one way. -/
lemma Splits.unique (h : Splits len s e i) (h' : Splits len s e' i') : e = e' ∧ i = i' := by
  have he : e = e' := Nat.le_antisymm (h.index_le h' le_rfl) (h'.index_le h le_rfl)
  subst he
  exact ⟨rfl, by have := h.2; have := h'.2; omega⟩

section Positive

variable (hpos : ∀ e, 0 < len e)
include hpos

/-- The next position is in the same segment or the next one. -/
lemma Splits.index_succ_le (h : Splits len s e i) (h' : Splits len (s + 1) e' i') :
    e' ≤ e + 1 := by
  by_contra hlt
  have hend : start len (e + 1) + len (e + 1) ≤ start len e' :=
    start_add_len_le (Nat.lt_of_not_le hlt)
  have hnext := hpos (e + 1)
  obtain ⟨hi, rfl⟩ := h
  obtain ⟨hi', hs'⟩ := h'
  rw [start_succ] at hend
  omega

/-- The position before a segment starts is the last of the segment before. -/
lemma splits_pred_start (e : ℕ) : Splits len (start len (e + 1) - 1) e (len e - 1) := by
  have := hpos e
  exact ⟨by omega, by rw [start_succ]; omega⟩

end Positive

/-! ### Positions crossed along a list -/

section Steps

variable {α : Type*} (g : α → ℕ)

/-- Along a list, every position from the first element's up to the last one's is crossed by a
pair of consecutive elements. -/
theorem exists_zip_of_le_of_lt {j : ℕ} : ∀ (a : α) (l : List α), g a ≤ j →
    j < g ((a :: l).getLast (List.cons_ne_nil a l)) →
      ∃ p ∈ (a :: l).zip l, g p.1 ≤ j ∧ j < g p.2
  | a, [], ha, hlast => absurd hlast (Nat.not_lt.mpr ha)
  | a, b :: l, ha, hlast => by
    rw [List.zip_cons_cons]
    by_cases hb : j < g b
    · exact ⟨(a, b), List.mem_cons_self, ha, hb⟩
    · rw [List.getLast_cons_cons] at hlast
      obtain ⟨p, hp, hjp⟩ := exists_zip_of_le_of_lt b l (Nat.le_of_not_lt hb) hlast
      exact ⟨p, List.mem_cons_of_mem _ hp, hjp⟩

/-- Consecutive elements of a list related pairwise are related. -/
theorem rel_of_mem_zip {R : α → α → Prop} :
    ∀ {a : α} {l : List α}, (a :: l).Pairwise R → ∀ p ∈ (a :: l).zip l, R p.1 p.2
  | _, [], _, p, hp => by simp at hp
  | a, b :: l, hl, p, hp => by
    rw [List.zip_cons_cons, List.mem_cons] at hp
    rcases hp with rfl | hp
    · exact List.rel_of_pairwise_cons hl List.mem_cons_self
    · exact rel_of_mem_zip hl.of_cons p hp

/-- In a strictly increasing list, no element lies strictly between two consecutive ones. -/
theorem le_or_le_of_mem_zip {β : Type*} [Preorder β] :
    ∀ {a : β} {l : List β}, (a :: l).Pairwise (· < ·) →
      ∀ p ∈ (a :: l).zip l, ∀ x ∈ a :: l, x ≤ p.1 ∨ p.2 ≤ x
  | _, [], _, p, hp, _, _ => by simp at hp
  | a, b :: l, hl, p, hp, x, hx => by
    rw [List.zip_cons_cons, List.mem_cons] at hp
    rcases hp with rfl | hp
    · -- the first pair: `x` is its first element, or its second or later
      rcases List.mem_cons.mp hx with rfl | hx
      · exact .inl le_rfl
      rcases List.mem_cons.mp hx with rfl | hx
      · exact .inr le_rfl
      · exact .inr (List.rel_of_pairwise_cons hl.of_cons hx).le
    · rcases List.mem_cons.mp hx with rfl | hx
      · -- the head is below every later element
        exact .inl (List.rel_of_pairwise_cons hl (List.of_mem_zip hp).1).le
      · exact le_or_le_of_mem_zip hl.of_cons p hp x hx

end Steps

end Segments
