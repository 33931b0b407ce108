import Mathlib

/-!
# Tables of keys read by index

A list of keys without duplicates is read by index. An index below `n` holds one of the first `n`
keys and no index from `n` on does (`lt_iff_getElem_mem_take`), so regions laid out one after
another are told apart by comparing an index with their bounds; and one index only holds a given
key (`getElem?_eq_some_getElem_iff`). A list is without duplicates exactly when no element occurs
again after its own index (`nodup_iff_forall_not_mem_drop`).

A `mapM` in `Option` whose every call succeeds succeeds, with results related to the arguments
pointwise (`mapM_eq_some_of_forall`), and two lists related pointwise have an element of one kind
exactly when the other has one of the related kind (`Forall₂.exists_iff`).
-/

namespace KeyTable

variable {α β : Type*} {l : List α}

/-- In a list without duplicates, an index is below `n` exactly when its element is one of the
first `n`. -/
lemma lt_iff_getElem_mem_take (hl : l.Nodup) {k n : ℕ} (hk : k < l.length) :
    k < n ↔ l[k] ∈ l.take n := by
  rw [List.mem_take_iff_getElem]
  constructor
  · intro hkn
    exact ⟨k, by omega, rfl⟩
  · rintro ⟨j, hj, hjk⟩
    have hjk : j = k := (hl.getElem_inj_iff).mp hjk
    omega

lemma getElem?_eq_some_getElem_iff (hl : l.Nodup) {j k : ℕ} (hk : k < l.length) :
    l[j]? = some l[k] ↔ j = k := by
  constructor
  · intro h
    obtain ⟨hj, hjk⟩ := List.getElem?_eq_some_iff.mp h
    exact (hl.getElem_inj_iff).mp hjk
  · rintro rfl
    exact List.getElem?_eq_getElem hk

lemma nodup_iff_forall_not_mem_drop :
    l.Nodup ↔ ∀ i (hi : i < l.length), l[i] ∉ l.drop (i + 1) := by
  rw [List.Nodup, List.pairwise_iff_getElem]
  constructor
  · intro h i hi hmem
    obtain ⟨j, hj, hji⟩ := List.getElem_of_mem hmem
    rw [List.getElem_drop] at hji
    rw [List.length_drop] at hj
    exact h i (i + 1 + j) hi (by omega) (by omega) hji.symm
  · intro h i j hi hj hij heq
    refine h i hi (List.mem_iff_getElem.mpr ⟨j - (i + 1), ?_, ?_⟩)
    · rw [List.length_drop]
      omega
    · rw [List.getElem_drop, heq]
      congr 1
      omega

lemma mapM_eq_some_of_forall {f : α → Option β} {R : α → β → Prop}
    (h : ∀ a ∈ l, ∃ b, f a = some b ∧ R a b) :
    ∃ bs, l.mapM f = some bs ∧ List.Forall₂ R l bs := by
  induction l with
  | nil => exact ⟨[], rfl, .nil⟩
  | cons a rest ih =>
    obtain ⟨b, hb, hab⟩ := h a List.mem_cons_self
    obtain ⟨bs, hbs, hrest⟩ := ih fun a' ha' => h a' (List.mem_cons_of_mem _ ha')
    exact ⟨b :: bs, by simp [List.mapM_cons, hb, hbs], .cons hab hrest⟩

lemma Forall₂.exists_iff {R : α → β → Prop} {l₁ : List α} {l₂ : List β}
    (h : List.Forall₂ R l₁ l₂) {P : α → Prop} {Q : β → Prop}
    (hPQ : ∀ a ∈ l₁, ∀ b, R a b → (P a ↔ Q b)) : (∃ a ∈ l₁, P a) ↔ ∃ b ∈ l₂, Q b := by
  induction h with
  | nil => simp
  | cons hab _ ih =>
    simp only [List.mem_cons, exists_eq_or_imp]
    rw [hPQ _ List.mem_cons_self _ hab,
      ih fun a ha b hR => hPQ a (List.mem_cons_of_mem _ ha) b hR]

end KeyTable
