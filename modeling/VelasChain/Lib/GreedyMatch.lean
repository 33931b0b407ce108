import Mathlib

/-!
# Greedy matching of one list against another

`run skip key as bs` walks `as` and `bs` together, as a two-pointer loop does: an element of `as`
that `skip` holds of is passed over, an element equal to the key of the head of `bs` consumes both
heads, and any other element waits while the head of `bs` is passed over. It returns what is left
of both lists when one runs out.

Write `T` for the elements of `as` not skipped. What is left of `bs` is a suffix of `bs`, and of
`as` a suffix of `as`; all of `as` is consumed exactly when `T` is a subsequence of the keys of
`bs` and, where `T` needs the last key, the last element of `as` is in `T`
(`run_fst_eq_nil_iff`); and then the element of `bs` just before what is left is the match of the
last element of `T` (`exists_of_run_fst_eq_nil`).
-/

namespace GreedyMatch

open scoped List

variable {α β : Type*}

/-! ### Sublists through a head -/

lemma cons_sublist_cons_of_ne {a b : α} {l m : List α} (h : a ≠ b) :
    a :: l <+ b :: m ↔ a :: l <+ m := by
  rw [List.sublist_cons_iff]
  constructor
  · rintro (hsub | ⟨r, heq, -⟩)
    · exact hsub
    · exact absurd (List.cons.inj heq).1 h
  · exact Or.inl

lemma cons_sublist_dropLast_cons_of_ne {a b : α} {l m : List α} (h : a ≠ b) :
    a :: l <+ (b :: m).dropLast ↔ a :: l <+ m.dropLast := by
  cases m with
  | nil => simp
  | cons c m => rw [List.dropLast_cons_of_ne_nil (List.cons_ne_nil c m), cons_sublist_cons_of_ne h]

lemma cons_sublist_dropLast_cons {a : α} {l m : List α} (hl : l ≠ []) :
    a :: l <+ (a :: m).dropLast ↔ l <+ m.dropLast := by
  cases m with
  | nil => simp [hl]
  | cons c m => rw [List.dropLast_cons_of_ne_nil (List.cons_ne_nil c m), List.cons_sublist_cons]

variable [DecidableEq α] (skip : α → Bool) (key : β → α)

/-- Greedy matching of `as` against the keys of `bs`, passing over the elements of `as` that
`skip` holds of: what is left of both lists when one of them runs out. -/
def run : List α → List β → List α × List β
  | [], bs => ([], bs)
  | a :: as, [] => (a :: as, [])
  | a :: as, b :: bs =>
    if skip a then run as (b :: bs)
    else if a = key b then run as bs
    else run (a :: as) bs
termination_by as bs => as.length + bs.length

variable {skip key}

@[simp] lemma run_nil_left (bs : List β) : run skip key [] bs = ([], bs) := by
  rw [run]

@[simp] lemma run_nil_right (as : List α) : run skip key as [] = (as, []) := by
  cases as <;> rw [run]

/-- Where every element of `as` is skipped, all of `as` is passed over. -/
lemma run_of_filter_eq_nil {bs : List β} (hbs : bs ≠ []) :
    ∀ {as : List α}, as.filter (fun a => !skip a) = [] → run skip key as bs = ([], bs)
  | [], _ => run_nil_left bs
  | a :: as, h => by
    obtain ⟨b, bs', rfl⟩ := List.exists_cons_of_ne_nil hbs
    have hskip : skip a = true := by
      cases hs : skip a
      · simp [hs] at h
      · rfl
    have hrest : as.filter (fun a => !skip a) = [] := by
      simpa [List.filter_cons, hskip] using h
    rw [run, if_pos hskip]
    exact run_of_filter_eq_nil hbs hrest

lemma run_snd_suffix (as : List α) (bs : List β) : (run skip key as bs).2 <:+ bs := by
  fun_induction run skip key as bs with
  | case1 bs => exact List.suffix_refl bs
  | case2 a as => exact List.suffix_refl []
  | case3 a as b bs _ ih => exact ih
  | case4 as b bs _ ih => exact ih.trans (List.suffix_cons b bs)
  | case5 a as b bs _ _ ih => exact ih.trans (List.suffix_cons b bs)

lemma run_fst_suffix (as : List α) (bs : List β) : (run skip key as bs).1 <:+ as := by
  fun_induction run skip key as bs with
  | case1 bs => exact List.suffix_refl []
  | case2 a as => exact List.suffix_refl _
  | case3 a as b bs _ ih => exact ih.trans (List.suffix_cons a as)
  | case4 as b bs _ ih => exact ih.trans (List.suffix_cons _ as)
  | case5 a as b bs _ _ ih => exact ih

/-- An element not skipped consumes at least one element of `bs`. -/
lemma length_run_snd_lt (as : List α) (bs : List β)
    (hT : as.filter (fun a => !skip a) ≠ []) (hbs : bs ≠ []) :
    (run skip key as bs).2.length < bs.length := by
  fun_induction run skip key as bs with
  | case1 bs => simp at hT
  | case2 a as => exact absurd rfl hbs
  | case3 a as b bs hskip ih =>
    exact ih (by simpa [List.filter_cons, hskip] using hT) hbs
  | case4 as b bs _ _ =>
    have hsuf : (run skip key as bs).2 <:+ bs := run_snd_suffix as bs
    simp only [List.length_cons]
    have := hsuf.length_le
    omega
  | case5 a as b bs _ _ _ =>
    have hsuf : (run skip key (a :: as) bs).2 <:+ bs := run_snd_suffix (a :: as) bs
    simp only [List.length_cons]
    have := hsuf.length_le
    omega

/-! ### What matching consumes -/

/-- All of `as` is consumed exactly when the elements not skipped are a subsequence of the keys
of `bs` and, unless they are already one of the keys without the last, the last element of `as`
is not skipped. -/
theorem run_fst_eq_nil_iff (as : List α) (bs : List β) (hT : as.filter (fun a => !skip a) ≠ []) :
    (run skip key as bs).1 = [] ↔
      as.filter (fun a => !skip a) <+ bs.map key ∧
        (as.filter (fun a => !skip a) <+ (bs.map key).dropLast ∨
          as.getLast? = (as.filter (fun a => !skip a)).getLast?) := by
  fun_induction run skip key as bs with
  | case1 bs => simp at hT
  | case2 a as => simp [List.sublist_nil, hT]
  | case3 a as b bs hskip ih =>
    have hT' : as.filter (fun a => !skip a) ≠ [] := by simpa [List.filter_cons, hskip] using hT
    have has : as ≠ [] := by
      rintro rfl
      exact hT' rfl
    simp only [List.filter_cons, hskip, Bool.not_true, Bool.false_eq_true, if_false,
      List.getLast?_cons_of_ne_nil has] at ih ⊢
    exact ih hT'
  | case4 as b bs hskip ih =>
    simp only [List.filter_cons, hskip, Bool.not_false, if_true, List.map_cons,
      List.cons_sublist_cons] at ih ⊢
    by_cases hT' : as.filter (fun a => !skip a) = []
    · rw [hT']
      by_cases hbs : bs = []
      · subst hbs
        -- only skipped elements follow `key b`, so it is last exactly when nothing follows it
        have hlast : (key b :: as).getLast? = some (key b) ↔ as = [] := by
          constructor
          · intro h
            by_contra has
            rw [List.getLast?_cons_of_ne_nil has] at h
            have hmem : key b ∈ as.filter (fun a => !skip a) :=
              List.mem_filter.mpr ⟨List.mem_of_getLast? h, by simp [hskip]⟩
            rw [hT'] at hmem
            exact List.not_mem_nil hmem
          · rintro rfl
            rfl
        simp [hlast]
      · rw [run_of_filter_eq_nil hbs hT']
        have hkeys : bs.map key ≠ [] := by simpa using hbs
        simp [List.dropLast_cons_of_ne_nil hkeys]
    · have has : as ≠ [] := by
        rintro rfl
        exact hT' rfl
      rw [ih hT', cons_sublist_dropLast_cons hT', List.getLast?_cons_of_ne_nil has,
        List.getLast?_cons_of_ne_nil hT']
  | case5 a as b bs hskip hkey ih =>
    simp only [List.filter_cons, hskip, Bool.not_false, if_true, List.map_cons] at ih hT ⊢
    rw [ih hT, cons_sublist_cons_of_ne hkey, cons_sublist_dropLast_cons_of_ne hkey]

/-- When all of `as` is consumed, the element of `bs` just before what is left matched the last
element not skipped. -/
theorem exists_of_run_fst_eq_nil (as : List α) (bs : List β)
    (hT : as.filter (fun a => !skip a) ≠ []) (h : (run skip key as bs).1 = []) :
    ∃ pre b, bs = pre ++ b :: (run skip key as bs).2 ∧
      key b = (as.filter (fun a => !skip a)).getLast hT := by
  fun_induction run skip key as bs with
  | case1 bs => simp at hT
  | case2 a as => simp at h
  | case3 a as b bs hskip ih =>
    have hT' : as.filter (fun a => !skip a) ≠ [] := by simpa [List.filter_cons, hskip] using hT
    obtain ⟨pre, b', hbs, hb'⟩ := ih hT' h
    refine ⟨pre, b', hbs, ?_⟩
    simp only [List.filter_cons, hskip, Bool.not_true, Bool.false_eq_true, if_false]
    exact hb'
  | case4 as b bs hskip ih =>
    have hfilter : (key b :: as).filter (fun a => !skip a) =
        key b :: as.filter (fun a => !skip a) := by
      simp [hskip]
    by_cases hT' : as.filter (fun a => !skip a) = []
    · -- `key b` is the last element not skipped, matched by `b`
      refine ⟨[], b, ?_, ?_⟩
      · by_cases hbs : bs = []
        · subst hbs
          simp
        · rw [run_of_filter_eq_nil hbs hT']
          rfl
      · simp only [hfilter, hT', List.getLast_singleton]
    · obtain ⟨pre, b', hbs, hb'⟩ := ih hT' h
      refine ⟨b :: pre, b', by rw [List.cons_append, ← hbs], ?_⟩
      simp only [hfilter, List.getLast_cons hT']
      exact hb'
  | case5 a as b bs hskip hkey ih =>
    obtain ⟨pre, b', hbs, hb'⟩ := ih hT h
    exact ⟨b :: pre, b', by rw [List.cons_append, ← hbs], hb'⟩

end GreedyMatch
