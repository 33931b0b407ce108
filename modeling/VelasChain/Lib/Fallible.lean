import Mathlib

/-!
# Stateful code whose errors keep the state

A Rust method on `&mut self` that returns early through `?` keeps every change it made before
the error. Such code is modelled as a function to the state reached and the result, `σ × Except ε α`;
`andThen` sequences two of them, and an error passes the state on unchanged.

Three loops of this kind: `tryEach` runs a body over a list and stops at the first error;
`visitOnce` skips an element when an earlier one has the same key, and is `tryEach` over the first
occurrence of each key (`visitOnce_eq`); `modifyFirst` replaces the first element a test picks,
as a `for x in v.iter_mut()` with an early `return` does. The rules for them (an invariant kept
whatever the result, a measure and the per-iteration inversion when the loop succeeded, the
shape of the list `modifyFirst` leaves) are what proofs about such code use.
-/

namespace Fallible

variable {α β γ σ ε : Type*}

/-- Sequencing in which an error passes the state it was raised in through. -/
def andThen (x : σ × Except ε α) (f : σ → α → σ × Except ε β) : σ × Except ε β :=
  match x with
  | (s, .ok a) => f s a
  | (s, .error e) => (s, .error e)

@[simp] lemma andThen_ok (s : σ) (a : α) (f : σ → α → σ × Except ε β) :
    andThen (s, .ok a) f = f s a := rfl

@[simp] lemma andThen_error (s : σ) (e : ε) (f : σ → α → σ × Except ε β) :
    andThen (s, .error e) f = (s, .error e) := rfl

lemma andThen_eq_ok {x : σ × Except ε α} {f : σ → α → σ × Except ε β} {s' : σ} {b : β} :
    andThen x f = (s', .ok b) ↔ ∃ s a, x = (s, .ok a) ∧ f s a = (s', .ok b) := by
  rcases x with ⟨s, _ | a⟩ <;> simp

/-- What both halves keep, failing or not, holds of the state a sequence ends in. -/
theorem andThen_invariant (P : σ → Prop) {x : σ × Except ε α} {f : σ → α → σ × Except ε β}
    (hx : P x.1) (hf : ∀ s a, x = (s, .ok a) → P s → P (f s a).1) : P (andThen x f).1 := by
  rcases x with ⟨s, _ | a⟩
  · exact hx
  · exact hf s a rfl hx

/-- Replace the first element `p` picks by what `f` makes of it, with `f`'s result; without
one, the list stays and the result is `notFound`. -/
def modifyFirst (p : α → Bool) (f : α → α × Except ε β) (notFound : ε) :
    List α → List α × Except ε β
  | [] => ([], .error notFound)
  | a :: l =>
    if p a then ((f a).1 :: l, (f a).2)
    else ((a :: (modifyFirst p f notFound l).1), (modifyFirst p f notFound l).2)

section ModifyFirst

variable {p : α → Bool}

lemma modifyFirst_of_forall_not {f : α → α × Except ε β} {notFound : ε} {l : List α} (h : ∀ a ∈ l, p a = false) :
    modifyFirst p f notFound l = (l, .error notFound) := by
  induction l with
  | nil => rfl
  | cons a l ih =>
    have ha := h a List.mem_cons_self
    rw [modifyFirst, if_neg (by simp [ha]), ih fun b hb => h b (List.mem_cons_of_mem a hb)]

/-- The first element `p` picks splits the list, and only it is replaced. -/
theorem modifyFirst_eq_split (f : α → α × Except ε β) (notFound : ε) {l : List α}
    (h : ∃ a ∈ l, p a = true) :
    ∃ l₁ a l₂, l = l₁ ++ a :: l₂ ∧ p a = true ∧
      modifyFirst p f notFound l = (l₁ ++ (f a).1 :: l₂, (f a).2) := by
  induction l with
  | nil => simp at h
  | cons b l ih =>
    by_cases hb : p b = true
    · exact ⟨[], b, l, rfl, hb, by simp [modifyFirst, hb]⟩
    · have hrest : ∃ a ∈ l, p a = true := by
        obtain ⟨a, ha, hpa⟩ := h
        rcases List.mem_cons.mp ha with rfl | ha
        · exact absurd hpa hb
        · exact ⟨a, ha, hpa⟩
      obtain ⟨l₁, a, l₂, rfl, hpa, heq⟩ := ih hrest
      refine ⟨b :: l₁, a, l₂, rfl, hpa, ?_⟩
      simp [modifyFirst, hb, heq]

end ModifyFirst

/-- Run `work` on each element in turn, stopping at the first error with the state reached. -/
def tryEach (work : σ → α → σ × Except ε Unit) : List α → σ → σ × Except ε Unit
  | [], s => (s, .ok ())
  | a :: l, s =>
    match work s a with
    | (s', .ok ()) => tryEach work l s'
    | (s', .error e) => (s', .error e)

section TryEach

variable {work : σ → α → σ × Except ε Unit}

@[simp] lemma tryEach_nil (s : σ) : tryEach work [] s = (s, .ok ()) := rfl

lemma tryEach_cons_eq_ok {a : α} {l : List α} {s s' : σ} :
    tryEach work (a :: l) s = (s', .ok ()) ↔
      ∃ s₁, work s a = (s₁, .ok ()) ∧ tryEach work l s₁ = (s', .ok ()) := by
  rcases hw : work s a with ⟨s₁, _ | ⟨⟩⟩
  · simp [tryEach, hw]
  · simp [tryEach, hw]

/-- What every iteration keeps, failing or not, holds of the state the loop ends in. -/
theorem tryEach_invariant (P : σ → Prop) {l : List α}
    (hwork : ∀ s a, a ∈ l → P s → P (work s a).1) : ∀ {s}, P s → P (tryEach work l s).1 := by
  induction l with
  | nil => exact fun hs => hs
  | cons a l ih =>
    intro s hs
    have hs₁ := hwork s a List.mem_cons_self hs
    rcases hw : work s a with ⟨s₁, _ | ⟨⟩⟩
    · simpa [tryEach, hw] using hs₁
    · simp only [tryEach, hw]
      exact ih (fun s b hb => hwork s b (List.mem_cons_of_mem a hb)) (by simpa [hw] using hs₁)

/-- A measure that each successful iteration lowers by its element's weight is lowered by the
total weight over a loop that succeeded. -/
theorem tryEach_measure {M : Type*} [AddCommMonoid M] (g : σ → M) (w : α → M) {l : List α}
    (hwork : ∀ s a s', a ∈ l → work s a = (s', .ok ()) → g s' + w a = g s) :
    ∀ {s s'}, tryEach work l s = (s', .ok ()) → g s' + (l.map w).sum = g s := by
  induction l with
  | nil =>
    intro s s' h
    simp only [tryEach_nil, Prod.mk.injEq] at h
    simp [h.1]
  | cons a l ih =>
    intro s s' h
    obtain ⟨s₁, h₁, hrest⟩ := tryEach_cons_eq_ok.mp h
    have hstep := hwork s a s₁ List.mem_cons_self h₁
    have hloop := ih (fun s b s' hb => hwork s b s' (List.mem_cons_of_mem a hb)) hrest
    calc g s' + ((a :: l).map w).sum = (g s' + (l.map w).sum) + w a := by
          rw [List.map_cons, List.sum_cons, add_comm (w a), ← add_assoc]
      _ = g s := by rw [hloop, hstep]

/-- Skipping the elements a test rejects is looping over the others. -/
lemma tryEach_skip (p : γ → Bool) (f : γ → α) (l : List γ) (s : σ) :
    tryEach (fun s c => if p c then (s, .ok ()) else work s (f c)) l s =
      tryEach work ((l.filter fun c => !p c).map f) s := by
  induction l generalizing s with
  | nil => rfl
  | cons c l ih =>
    by_cases hc : p c
    · simp [tryEach, hc, ih]
    · rcases hw : work s (f c) with ⟨s₁, _ | ⟨⟩⟩ <;> simp [tryEach, hc, hw, ih]

end TryEach

variable [DecidableEq β] (key : α → β)

/-- The elements of a list whose key no earlier element has. -/
def firstOccurrences (l : List α) : List α :=
  (l.zipIdx.filter fun (a, i) => !(l.take i).any fun b => decide (key b = key a)).map Prod.fst

/-- Run `work` once for each key of the list, on the first element with it; a later element with
a key already seen is skipped. -/
def visitOnce (work : σ → α → σ × Except ε Unit) (l : List α) (s : σ) : σ × Except ε Unit :=
  tryEach (fun s (a, i) =>
      if (l.take i).any (fun b => decide (key b = key a)) then (s, .ok ()) else work s a)
    l.zipIdx s

theorem visitOnce_eq (work : σ → α → σ × Except ε Unit) (l : List α) (s : σ) :
    visitOnce key work l s = tryEach work (firstOccurrences key l) s :=
  tryEach_skip _ Prod.fst l.zipIdx s

@[simp] lemma firstOccurrences_nil : firstOccurrences key ([] : List α) = [] := rfl

/-- Appending an element adds it exactly when its key is new. -/
theorem firstOccurrences_concat (l : List α) (a : α) :
    firstOccurrences key (l ++ [a]) =
      firstOccurrences key l ++ if ∃ b ∈ l, key b = key a then [] else [a] := by
  unfold firstOccurrences
  rw [List.zipIdx_append, List.zipIdx_singleton, List.filter_append, List.map_append]
  -- below the new last position, the prefixes are those of `l`
  have hbelow : (l.zipIdx.filter fun (c, i) => !((l ++ [a]).take i).any
      fun b => decide (key b = key c)) =
      l.zipIdx.filter fun (c, i) => !(l.take i).any fun b => decide (key b = key c) := by
    refine List.filter_congr fun ⟨c, i⟩ hmem => ?_
    have hi : i ≤ l.length := by
      have := (List.mem_zipIdx hmem).2.1
      omega
    simp only [List.take_append_of_le_length hi]
  rw [hbelow]
  congr 1
  -- at the new last position, the prefix is all of `l`
  simp only [List.filter_cons, List.filter_nil, Nat.zero_add]
  rw [List.take_left' rfl]
  by_cases hnew : ∃ b ∈ l, key b = key a
  · simp [hnew]
  · have hany : (l.any fun b => decide (key b = key a)) = false := by
      simpa using fun b hb hkey => hnew ⟨b, hb, hkey⟩
    simp [hany, hnew]

lemma mem_of_mem_firstOccurrences {l : List α} {a : α} (h : a ∈ firstOccurrences key l) :
    a ∈ l := by
  induction l using List.reverseRecOn with
  | nil => simp at h
  | append_singleton l c ih =>
    rw [firstOccurrences_concat] at h
    split_ifs at h with hnew
    · simpa using Or.inl (ih (by simpa using h))
    · simp only [List.mem_append, List.mem_singleton] at h ⊢
      exact h.imp_left ih

/-- Every key of the list has its first occurrence among the visited elements. -/
lemma exists_mem_firstOccurrences {l : List α} {a : α} (h : a ∈ l) :
    ∃ b ∈ firstOccurrences key l, key b = key a := by
  induction l using List.reverseRecOn generalizing a with
  | nil => simp at h
  | append_singleton l c ih =>
    rw [firstOccurrences_concat]
    simp only [List.mem_append, List.mem_singleton] at h
    by_cases hnew : ∃ b ∈ l, key b = key c
    · rcases h with h | rfl
      · obtain ⟨b, hb, hkey⟩ := ih h
        exact ⟨b, by simp [hb], hkey⟩
      · obtain ⟨b, hb, hkey⟩ := hnew
        obtain ⟨d, hd, hkey'⟩ := ih hb
        exact ⟨d, by simp [hd], hkey'.trans hkey⟩
    · rcases h with h | rfl
      · obtain ⟨b, hb, hkey⟩ := ih h
        exact ⟨b, by simp [hb], hkey⟩
      · exact ⟨a, by simp [hnew], rfl⟩

/-- The visited elements have pairwise distinct keys. -/
theorem nodup_map_firstOccurrences (l : List α) : ((firstOccurrences key l).map key).Nodup := by
  induction l using List.reverseRecOn with
  | nil => simp
  | append_singleton l c ih =>
    rw [firstOccurrences_concat]
    split_ifs with hnew
    · simpa using ih
    · rw [List.map_append, List.nodup_append]
      refine ⟨ih, by simp, ?_⟩
      intro x hx y hy hxy
      obtain ⟨b, hb, rfl⟩ := List.mem_map.mp hx
      simp only [List.map_cons, List.map_nil, List.mem_singleton] at hy
      exact hnew ⟨b, mem_of_mem_firstOccurrences key hb, hxy.trans hy⟩

end Fallible
