import Mathlib

/-!
# Reasoning about fallible code in `Except`

A handler that returns `Result<_, E>` and writes through `?` is a chain of binds in `Except`;
that it returned `Ok` is peeled apart one bind at a time with `bind_eq_ok_iff`, and a guard
`if c { return Err(e) }` is `failIf c e`, which simp turns into `¬c`. A loop of such
handlers over a list is a `foldlM`, and two rules carry what each step keeps (an invariant) or
moves (a measure that drops by each element's weight) to the whole loop.
-/

namespace Except

universe u

variable {ε : Type*} {α β : Type u} {γ : Type*}

theorem bind_eq_ok_iff {x : Except ε α} {f : α → Except ε β} {b : β} :
    x >>= f = .ok b ↔ ∃ a, x = .ok a ∧ f a = .ok b := by
  cases x <;> simp [bind, Except.bind]

theorem map_eq_ok_iff {x : Except ε α} {f : α → β} {b : β} :
    x.map f = .ok b ↔ ∃ a, x = .ok a ∧ f a = b := by
  cases x <;> simp [Except.map]

/-- Rust's `Option::ok_or`. -/
def okOr (e : ε) : Option γ → Except ε γ
  | some a => .ok a
  | none => .error e

@[simp] theorem okOr_eq_ok {e : ε} {o : Option γ} {a : γ} : okOr e o = .ok a ↔ o = some a := by
  cases o <;> simp [okOr]

/-- A result that is `Ok` is `Ok` of its value. -/
theorem eq_ok_of_isOk {x : Except ε γ} (h : x.isOk = true) (d : γ) :
    x = .ok (x.toOption.getD d) := by
  cases x with
  | error e => cases h
  | ok a => rfl

/-- Rust's `if c { return Err(e) }`. -/
def failIf (c : Prop) [Decidable c] (e : ε) : Except ε Unit :=
  if c then .error e else .ok ()

@[simp] theorem failIf_bind_eq_ok {δ : Type} {c : Prop} [Decidable c] {e : ε}
    {f : Unit → Except ε δ} {b : δ} : failIf c e >>= f = .ok b ↔ ¬c ∧ f () = .ok b := by
  by_cases hc : c <;> simp [failIf, hc, bind, Except.bind]

@[simp] theorem failIf_eq_ok {c : Prop} [Decidable c] {e : ε} : failIf c e = .ok () ↔ ¬c := by
  by_cases hc : c <;> simp [failIf, hc]

/-- A loop of checks passed: every check passed. -/
theorem forM_eq_ok {f : γ → Except ε PUnit} :
    ∀ {l : List γ}, l.forM f = .ok () → ∀ a ∈ l, f a = .ok ()
  | [], _ => by simp
  | a :: l, h => by
    simp only [List.forM] at h
    obtain ⟨⟨⟩, ha, hrest⟩ := bind_eq_ok_iff.mp h
    intro b hb
    rcases List.mem_cons.mp hb with rfl | hb
    · exact ha
    · exact forM_eq_ok hrest b hb

/-- What a successful `mapM` returns is made of what `f` returned on the list. -/
theorem mapM_eq_ok_mem {f : γ → Except ε β} :
    ∀ {l : List γ} {bs : List β}, l.mapM f = .ok bs → ∀ b ∈ bs, ∃ a ∈ l, f a = .ok b
  | [], bs, h => by
    simp only [List.mapM_nil, pure, Except.pure, Except.ok.injEq] at h
    simp [← h]
  | a :: l, bs, h => by
    rw [List.mapM_cons] at h
    obtain ⟨b', hb', hrest⟩ := bind_eq_ok_iff.mp h
    obtain ⟨bs', hbs', hrest⟩ := bind_eq_ok_iff.mp hrest
    simp only [pure, Except.pure, Except.ok.injEq] at hrest
    intro b hb
    rw [← hrest] at hb
    rcases List.mem_cons.mp hb with rfl | hb
    · exact ⟨a, List.mem_cons_self, hb'⟩
    · obtain ⟨c, hc, hfc⟩ := mapM_eq_ok_mem hbs' b hb
      exact ⟨c, List.mem_cons_of_mem a hc, hfc⟩

/-- A `mapM` whose every step succeeds succeeds, and a weight of the results that each step
bounds by a weight of its element is bounded in sum. -/
theorem mapM_sum_le {f : γ → Except ε β} (g : β → ℕ) (w : γ → ℕ) :
    ∀ (l : List γ), (∀ a ∈ l, ∃ b, f a = .ok b ∧ g b ≤ w a) →
      ∃ bs, l.mapM f = .ok bs ∧ (bs.map g).sum ≤ (l.map w).sum
  | [], _ => ⟨[], rfl, Nat.le_refl _⟩
  | a :: l, hf => by
    obtain ⟨b, hb, hgb⟩ := hf a List.mem_cons_self
    obtain ⟨bs, hbs, hsum⟩ := mapM_sum_le g w l fun a ha => hf a (List.mem_cons_of_mem _ ha)
    refine ⟨b :: bs, ?_, ?_⟩
    · rw [List.mapM_cons, hb, hbs]
      rfl
    · simp only [List.map_cons, List.sum_cons]
      omega

theorem foldlM_invariant {f : β → γ → Except ε β} (P : β → Prop)
    (hf : ∀ b a b', P b → f b a = .ok b' → P b') :
    ∀ {l : List γ} {b b' : β}, P b → l.foldlM f b = .ok b' → P b'
  | [], b, b', hb, h => by
    simp only [List.foldlM_nil, pure, Except.pure, Except.ok.injEq] at h
    exact h ▸ hb
  | a :: l, b, b', hb, h => by
    rw [List.foldlM_cons] at h
    obtain ⟨b₁, h₁, hrest⟩ := bind_eq_ok_iff.mp h
    exact foldlM_invariant P hf (hf b a b₁ hb h₁) hrest

/-- A measure that each step lowers by the weight of its element is lowered by the total weight
over the whole loop. -/
theorem foldlM_measure {M : Type*} [AddCommMonoid M] {f : β → γ → Except ε β}
    (g : β → M) (w : γ → M) (hf : ∀ b a b', f b a = .ok b' → g b' + w a = g b) :
    ∀ {l : List γ} {b b' : β}, l.foldlM f b = .ok b' → g b' + (l.map w).sum = g b
  | [], b, b', h => by
    simp only [List.foldlM_nil, pure, Except.pure, Except.ok.injEq] at h
    simp [h]
  | a :: l, b, b', h => by
    rw [List.foldlM_cons] at h
    obtain ⟨b₁, h₁, hrest⟩ := bind_eq_ok_iff.mp h
    have hstep := hf b a b₁ h₁
    have hloop := foldlM_measure g w hf hrest
    calc g b' + ((a :: l).map w).sum = (g b' + (l.map w).sum) + w a := by
          rw [List.map_cons, List.sum_cons, add_comm (w a), ← add_assoc]
      _ = g b := by rw [hloop, hstep]

end Except
