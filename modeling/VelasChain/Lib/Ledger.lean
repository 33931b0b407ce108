import Mathlib

/-!
# Balances over a finite set of holders

A ledger is a balance per holder, the holders ranging over a finite type. Changing one holder's
balance moves the total by the change: `total_update` is the one fact the accounting of a bridge
needs, stated over the integers so that debits and credits subtract freely.
-/

namespace VelasChain.Ledger

variable {ι : Type*} [Fintype ι] [DecidableEq ι]

/-- The total of a ledger, as an integer. -/
def total (f : ι → ℕ) : ℤ := ∑ i, (f i : ℤ)

@[simp] lemma total_zero : total (fun _ : ι => 0) = 0 := by
  simp [total]

/-- Setting one balance moves the total by the difference. -/
theorem total_update (f : ι → ℕ) (a : ι) (b : ℕ) :
    total (Function.update f a b) = total f - f a + b := by
  have hupd : ∀ i, ((Function.update f a b i : ℕ) : ℤ) = Function.update (fun i => (f i : ℤ)) a b i := by
    intro i
    by_cases h : i = a
    · subst h; simp
    · simp [h]
  simp only [total, hupd]
  rw [Finset.sum_update_of_mem (Finset.mem_univ a),
    Finset.sum_eq_add_sum_sdiff_singleton_of_mem (Finset.mem_univ a) (fun i => (f i : ℤ))]
  omega

lemma total_credit (f : ι → ℕ) (a : ι) (x : ℕ) :
    total (Function.update f a (f a + x)) = total f + x := by
  rw [total_update]
  push_cast
  omega

lemma total_debit (f : ι → ℕ) (a : ι) {x : ℕ} (hx : x ≤ f a) :
    total (Function.update f a (f a - x)) = total f - x := by
  rw [total_update]
  omega

lemma total_reset (f : ι → ℕ) (a : ι) : total (Function.update f a 0) = total f - f a := by
  rw [total_update]
  push_cast
  omega

end VelasChain.Ledger
