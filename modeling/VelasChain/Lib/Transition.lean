import Mathlib

/-!
# Transition systems

The states a transition relation reaches from its initial states, and the rule that carries
an invariant through every reachable state. The invariant is stated for one step and
extended to whole runs here once; the models of the development instantiate it with their
own step relations.
-/

namespace VelasChain

variable {σ : Type*}

/-- The states reachable from a state satisfying `init` by steps of `step`. -/
inductive Reachable (init : σ → Prop) (step : σ → σ → Prop) : σ → Prop
  | init {s : σ} : init s → Reachable init step s
  | step {s s' : σ} : Reachable init step s → step s s' → Reachable init step s'

namespace Reachable

variable {init : σ → Prop} {step : σ → σ → Prop}

/-- An invariant that holds initially and that every step preserves holds in every
reachable state. -/
theorem inv {Inv : σ → Prop} (h0 : ∀ s, init s → Inv s)
    (hstep : ∀ s s', Inv s → step s s' → Inv s') {s : σ} (h : Reachable init step s) :
    Inv s := by
  induction h with
  | init hs => exact h0 _ hs
  | step _ hst ih => exact hstep _ _ ih hst

/-- A reachable state is reached from an initial one through the reflexive transitive closure
of the step relation. -/
theorem exists_init_reflTransGen {s : σ} (h : Reachable init step s) :
    ∃ s₀, init s₀ ∧ Relation.ReflTransGen step s₀ s := by
  induction h with
  | @init s hs => exact ⟨s, hs, Relation.ReflTransGen.refl⟩
  | step _ hst ih =>
    obtain ⟨s₀, h₀, hrun⟩ := ih
    exact ⟨s₀, h₀, hrun.tail hst⟩

/-- A state reached by a step from a reachable state is reachable. -/
theorem of_reflTransGen {s s' : σ} (h : Reachable init step s)
    (hrun : Relation.ReflTransGen step s s') : Reachable init step s' := by
  induction hrun with
  | refl => exact h
  | tail _ hst ih => exact ih.step hst

/-- A property that holds at a reachable state and that every step from a reachable state
preserves holds all along every run from it. -/
theorem inv_of_reflTransGen {motive : σ → Prop} {s s' : σ} (h : Reachable init step s)
    (hs : motive s) (hstep : ∀ t t', Reachable init step t → motive t → step t t' → motive t')
    (hrun : Relation.ReflTransGen step s s') : motive s' := by
  induction hrun with
  | refl => exact hs
  | tail hrun' hst ih => exact hstep _ _ (h.of_reflTransGen hrun') ih hst

end Reachable

end VelasChain
