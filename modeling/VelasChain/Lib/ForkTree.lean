import Mathlib

/-!
# Fork trees

A fork tree over slots is a parent map in which every parent is an older slot. Ancestry is the
transitive closure of the parent relation, taken from `Relation`: a slot's ancestors form its
unique chain back to the root of its tree, so any two ancestors of one slot are comparable.
The ancestors of a slot can be listed by following parents, and the list has exactly the
ancestors as members.
-/

namespace VelasChain

/-- A parent map on slots in which every parent is older than its child. -/
structure ForkTree where
  parent : ℕ → Option ℕ
  parent_lt : ∀ {c p : ℕ}, parent c = some p → p < c

namespace ForkTree

variable (t : ForkTree)

/-- `p` is the parent of `c`. -/
def IsParent (p c : ℕ) : Prop := t.parent c = some p

/-- `a` is a strict ancestor of `b`. -/
def Ancestor : ℕ → ℕ → Prop := Relation.TransGen t.IsParent

/-- `a` is `b` or an ancestor of `b`. -/
def AncestorOrSelf : ℕ → ℕ → Prop := Relation.ReflTransGen t.IsParent

variable {t}

/-! ### Order along ancestry -/

lemma Ancestor.lt {a b : ℕ} (h : t.Ancestor a b) : a < b := by
  induction h with
  | single hp => exact t.parent_lt hp
  | tail _ hp ih => exact Nat.lt_trans ih (t.parent_lt hp)

lemma AncestorOrSelf.le {a b : ℕ} (h : t.AncestorOrSelf a b) : a ≤ b := by
  induction h with
  | refl => exact Nat.le_refl a
  | tail _ hp ih => exact Nat.le_trans ih (Nat.le_of_lt (t.parent_lt hp))

lemma Ancestor.ne {a b : ℕ} (h : t.Ancestor a b) : a ≠ b := Nat.ne_of_lt h.lt

lemma Ancestor.trans {a b c : ℕ} (hab : t.Ancestor a b) (hbc : t.Ancestor b c) :
    t.Ancestor a c :=
  Relation.TransGen.trans hab hbc

lemma Ancestor.ancestorOrSelf {a b : ℕ} (h : t.Ancestor a b) : t.AncestorOrSelf a b :=
  h.to_reflTransGen

lemma AncestorOrSelf.refl (a : ℕ) : t.AncestorOrSelf a a := Relation.ReflTransGen.refl

lemma Ancestor.trans_ancestorOrSelf {a b c : ℕ} (hab : t.Ancestor a b)
    (hbc : t.AncestorOrSelf b c) : t.Ancestor a c :=
  Relation.TransGen.trans_left hab hbc

lemma AncestorOrSelf.trans {a b c : ℕ} (hab : t.AncestorOrSelf a b)
    (hbc : t.AncestorOrSelf b c) : t.AncestorOrSelf a c :=
  Relation.ReflTransGen.trans hab hbc

/-- An ancestor-or-self that is not the slot itself is a strict ancestor. -/
lemma AncestorOrSelf.ancestor_of_ne {a b : ℕ} (h : t.AncestorOrSelf a b) (hne : a ≠ b) :
    t.Ancestor a b := by
  rcases Relation.reflTransGen_iff_eq_or_transGen.mp h with heq | hlt
  · exact absurd heq.symm hne
  · exact hlt

lemma ancestorOrSelf_iff_eq_or_ancestor {a b : ℕ} :
    t.AncestorOrSelf a b ↔ a = b ∨ t.Ancestor a b := by
  rw [AncestorOrSelf, Relation.reflTransGen_iff_eq_or_transGen, eq_comm]
  rfl

/-! ### Ancestors of one slot are comparable -/

lemma ancestor_iff_of_parent {a s p : ℕ} (h : t.parent s = some p) :
    t.Ancestor a s ↔ t.AncestorOrSelf a p := by
  constructor
  · intro has
    obtain ⟨q, haq, hqs⟩ := Relation.TransGen.tail'_iff.mp has
    have hq : t.parent s = some q := hqs
    rw [h, Option.some.injEq] at hq
    exact hq ▸ haq
  · intro hap
    exact Relation.TransGen.tail'_iff.mpr ⟨p, hap, h⟩

lemma not_ancestor_of_parent_eq_none {a s : ℕ} (h : t.parent s = none) : ¬t.Ancestor a s := by
  intro has
  obtain ⟨q, _, hqs⟩ := Relation.TransGen.tail'_iff.mp has
  have hq : t.parent s = some q := hqs
  rw [h] at hq
  cases hq

/-- Two ancestors of one slot lie on its chain back to the root, so one is an ancestor of the
other. -/
theorem AncestorOrSelf.total_of_common {a b c : ℕ} (ha : t.AncestorOrSelf a c)
    (hb : t.AncestorOrSelf b c) : t.AncestorOrSelf a b ∨ t.AncestorOrSelf b a := by
  induction ha generalizing b with
  | refl => exact Or.inr hb
  | @tail p c hap hpc ih =>
    rcases Relation.ReflTransGen.cases_tail hb with rfl | ⟨q, hbq, hqc⟩
    · exact Or.inl (hap.tail hpc)
    · -- `c` has one parent, so `b` lies on the chain of `a`
      have hq : t.parent c = some q := hqc
      have hp : t.parent c = some p := hpc
      rw [hp, Option.some.injEq] at hq
      exact ih (hq ▸ hbq)

/-- Of two ancestors of one slot, the older is an ancestor of the newer. -/
theorem Ancestor.of_lt_of_common {a b c : ℕ} (ha : t.AncestorOrSelf a c)
    (hb : t.AncestorOrSelf b c) (hlt : a < b) : t.Ancestor a b := by
  rcases ha.total_of_common hb with hab | hba
  · exact hab.ancestor_of_ne (Nat.ne_of_lt hlt)
  · exact absurd hba.le (Nat.not_le_of_lt hlt)

/-- Slots in increasing order that all lie at or below one slot form a chain of ancestors. -/
theorem pairwise_ancestor_of_lt {l : List ℕ} {c : ℕ} (hc : ∀ x ∈ l, t.AncestorOrSelf x c)
    (hlt : l.Pairwise (· < ·)) : l.Pairwise t.Ancestor :=
  hlt.imp_of_mem fun hx hy hxy => Ancestor.of_lt_of_common (hc _ hx) (hc _ hy) hxy

/-! ### Listing the ancestors -/

variable (t)

/-- The ancestors of `s` met by following at most `fuel` parent links, newest first. -/
def ancestorsAux : ℕ → ℕ → List ℕ
  | 0, _ => []
  | fuel + 1, s =>
    match t.parent s with
    | none => []
    | some p => p :: ancestorsAux fuel p

/-- The ancestors of `s`: every parent link goes to an older slot, so `s` links suffice. -/
def ancestors (s : ℕ) : List ℕ := t.ancestorsAux s s

variable {t}

lemma mem_ancestorsAux {fuel s a : ℕ} (hfuel : s ≤ fuel) :
    a ∈ t.ancestorsAux fuel s ↔ t.Ancestor a s := by
  induction fuel generalizing s with
  | zero =>
    have hs : s = 0 := Nat.le_zero.mp hfuel
    subst hs
    simp only [ancestorsAux, List.not_mem_nil, false_iff]
    exact fun h => Nat.not_lt_zero a h.lt
  | succ fuel ih =>
    simp only [ancestorsAux]
    split
    · rename_i hnone
      simp only [List.not_mem_nil, false_iff]
      exact not_ancestor_of_parent_eq_none hnone
    · rename_i p hp
      have hpf : p ≤ fuel := by have := t.parent_lt hp; omega
      rw [List.mem_cons, ih hpf, ancestor_iff_of_parent hp, ancestorOrSelf_iff_eq_or_ancestor]

@[simp] lemma mem_ancestors {a s : ℕ} : a ∈ t.ancestors s ↔ t.Ancestor a s :=
  mem_ancestorsAux (Nat.le_refl s)

instance (a b : ℕ) : Decidable (t.Ancestor a b) :=
  decidable_of_iff _ (mem_ancestors (t := t))

instance (a b : ℕ) : Decidable (t.AncestorOrSelf a b) :=
  decidable_of_iff _ ancestorOrSelf_iff_eq_or_ancestor.symm

end ForkTree

end VelasChain
