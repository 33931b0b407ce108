import Mathlib

/-!
# Keeping the entries of an association list

`AList.retain` keeps the entries of an association list that satisfy a predicate, as
`HashMap::retain` does, and a lookup after it is the lookup before it filtered by the
predicate.
-/

namespace AList

variable {α : Type*} {β : α → Type*}

/-- The entries that satisfy `p`, in their order. -/
def retain (p : (a : α) → β a → Bool) (s : AList β) : AList β :=
  ⟨s.entries.filter fun e => p e.1 e.2, s.nodupKeys.sublist List.filter_sublist⟩

variable [DecidableEq α]

lemma dlookup_filter {p : (a : α) → β a → Bool} {a : α} :
    ∀ {l : List (Sigma β)}, l.NodupKeys →
      (l.filter fun e => p e.1 e.2).dlookup a = (l.dlookup a).filter (p a)
  | [], _ => rfl
  | ⟨a', b'⟩ :: l, hnd => by
    rw [List.nodupKeys_cons] at hnd
    by_cases ha : a = a'
    · subst ha
      -- the key occurs once, so an entry dropped by the filter is not found further down
      have hl : l.dlookup a = none := List.dlookup_eq_none.mpr hnd.1
      by_cases hp : p a b' = true
      · simp [hp, List.dlookup_cons_eq, Option.filter_some]
      · simp only [List.filter_cons, hp, Bool.false_eq_true, if_false, List.dlookup_cons_eq,
          Option.filter_some]
        rw [dlookup_filter hnd.2, hl]
        simp
    · simp only [List.filter_cons]
      split
      · rw [List.dlookup_cons_ne _ _ ha, List.dlookup_cons_ne _ _ ha, dlookup_filter hnd.2]
      · rw [List.dlookup_cons_ne _ _ ha, dlookup_filter hnd.2]

@[simp] lemma lookup_retain (p : (a : α) → β a → Bool) (s : AList β) (a : α) :
    (s.retain p).lookup a = (s.lookup a).filter (p a) :=
  dlookup_filter s.nodupKeys

end AList
