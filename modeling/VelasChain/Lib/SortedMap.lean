import Mathlib

/-!
# Maps kept in key order

A map whose keys are ordered, such as a `BTreeMap`, is modelled by its entries in strictly
increasing key order, which is also the order in which it is iterated. `upsert f k v` is
`map.entry(k).and_modify(f).or_insert(v)`: it keeps the order (`sorted_upsert`), adds `k` to the
keys (`mem_keys_upsert`), and where `f` adds `v` to the value at `k`, it adds `v` to the sum of
the values at the keys up to any bound (`prefixSum_upsert`) and to the sum of all values.
-/

namespace SortedMap

variable {κ ν : Type*} [LinearOrder κ]

/-- The keys of the entries strictly increase. -/
def Sorted (m : List (κ × ν)) : Prop := (m.map (·.1)).Pairwise (· < ·)

/-- `map.entry(k).and_modify(f).or_insert(v)`. -/
def upsert (f : ν → ν) (k : κ) (v : ν) : List (κ × ν) → List (κ × ν)
  | [] => [(k, v)]
  | (k', v') :: rest =>
    if k < k' then (k, v) :: (k', v') :: rest
    else if k = k' then (k', f v') :: rest
    else (k', v') :: upsert f k v rest

variable {f : ν → ν} {k : κ} {v : ν}

lemma sorted_cons {k' : κ} {v' : ν} {rest : List (κ × ν)} :
    Sorted ((k', v') :: rest) ↔ (∀ p ∈ rest, k' < p.1) ∧ Sorted rest := by
  simp [Sorted, List.pairwise_cons]

lemma mem_keys_upsert (m : List (κ × ν)) (k' : κ) :
    k' ∈ (upsert f k v m).map (·.1) ↔ k' = k ∨ k' ∈ m.map (·.1) := by
  induction m with
  | nil => simp [upsert]
  | cons p rest ih =>
    obtain ⟨k₀, v₀⟩ := p
    simp only [upsert]
    split_ifs with hlt heq
    · simp
    · subst heq
      simp only [List.map_cons, List.mem_cons]
      tauto
    · simp only [List.map_cons, List.mem_cons, ih]
      tauto

lemma sorted_upsert {m : List (κ × ν)} (hm : Sorted m) : Sorted (upsert f k v m) := by
  induction m with
  | nil => simp [upsert, Sorted]
  | cons p rest ih =>
    obtain ⟨k₀, v₀⟩ := p
    obtain ⟨hhead, hrest⟩ := sorted_cons.mp hm
    simp only [upsert]
    split_ifs with hlt heq
    · refine sorted_cons.mpr ⟨fun p hp => ?_, hm⟩
      rcases List.mem_cons.mp hp with rfl | hp
      · exact hlt
      · exact hlt.trans (hhead p hp)
    · exact sorted_cons.mpr ⟨hhead, hrest⟩
    · refine sorted_cons.mpr ⟨fun p hp => ?_, ih hrest⟩
      have hkey := (mem_keys_upsert rest p.1).mp (List.mem_map_of_mem hp)
      rcases hkey with hk | hk
      · exact hk ▸ lt_of_le_of_ne (not_lt.mp hlt) (Ne.symm heq)
      · obtain ⟨q, hq, hqk⟩ := List.mem_map.mp hk
        exact hqk ▸ hhead q hq

/-- With every key of the map above `k`, upserting at `k` puts the new entry first. -/
lemma upsert_of_forall_lt {m : List (κ × ν)} (h : ∀ p ∈ m, k < p.1) :
    upsert f k v m = (k, v) :: m := by
  cases m with
  | nil => rfl
  | cons p rest => rw [upsert, if_pos (h p List.mem_cons_self)]

section Floor

/-- `map.get(&k)`. -/
def get (m : List (κ × ν)) (k : κ) : Option ν := (m.find? fun p => p.1 = k).map (·.2)

/-- `map.range(..k).next_back()`: the entry of the greatest key below `k`. -/
def lastBelow (m : List (κ × ν)) (k : κ) : Option (κ × ν) := (m.filter fun p => p.1 < k).getLast?

/-- The map without its keys below `k`. -/
def dropBelow (k : κ) (m : List (κ × ν)) : List (κ × ν) := m.filter fun p => k ≤ p.1

/-- The value at the greatest key at most `k`: what a map whose values hold from their key on
holds at `k`. -/
def floor : List (κ × ν) → κ → Option ν
  | [], _ => none
  | (k', v') :: rest, k => if k' ≤ k then (floor rest k).or (some v') else none

lemma get_eq_none_iff {m : List (κ × ν)} : get m k = none ↔ k ∉ m.map (·.1) := by
  simp only [get, Option.map_eq_none_iff, List.find?_eq_none, decide_eq_true_eq, List.mem_map,
    not_exists, not_and]

@[simp] lemma get_nil : get ([] : List (κ × ν)) k = none := rfl

lemma get_cons {k' : κ} {v' : ν} {rest : List (κ × ν)} :
    get ((k', v') :: rest) k = if k' = k then some v' else get rest k := by
  by_cases h : k' = k <;> simp [get, h]

/-- The upsert enters `v` at `k` where the map has no entry there and applies `f` where it has one;
every other key keeps its value. -/
lemma get_upsert {m : List (κ × ν)} (hm : Sorted m) (k' : κ) :
    get (upsert f k v m) k' = if k' = k then some ((get m k).elim v f) else get m k' := by
  induction m with
  | nil =>
    by_cases h : k' = k
    · simp [upsert, get_cons, h]
    · simp [upsert, get_cons, h, Ne.symm h]
  | cons p rest ih =>
    obtain ⟨k₀, v₀⟩ := p
    obtain ⟨hhead, hrest⟩ := sorted_cons.mp hm
    by_cases hlt : k < k₀
    · -- `k` is below every key, so the map has no entry for it
      have hnone : get ((k₀, v₀) :: rest) k = none := by
        refine get_eq_none_iff.mpr fun hmem => ?_
        obtain ⟨q, hq, hqk⟩ := List.mem_map.mp hmem
        rcases List.mem_cons.mp hq with rfl | hq
        · exact lt_irrefl _ (hqk ▸ hlt)
        · exact lt_irrefl _ (hqk ▸ hlt.trans (hhead q hq))
      rw [upsert, if_pos hlt, get_cons, hnone]
      by_cases h : k' = k
      · simp [h]
      · simp [h, Ne.symm h]
    · by_cases heq : k = k₀
      · subst heq
        rw [upsert, if_neg hlt, if_pos rfl]
        by_cases h : k' = k
        · simp [get_cons, h]
        · simp [get_cons, h, Ne.symm h]
      · rw [upsert, if_neg hlt, if_neg heq]
        simp only [get_cons, ih hrest, if_neg (Ne.symm heq)]
        by_cases h : k' = k
        · subst h
          simp [Ne.symm heq]
        · simp [h]

/-- `map.remove(&k)`. -/
def remove (k : κ) (m : List (κ × ν)) : List (κ × ν) := m.filter fun p => p.1 ≠ k

lemma sorted_remove {m : List (κ × ν)} (hm : Sorted m) : Sorted (remove k m) :=
  hm.sublist (List.filter_sublist.map _)

lemma get_remove {m : List (κ × ν)} (k' : κ) :
    get (remove k m) k' = if k' = k then none else get m k' := by
  induction m with
  | nil => simp [remove]
  | cons p rest ih =>
    obtain ⟨k₀, v₀⟩ := p
    by_cases h₀ : k₀ = k
    · subst h₀
      have hrest : remove k₀ ((k₀, v₀) :: rest) = remove k₀ rest := by simp [remove]
      rw [hrest, ih, get_cons]
      by_cases h : k' = k₀
      · simp [h]
      · simp [h, Ne.symm h]
    · have hcons : remove k ((k₀, v₀) :: rest) = (k₀, v₀) :: remove k rest := by
        simp [remove, h₀]
      rw [hcons, get_cons, ih, get_cons]
      by_cases h : k' = k
      · subst h
        simp [h₀]
      · simp [h]

lemma nodup_keys {m : List (κ × ν)} (hm : Sorted m) : (m.map (·.1)).Nodup :=
  hm.imp ne_of_lt

/-- In a sorted map, an entry is what `get` returns at its key. -/
lemma mem_iff_get {m : List (κ × ν)} (hm : Sorted m) : (k, v) ∈ m ↔ get m k = some v := by
  induction m with
  | nil => simp
  | cons p rest ih =>
    obtain ⟨k₀, v₀⟩ := p
    obtain ⟨hhead, hrest⟩ := sorted_cons.mp hm
    rw [List.mem_cons, get_cons]
    by_cases h : k₀ = k
    · subst h
      -- the rest has no entry at the head's key
      have hnot : (k₀, v) ∉ rest := fun hmem => lt_irrefl _ (hhead _ hmem)
      simp [hnot, eq_comm]
    · rw [if_neg h, ← ih hrest]
      simp [Ne.symm h]

lemma floor_eq_none_of_forall_lt {m : List (κ × ν)} (h : ∀ p ∈ m, k < p.1) : floor m k = none := by
  cases m with
  | nil => rfl
  | cons p rest =>
    obtain ⟨k', v'⟩ := p
    rw [floor, if_neg (not_le.mpr (h _ List.mem_cons_self))]

lemma floor_isSome_iff {m : List (κ × ν)} (hm : Sorted m) :
    (floor m k).isSome ↔ ∃ p ∈ m, p.1 ≤ k := by
  induction m with
  | nil => simp [floor]
  | cons p rest ih =>
    obtain ⟨k', v'⟩ := p
    obtain ⟨hhead, hrest⟩ := sorted_cons.mp hm
    rw [floor]
    split_ifs with hk
    · simp only [Option.isSome_or, Option.isSome_some, Bool.or_true, true_iff]
      exact ⟨_, List.mem_cons_self, hk⟩
    · simp only [Option.isSome_none, Bool.false_eq_true, false_iff, not_exists, not_and,
        not_le]
      intro q hq
      rcases List.mem_cons.mp hq with rfl | hq
      · exact not_le.mp hk
      · exact (not_le.mp hk).trans (hhead q hq)

/-- The value at a key is what the map holds there. -/
lemma floor_of_get {m : List (κ × ν)} (hm : Sorted m) (h : get m k = some v) :
    floor m k = some v := by
  induction m with
  | nil => simp [get] at h
  | cons p rest ih =>
    obtain ⟨k', v'⟩ := p
    obtain ⟨hhead, hrest⟩ := sorted_cons.mp hm
    simp only [get, List.find?_cons] at h
    by_cases hk : k' = k
    · subst hk
      simp only [decide_true, Option.map_some, Option.some.injEq] at h
      rw [floor, if_pos le_rfl, floor_eq_none_of_forall_lt hhead, h]
      rfl
    · simp only [hk, decide_false] at h
      have hmem : k ∈ rest.map (·.1) := by
        by_contra hnot
        exact absurd (get_eq_none_iff.mpr hnot) (by simp [get, h])
      obtain ⟨q, hq, rfl⟩ := List.mem_map.mp hmem
      rw [floor, if_pos (hhead q hq).le, ih hrest h]
      rfl

/-- Where `k` is not a key, the map holds at `k` the value of the greatest key below it. -/
lemma floor_of_get_eq_none {m : List (κ × ν)} (hm : Sorted m) (h : get m k = none) :
    floor m k = (lastBelow m k).map (·.2) := by
  have hnot := get_eq_none_iff.mp h
  induction m with
  | nil => rfl
  | cons p rest ih =>
    obtain ⟨k', v'⟩ := p
    obtain ⟨hhead, hrest⟩ := sorted_cons.mp hm
    have hne : k' ≠ k := fun heq => hnot (by simp [heq])
    have ih' := ih hrest (get_eq_none_iff.mpr fun hk => hnot (List.mem_cons_of_mem _ hk))
      fun hk => hnot (List.mem_cons_of_mem _ hk)
    unfold lastBelow at ih' ⊢
    rw [floor]
    by_cases hlt : k' < k
    · rw [if_pos hlt.le, List.filter_cons_of_pos (by simpa using hlt), List.getLast?_cons, ih']
      cases (rest.filter fun p => p.1 < k).getLast? <;> rfl
    · have hgt : k < k' := lt_of_le_of_ne (not_lt.mp hlt) (Ne.symm hne)
      rw [if_neg (not_le.mpr hgt), List.filter_eq_nil_iff.mpr]
      · rfl
      · intro q hq
        rcases List.mem_cons.mp hq with rfl | hq
        · simpa using hlt
        · simpa using (hgt.trans (hhead q hq)).le

/-- Setting `k` past every key: from `k` on the map holds the new value, below it what it held. -/
lemma floor_upsert_of_le {m : List (κ × ν)} (hm : Sorted m) (hk : ∀ p ∈ m, p.1 ≤ k) (e : κ) :
    floor (upsert (fun _ => v) k v m) e = if k ≤ e then some v else floor m e := by
  induction m with
  | nil => by_cases he : k ≤ e <;> simp [upsert, floor, he]
  | cons p rest ih =>
    obtain ⟨k', v'⟩ := p
    obtain ⟨hhead, hrest⟩ := sorted_cons.mp hm
    rcases lt_or_eq_of_le (hk _ List.mem_cons_self) with hlt | rfl
    · rw [upsert, if_neg (not_lt.mpr hlt.le), if_neg (ne_of_gt hlt), floor, floor,
        ih hrest fun q hq => hk q (List.mem_cons_of_mem _ hq)]
      by_cases he : k ≤ e
      · rw [if_pos (hlt.le.trans he), if_pos he, if_pos he]
        rfl
      · rw [if_neg he, if_neg he]
    · -- the key is the last one, so the rest is empty
      have hnil : rest = [] := List.eq_nil_iff_forall_not_mem.mpr fun q hq =>
        absurd (hk q (List.mem_cons_of_mem _ hq)) (not_le.mpr (hhead q hq))
      subst hnil
      by_cases he : k' ≤ e <;> simp [upsert, floor, he]

/-- Caching at `k` the value the map holds there changes nothing from `k` on. -/
lemma floor_upsert_floor {m : List (κ × ν)} (hm : Sorted m) (hv : floor m k = some v) {e : κ}
    (hke : k ≤ e) : floor (upsert (fun _ => v) k v m) e = floor m e := by
  induction m with
  | nil => simp [floor] at hv
  | cons p rest ih =>
    obtain ⟨k', v'⟩ := p
    obtain ⟨hhead, hrest⟩ := sorted_cons.mp hm
    rw [floor] at hv
    split_ifs at hv with hk'
    rcases lt_or_eq_of_le hk' with hlt | rfl
    · have hk'e : k' ≤ e := hlt.le.trans hke
      rw [upsert, if_neg (not_lt.mpr hlt.le), if_neg (ne_of_gt hlt), floor, floor, if_pos hk'e,
        if_pos hk'e]
      cases hrest_k : floor rest k with
      | some w =>
        rw [hrest_k] at hv
        rw [ih hrest (by rw [hrest_k, ← hv]; rfl)]
      | none =>
        -- no key of the rest is at most `k`: the cached entry goes first in the rest
        rw [hrest_k] at hv
        have hv' : v = v' := (Option.some.inj hv).symm
        have hall : ∀ q ∈ rest, k < q.1 := fun q hq => by
          by_contra hle
          have := (floor_isSome_iff hrest).mpr ⟨q, hq, not_lt.mp hle⟩
          rw [hrest_k] at this
          exact absurd this (by simp)
        rw [upsert_of_forall_lt hall, floor, if_pos hke, hv']
        cases floor rest e <;> rfl
    · rw [floor_eq_none_of_forall_lt hhead] at hv
      have hv' : v = v' := (Option.some.inj hv).symm
      rw [upsert, if_neg (lt_irrefl _), if_pos rfl, hv']

/-- Setting a key to the value it has changes nothing. -/
lemma upsert_of_get {m : List (κ × ν)} (hm : Sorted m) (h : get m k = some v) :
    upsert (fun _ => v) k v m = m := by
  induction m with
  | nil => simp [get] at h
  | cons p rest ih =>
    obtain ⟨k', v'⟩ := p
    obtain ⟨hhead, hrest⟩ := sorted_cons.mp hm
    simp only [get, List.find?_cons] at h
    by_cases hk : k' = k
    · subst hk
      simp only [decide_true, Option.map_some, Option.some.injEq] at h
      rw [upsert, if_neg (lt_irrefl _), if_pos rfl, h]
    · simp only [hk, decide_false] at h
      have hmem : k ∈ rest.map (·.1) := by
        by_contra hnot
        exact absurd (get_eq_none_iff.mpr hnot) (by simp [get, h])
      obtain ⟨q, hq, rfl⟩ := List.mem_map.mp hmem
      have hlt := hhead q hq
      rw [upsert, if_neg (not_lt.mpr hlt.le), if_neg (ne_of_gt hlt), ih hrest h]

lemma mem_keys_dropBelow {m : List (κ × ν)} {k' : κ} :
    k' ∈ (dropBelow k m).map (·.1) ↔ k' ∈ m.map (·.1) ∧ k ≤ k' := by
  simp only [dropBelow, List.mem_map, List.mem_filter, decide_eq_true_eq]
  constructor
  · rintro ⟨p, ⟨hp, hk⟩, rfl⟩
    exact ⟨⟨p, hp, rfl⟩, hk⟩
  · rintro ⟨⟨p, hp, rfl⟩, hk⟩
    exact ⟨p, ⟨hp, hk⟩, rfl⟩

lemma sorted_dropBelow {m : List (κ × ν)} (hm : Sorted m) : Sorted (dropBelow k m) :=
  hm.sublist (List.filter_sublist.map _)

/-- Dropping the keys below a key `k` changes nothing from `k` on. -/
lemma floor_dropBelow {m : List (κ × ν)} (hm : Sorted m) (hk : k ∈ m.map (·.1)) {e : κ}
    (hke : k ≤ e) : floor (dropBelow k m) e = floor m e := by
  induction m with
  | nil => simp at hk
  | cons p rest ih =>
    obtain ⟨k', v'⟩ := p
    obtain ⟨hhead, hrest⟩ := sorted_cons.mp hm
    by_cases hle : k ≤ k'
    · -- every key is from `k` on
      rw [dropBelow, List.filter_eq_self.mpr]
      intro q hq
      rcases List.mem_cons.mp hq with rfl | hq
      · simpa using hle
      · simpa using hle.trans (hhead q hq).le
    · have hk' : k ∈ rest.map (·.1) := by
        rcases List.mem_cons.mp hk with heq | hk
        · exact absurd (le_of_eq heq) hle
        · exact hk
      have hsome : (floor rest e).isSome := by
        obtain ⟨q, hq, rfl⟩ := List.mem_map.mp hk'
        exact (floor_isSome_iff hrest).mpr ⟨q, hq, hke⟩
      have hdrop : dropBelow k ((k', v') :: rest) = dropBelow k rest := by
        simp [dropBelow, not_le.mp hle]
      rw [hdrop, ih hrest hk', floor, if_pos ((not_le.mp hle).le.trans hke)]
      obtain ⟨w, hw⟩ := Option.isSome_iff_exists.mp hsome
      rw [hw]
      rfl

end Floor

section Sum

variable [AddCommMonoid ν]

/-- The sum of the values at the keys up to `e`. -/
def prefixSum (m : List (κ × ν)) (e : κ) : ν := ((m.filter fun p => p.1 ≤ e).map (·.2)).sum

@[simp] lemma prefixSum_nil (e : κ) : prefixSum ([] : List (κ × ν)) e = 0 := rfl

lemma prefixSum_cons (k' : κ) (v' : ν) (rest : List (κ × ν)) (e : κ) :
    prefixSum ((k', v') :: rest) e = (if k' ≤ e then v' else 0) + prefixSum rest e := by
  unfold prefixSum
  by_cases h : k' ≤ e <;> simp [h]

/-- Below every key nothing is summed. -/
lemma prefixSum_eq_zero {m : List (κ × ν)} {e : κ} (h : ∀ p ∈ m, e < p.1) : prefixSum m e = 0 := by
  unfold prefixSum
  rw [List.filter_eq_nil_iff.mpr fun p hp => by simpa using h p hp]
  rfl

/-- Where `f` adds `v` to the value at `k`, upserting adds `v` to every prefix sum from `k` on. -/
lemma prefixSum_upsert (m : List (κ × ν)) (hf : ∀ p ∈ m, p.1 = k → f p.2 = p.2 + v) (e : κ) :
    prefixSum (upsert f k v m) e = prefixSum m e + if k ≤ e then v else 0 := by
  induction m with
  | nil => simp [upsert, prefixSum_cons]
  | cons p rest ih =>
    obtain ⟨k₀, v₀⟩ := p
    rcases lt_trichotomy k k₀ with hlt | rfl | hgt
    · rw [upsert, if_pos hlt, prefixSum_cons, add_comm]
    · rw [upsert, if_neg (lt_irrefl k), if_pos rfl, prefixSum_cons, prefixSum_cons,
        hf _ List.mem_cons_self rfl]
      by_cases he : k ≤ e
      · simp only [if_pos he]
        abel
      · simp [he]
    · rw [upsert, if_neg (not_lt.mpr hgt.le), if_neg (ne_of_gt hgt), prefixSum_cons,
        prefixSum_cons, ih (fun p hp => hf p (List.mem_cons_of_mem _ hp)), add_assoc]

/-- Where `f` adds `v` to the value at `k`, upserting adds `v` to the sum of all values. -/
lemma sum_upsert (m : List (κ × ν)) (hf : ∀ p ∈ m, p.1 = k → f p.2 = p.2 + v) :
    ((upsert f k v m).map (·.2)).sum = (m.map (·.2)).sum + v := by
  induction m with
  | nil => simp [upsert]
  | cons p rest ih =>
    obtain ⟨k₀, v₀⟩ := p
    rcases lt_trichotomy k k₀ with hlt | rfl | hgt
    · rw [upsert, if_pos hlt]
      simp only [List.map_cons, List.sum_cons]
      abel
    · rw [upsert, if_neg (lt_irrefl k), if_pos rfl]
      simp only [List.map_cons, List.sum_cons, hf _ List.mem_cons_self rfl]
      abel
    · rw [upsert, if_neg (not_lt.mpr hgt.le), if_neg (ne_of_gt hgt)]
      simp only [List.map_cons, List.sum_cons,
        ih (fun p hp => hf p (List.mem_cons_of_mem _ hp)), add_assoc]

end Sum

end SortedMap
