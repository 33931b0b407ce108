import VelasChain.Lib.FiniteMap

/-!
# The queue of recent blockhashes

`BlockhashQueue` keeps, per blockhash, the fee it was registered with, the height it was
registered at and a timestamp. The genesis hash is registered at height 0 and each
`register_hash` at the next height; once the map holds `max_age` hashes, a registration first
drops those more than `max_age` heights old. A transaction's blockhash passes the bank's age
check when `check_hash_age` finds it at most `max_age` heights old.

Against the history of registrations, the map holds the latest registration of each hash it
holds, and every hash whose latest registration is at most `max_age` heights old (`Refines`,
kept by every registration). So for every age up to `max_age`, `check_hash_age` says exactly
whether the latest registration of a hash is that recent, with its fee
(`check_hash_age_reports_recent_registrations`), and the map never holds more than
`max_age + 1` hashes (`blockhash_queue_holds_at_most_max_age_plus_one`).

Hash maps are association lists. The fee calculator is its lamports per signature, and the
timestamp, which the source reads from the clock, is an argument of the registrations. Heights
are `u64` and never reach `2 ^ 64` here; an entry is never higher than the queue, so the
subtractions of heights do not wrap.
-/

namespace VelasChain.Runtime

/-- `HashAge`, the fee calculator as its lamports per signature. -/
structure HashAge where
  lamportsPerSignature : ℕ
  hashHeight : ℕ
  timestamp : ℕ
  deriving DecidableEq, Repr

/-- `BlockhashQueue`. -/
structure BlockhashQueue (H : Type) where
  hashHeight : ℕ
  lastHash : Option H
  ages : AList fun _ : H => HashAge
  maxAge : ℕ

namespace BlockhashQueue

variable {H : Type} [DecidableEq H]

/-- `BlockhashQueue::new`. -/
def new (maxAge : ℕ) : BlockhashQueue H := ⟨0, none, ∅, maxAge⟩

/-- `get_lamports_per_signature`. -/
def getLamportsPerSignature (q : BlockhashQueue H) (hash : H) : Option ℕ :=
  (q.ages.lookup hash).map (·.lamportsPerSignature)

/-- `check_hash_age`: whether the hash is at most `maxAge` heights old, if it is held. -/
def checkHashAge (q : BlockhashQueue H) (hash : H) (maxAge : ℕ) : Option Bool :=
  (q.ages.lookup hash).map fun age => decide (q.hashHeight - age.hashHeight ≤ maxAge)

/-- `get_hash_age`. -/
def getHashAge (q : BlockhashQueue H) (hash : H) : Option ℕ :=
  (q.ages.lookup hash).map fun age => q.hashHeight - age.hashHeight

/-- `check_hash`. -/
def checkHash (q : BlockhashQueue H) (hash : H) : Bool := (q.ages.lookup hash).isSome

/-- `genesis_hash`: the genesis hash, at height 0. -/
def genesisHash (q : BlockhashQueue H) (hash : H) (lamportsPerSignature timestamp : ℕ) :
    BlockhashQueue H :=
  { q with ages := q.ages.insert hash ⟨lamportsPerSignature, 0, timestamp⟩, lastHash := some hash }

/-- `check_age`. -/
def checkAge (hashHeight maxAge : ℕ) (age : HashAge) : Bool :=
  decide (hashHeight - age.hashHeight ≤ maxAge)

/-- `register_hash`: the next height, and the hashes too old for it dropped once the map holds
`max_age` of them. -/
def registerHash (q : BlockhashQueue H) (hash : H) (lamportsPerSignature timestamp : ℕ) :
    BlockhashQueue H :=
  let hashHeight := q.hashHeight + 1
  let ages :=
    if q.ages.entries.length ≥ q.maxAge then
      q.ages.retain fun _ age => checkAge hashHeight q.maxAge age
    else q.ages
  { q with hashHeight, ages := ages.insert hash ⟨lamportsPerSignature, hashHeight, timestamp⟩,
           lastHash := some hash }

/-- `hash_height_to_timestamp`: the timestamp of a held hash registered at the height. -/
def hashHeightToTimestamp (q : BlockhashQueue H) (hashHeight : ℕ) : Option ℕ :=
  (q.ages.entries.find? fun e => e.2.hashHeight = hashHeight).map (·.2.timestamp)

/-- `len`, which is the queue's `max_age`. -/
def len (q : BlockhashQueue H) : ℕ := q.maxAge

@[simp] lemma hashHeight_registerHash (q : BlockhashQueue H) (hash : H) (lps ts : ℕ) :
    (q.registerHash hash lps ts).hashHeight = q.hashHeight + 1 := rfl

@[simp] lemma maxAge_registerHash (q : BlockhashQueue H) (hash : H) (lps ts : ℕ) :
    (q.registerHash hash lps ts).maxAge = q.maxAge := rfl

/-- What a registration leaves of a lookup: the new entry for its hash, and the old entry of
another hash, dropped if the map was full and it is too old for the new height. -/
lemma lookup_registerHash (q : BlockhashQueue H) (hash : H) (lps ts : ℕ) (h' : H) :
    (q.registerHash hash lps ts).ages.lookup h' =
      if h' = hash then some ⟨lps, q.hashHeight + 1, ts⟩
      else if q.ages.entries.length ≥ q.maxAge then
        (q.ages.lookup h').filter (checkAge (q.hashHeight + 1) q.maxAge)
      else q.ages.lookup h' := by
  by_cases hh : h' = hash
  · subst hh
    simp [registerHash]
  · simp only [registerHash, if_neg hh, AList.lookup_insert_ne hh]
    split_ifs <;> simp

/-! ### The history of registrations -/

/-- A registration: the hash, its fee, and its timestamp. -/
structure Registration (H : Type) where
  hash : H
  lamportsPerSignature : ℕ
  timestamp : ℕ

/-- The entry a registration at height `k` makes. -/
def Registration.toAge (r : Registration H) (k : ℕ) : HashAge :=
  ⟨r.lamportsPerSignature, k, r.timestamp⟩

/-- The latest registration of `hash` in a history of registrations, one per height from the
genesis hash at height 0, with its height. -/
def latest (hash : H) (regs : List (Registration H)) : Option (ℕ × Registration H) :=
  ((regs.zipIdx.filter fun p => p.1.hash = hash).getLast?).map fun p => (p.2, p.1)

/-- A registration is the latest of its hash, and leaves the others as they were. -/
lemma latest_concat (hash : H) (regs : List (Registration H)) (r : Registration H) :
    latest hash (regs ++ [r]) = if r.hash = hash then some (regs.length, r) else latest hash regs := by
  unfold latest
  rw [List.zipIdx_append, List.zipIdx_singleton, List.filter_append, List.getLast?_append]
  by_cases hr : r.hash = hash
  · simp [hr]
  · simp [hr]

/-- The latest registration of a hash is the registration at its height. -/
lemma getElem?_of_latest {hash : H} {regs : List (Registration H)} {k : ℕ} {r : Registration H}
    (h : latest hash regs = some (k, r)) : regs[k]? = some r ∧ r.hash = hash := by
  obtain ⟨p, hp, hpr⟩ := Option.map_eq_some_iff.mp h
  obtain ⟨hmem, hhash⟩ := List.mem_filter.mp (List.mem_of_getLast? hp)
  obtain ⟨rfl, rfl⟩ := Prod.mk.inj hpr
  exact ⟨List.mem_zipIdx_iff_getElem?.mp hmem, of_decide_eq_true hhash⟩

lemma lt_length_of_latest {hash : H} {regs : List (Registration H)} {k : ℕ} {r : Registration H}
    (h : latest hash regs = some (k, r)) : k < regs.length :=
  (List.getElem?_eq_some_iff.mp (getElem?_of_latest h).1).1

/-! ### The queue refines the history -/

/-- The map holds the latest registration of each hash it holds, and every hash whose latest
registration is at most `max_age` heights old; the queue's height is that of the last
registration. -/
structure Refines (q : BlockhashQueue H) (regs : List (Registration H)) : Prop where
  length_eq : regs.length = q.hashHeight + 1
  sound : ∀ hash age, q.ages.lookup hash = some age →
    ∃ r, latest hash regs = some (age.hashHeight, r) ∧ age = r.toAge age.hashHeight
  complete : ∀ hash k r, latest hash regs = some (k, r) → q.hashHeight - k ≤ q.maxAge →
    q.ages.lookup hash = some (r.toAge k)

/-- The genesis hash alone. -/
lemma refines_genesisHash (maxAge : ℕ) (g : Registration H) :
    Refines ((new maxAge).genesisHash g.hash g.lamportsPerSignature g.timestamp) [g] where
  length_eq := rfl
  sound := by
    intro hash age hl
    by_cases hh : hash = g.hash
    · subst hh
      simp only [genesisHash, new, AList.lookup_insert, Option.some.injEq] at hl
      subst hl
      exact ⟨g, by simp [latest], rfl⟩
    · simp only [genesisHash, new] at hl
      rw [AList.lookup_insert_ne hh, AList.lookup_empty] at hl
      cases hl
  complete := by
    intro hash k r hlat _
    obtain ⟨hget, rfl⟩ := getElem?_of_latest hlat
    obtain ⟨rfl, rfl⟩ : k = 0 ∧ g = r := by
      have hk : k < 1 := lt_length_of_latest hlat
      obtain rfl : k = 0 := by omega
      exact ⟨rfl, by simpa using hget⟩
    simp [genesisHash, Registration.toAge]

section Refines

variable {q : BlockhashQueue H} {regs : List (Registration H)}

/-- A registration keeps the refinement, with the history one registration longer. -/
theorem Refines.registerHash (h : Refines q regs) (r : Registration H) :
    Refines (q.registerHash r.hash r.lamportsPerSignature r.timestamp) (regs ++ [r]) where
  length_eq := by simp [h.length_eq]
  sound := by
    intro hash age hl
    rw [lookup_registerHash] at hl
    rw [latest_concat]
    by_cases hh : hash = r.hash
    · -- the entry of the new registration
      rw [if_pos hh, Option.some.injEq] at hl
      subst hl
      exact ⟨r, by simp [hh, h.length_eq], rfl⟩
    · rw [if_neg hh] at hl
      rw [if_neg (Ne.symm hh)]
      -- an old entry, kept by the pruning
      have hold : q.ages.lookup hash = some age := by
        split_ifs at hl
        · exact (Option.filter_eq_some_iff.mp hl).1
        · exact hl
      exact h.sound hash age hold
  complete := by
    intro hash k r' hlat hage
    rw [lookup_registerHash]
    rw [latest_concat] at hlat
    by_cases hh : hash = r.hash
    · rw [if_pos hh.symm, Option.some.injEq, Prod.mk.injEq] at hlat
      obtain ⟨rfl, rfl⟩ := hlat
      simp [hh, h.length_eq, Registration.toAge]
    · rw [if_neg (Ne.symm hh)] at hlat
      rw [if_neg hh]
      simp only [hashHeight_registerHash, maxAge_registerHash] at hage
      have hold := h.complete hash k r' hlat (by omega)
      split_ifs
      · rw [hold, Option.filter_eq_some_iff]
        exact ⟨rfl, by simp [checkAge, Registration.toAge]; omega⟩
      · exact hold

/-- A recent registration is found with its age and fee, and the age check passes exactly for
the ages it is within. -/
lemma Refines.lookup_of_recent (h : Refines q regs) {hash : H} {k : ℕ} {r : Registration H}
    (hlat : latest hash regs = some (k, r)) (hage : q.hashHeight - k ≤ q.maxAge) (a : ℕ) :
    q.checkHashAge hash a = some (decide (q.hashHeight - k ≤ a)) ∧
      q.getLamportsPerSignature hash = some r.lamportsPerSignature ∧
      q.getHashAge hash = some (q.hashHeight - k) := by
  have hl := h.complete hash k r hlat hage
  simp [checkHashAge, getLamportsPerSignature, getHashAge, hl, Registration.toAge]

/-- A hash never registered is not found. -/
lemma Refines.lookup_eq_none (h : Refines q regs) {hash : H} (hlat : latest hash regs = none) :
    q.ages.lookup hash = none := by
  cases hl : q.ages.lookup hash with
  | none => rfl
  | some age =>
    obtain ⟨r, hr, -⟩ := h.sound hash age hl
    rw [hlat] at hr
    exact absurd hr (Option.some_ne_none _).symm

/-- For an age up to `max_age`, the check passes exactly for the hashes whose latest
registration is within it. -/
lemma Refines.checkHashAge_eq_some_true (h : Refines q regs) (hash : H) {a : ℕ}
    (ha : a ≤ q.maxAge) :
    q.checkHashAge hash a = some true ↔
      ∃ k r, latest hash regs = some (k, r) ∧ q.hashHeight - k ≤ a := by
  constructor
  · intro hc
    obtain ⟨age, hl, hdec⟩ := Option.map_eq_some_iff.mp hc
    obtain ⟨r, hr, -⟩ := h.sound hash age hl
    exact ⟨age.hashHeight, r, hr, of_decide_eq_true hdec⟩
  · rintro ⟨k, r, hlat, hk⟩
    rw [(h.lookup_of_recent hlat (hk.trans ha) a).1, decide_eq_true hk]

/-- Every entry is no higher than the queue. -/
lemma Refines.hashHeight_le (h : Refines q regs) {e : Σ _ : H, HashAge}
    (he : e ∈ q.ages.entries) : e.2.hashHeight ≤ q.hashHeight := by
  obtain ⟨r, hr, -⟩ := h.sound e.1 e.2 (AList.mem_lookup_iff.mpr he)
  have := lt_length_of_latest hr
  have := h.length_eq
  omega

/-- Two entries at one height are one entry: each is the registration at that height. -/
lemma Refines.eq_of_hashHeight_eq (h : Refines q regs) {e e' : Σ _ : H, HashAge}
    (he : e ∈ q.ages.entries) (he' : e' ∈ q.ages.entries)
    (heq : e.2.hashHeight = e'.2.hashHeight) : e = e' := by
  obtain ⟨r, hr, -⟩ := h.sound e.1 e.2 (AList.mem_lookup_iff.mpr he)
  obtain ⟨r', hr', -⟩ := h.sound e'.1 e'.2 (AList.mem_lookup_iff.mpr he')
  obtain ⟨hget, hhash⟩ := getElem?_of_latest hr
  obtain ⟨hget', hhash'⟩ := getElem?_of_latest hr'
  rw [heq, hget'] at hget
  have hkey : e.1 = e'.1 := by
    rw [← hhash, ← hhash', Option.some.inj hget]
  have hl : q.ages.lookup e.1 = some e'.2 := by
    rw [hkey]
    exact AList.mem_lookup_iff.mpr he'
  have hval : e.2 = e'.2 :=
    Option.some.inj ((AList.mem_lookup_iff.mpr he).symm.trans hl)
  exact Sigma.ext hkey (heq_of_eq hval)

/-- The heights of the entries differ. -/
lemma Refines.nodup_hashHeights (h : Refines q regs) :
    (q.ages.entries.map (·.2.hashHeight)).Nodup :=
  q.ages.nodupKeys.nodup.map_on fun _ he _ he' heq => h.eq_of_hashHeight_eq he he' heq

end Refines

/-- Distinct numbers in `[lo, hi)` are at most `hi - lo`. -/
lemma length_le_of_nodup_of_mem_Ico {l : List ℕ} (hl : l.Nodup) {lo hi : ℕ}
    (h : ∀ x ∈ l, lo ≤ x ∧ x < hi) : l.length ≤ hi - lo := by
  rw [← List.toFinset_card_of_nodup hl, ← Nat.card_Ico lo hi]
  exact Finset.card_le_card fun x hx => Finset.mem_Ico.mpr (h x (List.mem_toFinset.mp hx))

/-- A registration leaves at most `max_age + 1` hashes: when it prunes, those kept lie within
`max_age` heights below the new one, at distinct heights. -/
lemma Refines.length_registerHash_le {q : BlockhashQueue H} {regs : List (Registration H)}
    (h : Refines q regs) (hash : H) (lps ts : ℕ) :
    (q.registerHash hash lps ts).ages.entries.length ≤ q.maxAge + 1 := by
  simp only [BlockhashQueue.registerHash, AList.entries_insert, List.length_cons]
  split_ifs with hfull
  · -- the kept entries: heights in the window below the new height, all distinct
    have hkept : (q.ages.retain fun _ age => checkAge (q.hashHeight + 1) q.maxAge age).entries.length
        ≤ q.maxAge := by
      set kept := (q.ages.retain fun _ age => checkAge (q.hashHeight + 1) q.maxAge age).entries
      have hsub : kept.Sublist q.ages.entries := List.filter_sublist
      have hnodup : (kept.map (·.2.hashHeight)).Nodup :=
        (hsub.map _).nodup h.nodup_hashHeights
      have hwindow : ∀ x ∈ kept.map (·.2.hashHeight),
          q.hashHeight + 1 - q.maxAge ≤ x ∧ x < q.hashHeight + 1 := by
        intro x hx
        obtain ⟨e, he, rfl⟩ := List.mem_map.mp hx
        have hcheck : checkAge (q.hashHeight + 1) q.maxAge e.2 = true := (List.mem_filter.mp he).2
        have hle := h.hashHeight_le (hsub.subset he)
        simp only [checkAge, decide_eq_true_eq] at hcheck
        omega
      have := length_le_of_nodup_of_mem_Ico hnodup hwindow
      rw [List.length_map] at this
      omega
    have := (List.kerase_sublist hash _).length_le.trans hkept
    omega
  · have := (List.kerase_sublist hash q.ages.entries).length_le
    omega

/-! ### Runs of the bank -/

/-- The queue after the genesis hash and a run of registrations, one per block, as the bank
makes them. -/
def afterRegistrations (maxAge : ℕ) (genesis : Registration H) (regs : List (Registration H)) :
    BlockhashQueue H :=
  regs.foldl (fun q r => q.registerHash r.hash r.lamportsPerSignature r.timestamp)
    ((new maxAge).genesisHash genesis.hash genesis.lamportsPerSignature genesis.timestamp)

lemma afterRegistrations_concat (maxAge : ℕ) (genesis : Registration H)
    (regs : List (Registration H)) (r : Registration H) :
    afterRegistrations maxAge genesis (regs ++ [r]) =
      (afterRegistrations maxAge genesis regs).registerHash r.hash r.lamportsPerSignature
        r.timestamp := by
  simp [afterRegistrations, List.foldl_append]

/-- Every run refines its history, the genesis hash first. -/
theorem refines_afterRegistrations (maxAge : ℕ) (genesis : Registration H)
    (regs : List (Registration H)) :
    Refines (afterRegistrations maxAge genesis regs) (genesis :: regs) := by
  induction regs using List.reverseRecOn with
  | nil => exact refines_genesisHash maxAge genesis
  | append_singleton regs r ih =>
    rw [afterRegistrations_concat, ← List.cons_append]
    exact ih.registerHash r

@[simp] lemma maxAge_afterRegistrations (maxAge : ℕ) (genesis : Registration H)
    (regs : List (Registration H)) : (afterRegistrations maxAge genesis regs).maxAge = maxAge := by
  induction regs using List.reverseRecOn with
  | nil => rfl
  | append_singleton regs r ih => rw [afterRegistrations_concat, maxAge_registerHash, ih]

lemma hashHeight_afterRegistrations (maxAge : ℕ) (genesis : Registration H)
    (regs : List (Registration H)) :
    (afterRegistrations maxAge genesis regs).hashHeight = regs.length := by
  have := (refines_afterRegistrations maxAge genesis regs).length_eq
  simp only [List.length_cons] at this
  omega

/-- On every run, for every age `a` up to the queue's `max_age`: the age check of a hash passes
exactly when its latest registration is at most `a` heights old; a hash registered within
`max_age` heights is found with the fee and the age of its latest registration; and a hash never
registered is not found. -/
theorem check_hash_age_reports_recent_registrations (maxAge : ℕ) (genesis : Registration H)
    (regs : List (Registration H)) {a : ℕ} (ha : a ≤ maxAge) :
    (∀ hash, (afterRegistrations maxAge genesis regs).checkHashAge hash a = some true ↔
        ∃ k r, latest hash (genesis :: regs) = some (k, r) ∧ regs.length - k ≤ a) ∧
      (∀ hash k r, latest hash (genesis :: regs) = some (k, r) → regs.length - k ≤ maxAge →
        (afterRegistrations maxAge genesis regs).getLamportsPerSignature hash =
            some r.lamportsPerSignature ∧
          (afterRegistrations maxAge genesis regs).getHashAge hash = some (regs.length - k)) ∧
      (∀ hash, latest hash (genesis :: regs) = none →
        (afterRegistrations maxAge genesis regs).checkHashAge hash a = none) := by
  have h := refines_afterRegistrations maxAge genesis regs
  have hheight := hashHeight_afterRegistrations maxAge genesis regs
  have hmax := maxAge_afterRegistrations maxAge genesis regs
  refine ⟨fun hash => ?_, fun hash k r hlat hage => ?_, fun hash hlat => ?_⟩
  · rw [h.checkHashAge_eq_some_true hash (by rw [hmax]; exact ha), hheight]
  · rw [← hheight]
    exact (h.lookup_of_recent hlat (by rw [hheight, hmax]; exact hage) a).2
  · simp [checkHashAge, h.lookup_eq_none hlat]

/-- The genesis hash 0, with a fee of 5. -/
def genesisZero : Registration ℕ := ⟨0, 5, 0⟩

/-- Blocks with hashes 2, 1 and 2 at heights 1 to 3, the last with a fee of 6. -/
def threeBlocks : List (Registration ℕ) := [⟨2, 5, 1⟩, ⟨1, 5, 2⟩, ⟨2, 6, 3⟩]

/-- Against the age 1 within a `max_age` of 2. -/
theorem check_hash_age_of_three_blocks :
    (1 : ℕ) ≤ 2 ∧
      (∀ hash, (afterRegistrations 2 genesisZero threeBlocks).checkHashAge hash 1 = some true ↔
        ∃ k r, latest hash (genesisZero :: threeBlocks) = some (k, r) ∧
          threeBlocks.length - k ≤ 1) ∧
      (∀ hash k r, latest hash (genesisZero :: threeBlocks) = some (k, r) →
        threeBlocks.length - k ≤ 2 →
        (afterRegistrations 2 genesisZero threeBlocks).getLamportsPerSignature hash =
            some r.lamportsPerSignature ∧
          (afterRegistrations 2 genesisZero threeBlocks).getHashAge hash =
            some (threeBlocks.length - k)) ∧
      (∀ hash, latest hash (genesisZero :: threeBlocks) = none →
        (afterRegistrations 2 genesisZero threeBlocks).checkHashAge hash 1 = none) :=
  ⟨by decide, check_hash_age_reports_recent_registrations 2 genesisZero threeBlocks (by decide)⟩

example : (afterRegistrations 2 genesisZero threeBlocks).checkHashAge 2 1 = some true := by
  decide

example : (afterRegistrations 2 genesisZero threeBlocks).checkHashAge 1 0 = some false := by
  decide

/-- On every run the map holds at most `max_age + 1` hashes, however many were registered. -/
theorem blockhash_queue_holds_at_most_max_age_plus_one (maxAge : ℕ) (genesis : Registration H)
    (regs : List (Registration H)) :
    (afterRegistrations maxAge genesis regs).ages.entries.length ≤ maxAge + 1 := by
  cases regs using List.reverseRecOn with
  | nil => simp [afterRegistrations, genesisHash, new]
  | append_singleton regs r =>
    rw [afterRegistrations_concat]
    have := (refines_afterRegistrations maxAge genesis regs).length_registerHash_le r.hash
      r.lamportsPerSignature r.timestamp
    rwa [maxAge_afterRegistrations] at this

end BlockhashQueue

end VelasChain.Runtime
