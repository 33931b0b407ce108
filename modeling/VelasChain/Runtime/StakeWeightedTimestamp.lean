import Mathlib.Algebra.Order.Group.Nat
import VelasChain.Lib.Duration
import VelasChain.Lib.Signed
import VelasChain.Lib.Saturating
import VelasChain.Lib.SortedMap
import VelasChain.Runtime.StatusCache

/-!
# The stake-weighted timestamp

`calculate_stake_weighted_timestamp` turns the recent timestamps of the vote accounts into
estimates of the current time (a timestamp plus the slots since it, at the slot duration), adds
up the stake per estimate in a `BTreeMap` and picks the stake-weighted median: the least estimate
at which the stake accumulated passes half the total. The median is then held to the drift
allowed since the start of the epoch, measured against the PoH estimate of the time since.

Where nothing saturates or wraps, the result is the median held to the drift window computed
exactly (`calculate_stake_weighted_timestamp_is_bounded_median`); it is `None` exactly when the
reporting validators have no stake. A `UnixTimestamp`, an `i64`, is an integer. The slots since a timestamp are cast to `u32` before they
multiply the slot duration, so a timestamp more than `u32::MAX` slots old counts as new
(`stale_timestamp_wraps_to_current_slot`).
-/

namespace VelasChain.Runtime

/-- `MaxAllowableDrift`: how far the estimate may run ahead of (`fast`) or behind (`slow`) the
PoH estimate since the start of the epoch, in percent of it. -/
structure MaxAllowableDrift where
  fast : ℕ
  slow : ℕ
  deriving DecidableEq, Repr

variable {Key : Type}

/-- The estimate of the current time from a timestamp at `timestampSlot`. -/
def estimateOfTimestamp (slot : Slot) (slotDuration : Duration) (timestampSlot : Slot)
    (timestamp : ℤ) : ℤ :=
  let offset := slotDuration.saturatingMul ((slot - timestampSlot) % 2 ^ 32)
  Signed.saturatingAdd 64 timestamp (Signed.ofUnsigned 64 offset.asSecs)

/-- One recent timestamp added to the stake per estimate and to the total stake. -/
def addTimestamp (stakes : Key → Option ℕ) (slot : Slot) (slotDuration : Duration)
    (acc : List (ℤ × ℕ) × ℕ) (entry : Key × Slot × ℤ) :
    List (ℤ × ℕ) × ℕ :=
  let (votePubkey, timestampSlot, timestamp) := entry
  let estimate := estimateOfTimestamp slot slotDuration timestampSlot timestamp
  let stake := (stakes votePubkey).getD 0
  (SortedMap.upsert (fun stakeSum => Saturating.add 128 stakeSum stake) estimate stake acc.1,
    Saturating.add 128 acc.2 stake)

/-- The loop that picks the median: the first estimate at which the stake accumulated passes
`half`, or `0`. -/
def medianLoop (half stakeAccumulator : ℕ) : List (ℤ × ℕ) → ℤ
  | [] => 0
  | (timestamp, stake) :: rest =>
    if Saturating.add 128 stakeAccumulator stake > half then timestamp
    else medianLoop half (Saturating.add 128 stakeAccumulator stake) rest

/-- The estimate held to the drift allowed since the start of the epoch. -/
def boundByDrift (slot : Slot) (slotDuration : Duration) (maxAllowableDrift : MaxAllowableDrift)
    (fixEstimateIntoU64 : Bool) (estimate : ℤ) :
    Option (Slot × ℤ) → ℤ
  | none => estimate
  | some (epochStartSlot, epochStartTimestamp) =>
    let pohEstimateOffset := slotDuration.saturatingMul ((slot - epochStartSlot) % 2 ^ 32)
    let estimateOffset := Duration.fromSecs
      (if fixEstimateIntoU64 then
        Signed.toUnsigned 64 estimate - Signed.toUnsigned 64 epochStartTimestamp
      else Signed.toUnsigned 64 (Signed.saturatingSub 64 estimate epochStartTimestamp))
    let maxAllowableDriftFast := (pohEstimateOffset.saturatingMul maxAllowableDrift.fast).div 100
    let maxAllowableDriftSlow := (pohEstimateOffset.saturatingMul maxAllowableDrift.slow).div 100
    if pohEstimateOffset < estimateOffset ∧
        maxAllowableDriftSlow < estimateOffset.saturatingSub pohEstimateOffset then
      Signed.saturatingAdd 64
        (Signed.saturatingAdd 64 epochStartTimestamp
          (Signed.ofUnsigned 64 pohEstimateOffset.asSecs))
        (Signed.ofUnsigned 64 maxAllowableDriftSlow.asSecs)
    else if estimateOffset < pohEstimateOffset ∧
        maxAllowableDriftFast < pohEstimateOffset.saturatingSub estimateOffset then
      Signed.saturatingSub 64
        (Signed.saturatingAdd 64 epochStartTimestamp
          (Signed.ofUnsigned 64 pohEstimateOffset.asSecs))
        (Signed.ofUnsigned 64 maxAllowableDriftFast.asSecs)
    else estimate

/-- `calculate_stake_weighted_timestamp`, over the recent timestamps in the order they are
iterated and the stakes as a lookup. -/
def calculateStakeWeightedTimestamp (uniqueTimestamps : List (Key × Slot × ℤ))
    (stakes : Key → Option ℕ) (slot : Slot) (slotDuration : Duration)
    (epochStartTimestamp : Option (Slot × ℤ)) (maxAllowableDrift : MaxAllowableDrift)
    (fixEstimateIntoU64 : Bool) : Option ℤ :=
  let (stakePerTimestamp, totalStake) :=
    uniqueTimestamps.foldl (addTimestamp stakes slot slotDuration) ([], 0)
  if totalStake = 0 then none
  else
    some (boundByDrift slot slotDuration maxAllowableDrift fixEstimateIntoU64
      (medianLoop (totalStake / 2) 0 stakePerTimestamp) epochStartTimestamp)

/-! ### The median held to the drift window, exactly -/

/-- The estimate from a recent timestamp in exact arithmetic: the timestamp plus the whole
seconds of the slots since it. -/
def exactEstimate (slot : Slot) (slotDuration : Duration) (entry : Key × Slot × ℤ) :
    ℤ :=
  entry.2.2 + ((slotDuration.toNanos * (slot - entry.2.1) / Duration.nanosPerSec : ℕ) : ℤ)

/-- The stake of the account of an entry, `0` where it has none. -/
def stakeOf (stakes : Key → Option ℕ) (entry : Key × Slot × ℤ) : ℕ :=
  (stakes entry.1).getD 0

/-- The stake of all entries. -/
def totalStakeOf (stakes : Key → Option ℕ) (entries : List (Key × Slot × ℤ)) : ℕ :=
  (entries.map (stakeOf stakes)).sum

/-- The stake of the entries whose exact estimate is at most `e`. -/
def cumulativeStake (stakes : Key → Option ℕ) (slot : Slot) (slotDuration : Duration)
    (entries : List (Key × Slot × ℤ)) (e : ℤ) : ℕ :=
  totalStakeOf stakes (entries.filter fun entry => exactEstimate slot slotDuration entry ≤ e)

/-- `m` is the stake-weighted median of the exact estimates: the least of them at which the
stake of the estimates up to it passes half the total. -/
structure IsStakeWeightedMedian (stakes : Key → Option ℕ) (slot : Slot) (slotDuration : Duration)
    (entries : List (Key × Slot × ℤ)) (m : ℤ) : Prop where
  mem : ∃ entry ∈ entries, exactEstimate slot slotDuration entry = m
  half_lt : totalStakeOf stakes entries / 2 < cumulativeStake stakes slot slotDuration entries m
  le_of_half_lt : ∀ entry ∈ entries, totalStakeOf stakes entries / 2 <
      cumulativeStake stakes slot slotDuration entries (exactEstimate slot slotDuration entry) →
    m ≤ exactEstimate slot slotDuration entry

/-- The nanoseconds since the start of the epoch by the PoH estimate. -/
def pohNanos (slot : Slot) (slotDuration : Duration) (epochStartSlot : Slot) : ℕ :=
  slotDuration.toNanos * (slot - epochStartSlot)

/-- The drift allowed at `percent` percent of `poh` nanoseconds. -/
def driftNanos (poh percent : ℕ) : ℕ := poh * percent / 100

/-- The estimate `m` held to the drift window in exact arithmetic: more than the slow drift
after the PoH estimate it becomes the PoH estimate plus the slow drift, more than the fast drift
before it the PoH estimate less the fast drift, in whole seconds. -/
def boundedEstimate (poh fastDrift slowDrift : ℕ) (epochStartTimestamp m : ℤ) :
    ℤ :=
  let offset := (m - epochStartTimestamp).toNat * Duration.nanosPerSec
  if poh + slowDrift < offset then
    epochStartTimestamp + ((poh / Duration.nanosPerSec : ℕ) : ℤ) +
      ((slowDrift / Duration.nanosPerSec : ℕ) : ℤ)
  else if offset + fastDrift < poh then
    epochStartTimestamp + ((poh / Duration.nanosPerSec : ℕ) : ℤ) -
      ((fastDrift / Duration.nanosPerSec : ℕ) : ℤ)
  else m

/-- A recent timestamp whose estimate nothing truncates: it is at most `u32::MAX` slots old,
not before the epoch zero time, and its exact estimate fits an `i64`. -/
structure EntryFits (slot : Slot) (slotDuration : Duration) (entry : Key × Slot × ℤ) :
    Prop where
  slot_le : entry.2.1 ≤ slot
  cast : slot - entry.2.1 < 2 ^ 32
  timestamp_nonneg : 0 ≤ entry.2.2
  estimate_lt : exactEstimate slot slotDuration entry < 2 ^ 63

/-- A start of the epoch against which nothing in the drift window truncates: at most
`u32::MAX` slots back and not before the epoch zero time, a fast drift of at most all of the
PoH estimate, drifts whose products fit a `Duration`, and a latest allowed time that fits an
`i64`. -/
structure EpochStartFits (slot : Slot) (slotDuration : Duration)
    (maxAllowableDrift : MaxAllowableDrift) (epochStartSlot : Slot)
    (epochStartTimestamp : ℤ) : Prop where
  slot_le : epochStartSlot ≤ slot
  cast : slot - epochStartSlot < 2 ^ 32
  timestamp_nonneg : 0 ≤ epochStartTimestamp
  fast_le : maxAllowableDrift.fast ≤ 100
  fast_fits : pohNanos slot slotDuration epochStartSlot * maxAllowableDrift.fast ≤ Duration.maxNanos
  slow_fits : pohNanos slot slotDuration epochStartSlot * maxAllowableDrift.slow ≤ Duration.maxNanos
  late_lt : epochStartTimestamp +
      ((pohNanos slot slotDuration epochStartSlot / Duration.nanosPerSec : ℕ) : ℤ) +
      ((driftNanos (pohNanos slot slotDuration epochStartSlot) maxAllowableDrift.slow /
        Duration.nanosPerSec : ℕ) : ℤ) < 2 ^ 63

instance (slot : Slot) (slotDuration : Duration) (entry : Key × Slot × ℤ) :
    Decidable (EntryFits slot slotDuration entry) :=
  decidable_of_iff (entry.2.1 ≤ slot ∧ slot - entry.2.1 < 2 ^ 32 ∧ 0 ≤ entry.2.2 ∧
      exactEstimate slot slotDuration entry < 2 ^ 63)
    ⟨fun ⟨h₁, h₂, h₃, h₄⟩ => ⟨h₁, h₂, h₃, h₄⟩, fun ⟨h₁, h₂, h₃, h₄⟩ => ⟨h₁, h₂, h₃, h₄⟩⟩

instance (slot : Slot) (slotDuration : Duration) (maxAllowableDrift : MaxAllowableDrift)
    (epochStartSlot : Slot) (epochStartTimestamp : ℤ) :
    Decidable (EpochStartFits slot slotDuration maxAllowableDrift epochStartSlot
      epochStartTimestamp) :=
  decidable_of_iff (epochStartSlot ≤ slot ∧ slot - epochStartSlot < 2 ^ 32 ∧
      0 ≤ epochStartTimestamp ∧ maxAllowableDrift.fast ≤ 100 ∧
      pohNanos slot slotDuration epochStartSlot * maxAllowableDrift.fast ≤ Duration.maxNanos ∧
      pohNanos slot slotDuration epochStartSlot * maxAllowableDrift.slow ≤ Duration.maxNanos ∧
      epochStartTimestamp +
        ((pohNanos slot slotDuration epochStartSlot / Duration.nanosPerSec : ℕ) : ℤ) +
        ((driftNanos (pohNanos slot slotDuration epochStartSlot) maxAllowableDrift.slow /
          Duration.nanosPerSec : ℕ) : ℤ) < 2 ^ 63)
    ⟨fun ⟨h₁, h₂, h₃, h₄, h₅, h₆, h₇⟩ => ⟨h₁, h₂, h₃, h₄, h₅, h₆, h₇⟩,
      fun ⟨h₁, h₂, h₃, h₄, h₅, h₆, h₇⟩ => ⟨h₁, h₂, h₃, h₄, h₅, h₆, h₇⟩⟩

section Estimate

variable {slot : Slot} {slotDuration : Duration}

lemma EntryFits.estimate_nonneg {entry : Key × Slot × ℤ} (h : EntryFits slot slotDuration entry) :
    0 ≤ exactEstimate slot slotDuration entry :=
  Int.add_nonneg h.timestamp_nonneg (Int.natCast_nonneg _)

lemma secs_lt_of_estimate_lt {n : ℕ} {ts : ℤ} (h0 : 0 ≤ ts)
    (h : ts + ((n / Duration.nanosPerSec : ℕ) : ℤ) < 2 ^ 63) :
    n / Duration.nanosPerSec < 2 ^ 63 := by
  omega

/-- A number of nanoseconds whose seconds fit an `i64` fits a `Duration`. -/
lemma le_maxNanos_of_secs_lt {n : ℕ} (h : n / Duration.nanosPerSec < 2 ^ 63) :
    n ≤ Duration.maxNanos := by
  have hn := Nat.lt_mul_of_div_lt h (by norm_num [Duration.nanosPerSec] : 0 < Duration.nanosPerSec)
  unfold Duration.maxNanos
  unfold Duration.nanosPerSec at hn ⊢
  omega

/-- Where nothing truncates, the estimate from a timestamp is the exact one. -/
lemma estimateOfTimestamp_eq {entry : Key × Slot × ℤ}
    (h : EntryFits slot slotDuration entry) :
    estimateOfTimestamp slot slotDuration entry.2.1 entry.2.2 =
      exactEstimate slot slotDuration entry := by
  have hnanos := le_maxNanos_of_secs_lt (secs_lt_of_estimate_lt h.timestamp_nonneg h.estimate_lt)
  have hest := h.estimate_lt
  unfold exactEstimate at hest ⊢
  unfold estimateOfTimestamp Duration.asSecs
  dsimp only
  rw [Nat.mod_eq_of_lt h.cast, Duration.toNanos_saturatingMul hnanos]
  exact Signed.saturatingAdd_ofUnsigned h.timestamp_nonneg hest

end Estimate

section Table

variable {stakes : Key → Option ℕ} {slot : Slot} {slotDuration : Duration}

lemma totalStakeOf_append_singleton (entries : List (Key × Slot × ℤ)) (entry : Key × Slot × ℤ) :
    totalStakeOf stakes (entries ++ [entry]) = totalStakeOf stakes entries + stakeOf stakes entry := by
  simp [totalStakeOf]

lemma cumulativeStake_append_singleton (entries : List (Key × Slot × ℤ)) (entry : Key × Slot × ℤ)
    (e : ℤ) :
    cumulativeStake stakes slot slotDuration (entries ++ [entry]) e =
      cumulativeStake stakes slot slotDuration entries e +
        if exactEstimate slot slotDuration entry ≤ e then stakeOf stakes entry else 0 := by
  unfold cumulativeStake
  by_cases h : exactEstimate slot slotDuration entry ≤ e <;> simp [h, totalStakeOf]

/-- Where nothing truncates and the total stays below `u128::MAX`, one step of the first loop adds
the stake at the exact estimate and to the total. -/
lemma addTimestamp_eq {acc : List (ℤ × ℕ) × ℕ} {entry : Key × Slot × ℤ}
    (hentry : EntryFits slot slotDuration entry) (hfit : acc.2 + stakeOf stakes entry ≤ 2 ^ 128 - 1) :
    addTimestamp stakes slot slotDuration acc entry =
      (SortedMap.upsert (fun stakeSum => Saturating.add 128 stakeSum (stakeOf stakes entry))
        (exactEstimate slot slotDuration entry) (stakeOf stakes entry) acc.1,
        acc.2 + stakeOf stakes entry) := by
  obtain ⟨votePubkey, timestampSlot, timestamp⟩ := entry
  have hest := estimateOfTimestamp_eq hentry
  unfold stakeOf at hfit ⊢
  simp only at hest hfit
  simp only [addTimestamp, hest, Saturating.add_of_le hfit]

/-- What the first loop has built after the entries `done`: the stake per estimate as a map in
key order whose keys are the estimates of `done` and whose sums up to any bound are the stakes
of the estimates up to it, and the total stake of `done`. -/
structure StakeTable (stakes : Key → Option ℕ) (slot : Slot) (slotDuration : Duration)
    (done : List (Key × Slot × ℤ)) (acc : List (ℤ × ℕ) × ℕ) : Prop where
  sorted : SortedMap.Sorted acc.1
  mem_keys : ∀ e, e ∈ acc.1.map (·.1) ↔ ∃ entry ∈ done, exactEstimate slot slotDuration entry = e
  prefixSum : ∀ e, SortedMap.prefixSum acc.1 e = cumulativeStake stakes slot slotDuration done e
  sum : (acc.1.map (·.2)).sum = totalStakeOf stakes done
  total : acc.2 = totalStakeOf stakes done

lemma stakeTable_nil : StakeTable stakes slot slotDuration [] ([], 0) where
  sorted := List.Pairwise.nil
  mem_keys := by simp
  prefixSum _ := rfl
  sum := rfl
  total := rfl

lemma StakeTable.addTimestamp {done : List (Key × Slot × ℤ)} {acc : List (ℤ × ℕ) × ℕ}
    {entry : Key × Slot × ℤ} (hT : StakeTable stakes slot slotDuration done acc)
    (hentry : EntryFits slot slotDuration entry)
    (hfit : totalStakeOf stakes (done ++ [entry]) < 2 ^ 128) :
    StakeTable stakes slot slotDuration (done ++ [entry])
      (addTimestamp stakes slot slotDuration acc entry) := by
  rw [totalStakeOf_append_singleton] at hfit
  -- no value of the map exceeds the total, so adding the stake to one does not saturate
  have hadd : ∀ p ∈ acc.1, p.1 = exactEstimate slot slotDuration entry →
      Saturating.add 128 p.2 (stakeOf stakes entry) = p.2 + stakeOf stakes entry := by
    intro p hp _
    have hle : p.2 ≤ totalStakeOf stakes done :=
      hT.sum ▸ List.le_sum_of_mem (List.mem_map_of_mem hp)
    apply Saturating.add_of_le
    omega
  rw [addTimestamp_eq hentry (by rw [hT.total]; omega)]
  refine ⟨SortedMap.sorted_upsert hT.sorted, fun e => ?_, fun e => ?_, ?_, ?_⟩
  · rw [SortedMap.mem_keys_upsert, hT.mem_keys]
    simp only [List.mem_append, List.mem_singleton]
    constructor
    · rintro (rfl | ⟨entry', hmem, heq⟩)
      · exact ⟨entry, .inr rfl, rfl⟩
      · exact ⟨entry', .inl hmem, heq⟩
    · rintro ⟨entry', hmem | rfl, heq⟩
      · exact .inr ⟨entry', hmem, heq⟩
      · exact .inl heq.symm
  · rw [SortedMap.prefixSum_upsert _ hadd, hT.prefixSum, cumulativeStake_append_singleton]
  · rw [SortedMap.sum_upsert _ hadd, hT.sum, totalStakeOf_append_singleton]
  · rw [hT.total, totalStakeOf_append_singleton]

/-- The run of the first loop: the table is kept over every entry, where each entry fits and the
total stake stays below `u128::MAX`. -/
lemma stakeTable_foldl (rest : List (Key × Slot × ℤ)) :
    ∀ (done : List (Key × Slot × ℤ)) (acc : List (ℤ × ℕ) × ℕ),
      StakeTable stakes slot slotDuration done acc →
      (∀ entry ∈ rest, EntryFits slot slotDuration entry) →
      totalStakeOf stakes (done ++ rest) < 2 ^ 128 →
      StakeTable stakes slot slotDuration (done ++ rest)
        (rest.foldl (addTimestamp stakes slot slotDuration) acc) := by
  induction rest with
  | nil =>
    intro done acc hT _ _
    simpa using hT
  | cons entry rest ih =>
    intro done acc hT hfits hfit
    rw [List.append_cons] at hfit ⊢
    have hle : totalStakeOf stakes (done ++ [entry]) ≤ totalStakeOf stakes (done ++ [entry] ++ rest) := by
      simp [totalStakeOf]
    exact ih _ _ (hT.addTimestamp (hfits entry List.mem_cons_self) (by omega))
      (fun e he => hfits e (List.mem_cons_of_mem _ he)) hfit

end Table

/-- The loop that picks the median, on a map in key order whose values add up below
`u128::MAX` and pass `half` from an accumulator not past it: the key it returns is the least at
which the stake accumulated passes `half`. -/
lemma medianLoop_spec (half : ℕ) (m : List (ℤ × ℕ)) : ∀ acc, SortedMap.Sorted m → acc ≤ half →
    acc + (m.map (·.2)).sum ≤ 2 ^ 128 - 1 → half < acc + (m.map (·.2)).sum →
    medianLoop half acc m ∈ m.map (·.1) ∧
      half < acc + SortedMap.prefixSum m (medianLoop half acc m) ∧
      ∀ k ∈ m.map (·.1), half < acc + SortedMap.prefixSum m k → medianLoop half acc m ≤ k := by
  induction m with
  | nil =>
    intro acc _ hacc _ hhalf
    simp at hhalf
    omega
  | cons p rest ih =>
    obtain ⟨k₀, v₀⟩ := p
    intro acc hsorted hacc hfit hhalf
    obtain ⟨hhead, hrest⟩ := SortedMap.sorted_cons.mp hsorted
    simp only [List.map_cons, List.sum_cons] at hfit hhalf
    -- the keys of the rest lie above the head: up to the head only its value is summed, and up
    -- to a key of the rest the head's value and the rest's
    have hzero : SortedMap.prefixSum rest k₀ = 0 :=
      SortedMap.prefixSum_eq_zero fun q hq => hhead q hq
    have hafter : ∀ k ∈ rest.map (·.1), SortedMap.prefixSum ((k₀, v₀) :: rest) k =
        v₀ + SortedMap.prefixSum rest k := by
      intro k hk
      obtain ⟨q, hq, rfl⟩ := List.mem_map.mp hk
      rw [SortedMap.prefixSum_cons, if_pos (hhead q hq).le]
    have hsat : Saturating.add 128 acc v₀ = acc + v₀ := Saturating.add_of_le (by omega)
    rw [medianLoop, hsat]
    by_cases hpass : acc + v₀ > half
    · rw [if_pos hpass]
      refine ⟨List.mem_cons_self, ?_, ?_⟩
      · rw [SortedMap.prefixSum_cons, if_pos le_rfl, hzero]
        omega
      · intro k hk _
        rcases List.mem_cons.mp hk with rfl | hk
        · exact le_rfl
        · obtain ⟨q, hq, rfl⟩ := List.mem_map.mp hk
          exact (hhead q hq).le
    · rw [if_neg hpass]
      obtain ⟨hmem, hlt, hleast⟩ := ih (acc + v₀) hrest (by omega) (by omega) (by omega)
      refine ⟨List.mem_cons_of_mem _ hmem, ?_, ?_⟩
      · rw [hafter _ hmem]
        omega
      · intro k hk hk_half
        rcases List.mem_cons.mp hk with rfl | hk
        · -- up to the head only its value is summed, which does not pass `half`
          rw [SortedMap.prefixSum_cons, if_pos le_rfl, hzero] at hk_half
          omega
        · rw [hafter _ hk] at hk_half
          exact hleast k hk (by omega)

/-- The loop that picks the median, run on the table of all entries, returns their
stake-weighted median. -/
lemma StakeTable.isStakeWeightedMedian {stakes : Key → Option ℕ} {slot : Slot}
    {slotDuration : Duration} {done : List (Key × Slot × ℤ)} {acc : List (ℤ × ℕ) × ℕ}
    (hT : StakeTable stakes slot slotDuration done acc)
    (hstakes : totalStakeOf stakes done < 2 ^ 128) (h0 : totalStakeOf stakes done ≠ 0) :
    IsStakeWeightedMedian stakes slot slotDuration done
      (medianLoop (totalStakeOf stakes done / 2) 0 acc.1) := by
  have hsum : 0 + (acc.1.map (·.2)).sum = totalStakeOf stakes done := by
    rw [Nat.zero_add, hT.sum]
  obtain ⟨hmem, hhalf, hleast⟩ :=
    medianLoop_spec (totalStakeOf stakes done / 2) acc.1 0 hT.sorted (Nat.zero_le _) (by omega)
      (by omega)
  refine ⟨(hT.mem_keys _).mp hmem, ?_, fun entry hentry hentry_half => ?_⟩
  · rw [← hT.prefixSum]
    omega
  · apply hleast _ ((hT.mem_keys _).mpr ⟨entry, hentry, rfl⟩)
    rw [hT.prefixSum]
    omega

section Drift

variable {slot : Slot} {slotDuration : Duration} {maxAllowableDrift : MaxAllowableDrift}
  {epochStartSlot : Slot} {epochStartTimestamp : ℤ}

/-- The fast drift is at most the PoH estimate. -/
lemma driftNanos_le {poh percent : ℕ} (h : percent ≤ 100) : driftNanos poh percent ≤ poh := by
  have hmul : poh * percent ≤ poh * 100 := Nat.mul_le_mul_left _ h
  unfold driftNanos
  omega

/-- Where nothing in the window truncates, the median is held to the window in exact
arithmetic. -/
lemma boundByDrift_eq
    (h : EpochStartFits slot slotDuration maxAllowableDrift epochStartSlot epochStartTimestamp)
    {m : ℤ} (hm0 : 0 ≤ m) (hm : m < 2 ^ 63) :
    boundByDrift slot slotDuration maxAllowableDrift true m
        (some (epochStartSlot, epochStartTimestamp)) =
      boundedEstimate (pohNanos slot slotDuration epochStartSlot)
        (driftNanos (pohNanos slot slotDuration epochStartSlot) maxAllowableDrift.fast)
        (driftNanos (pohNanos slot slotDuration epochStartSlot) maxAllowableDrift.slow)
        epochStartTimestamp m := by
  have hts := h.timestamp_nonneg
  have hlate := h.late_lt
  have hfast : driftNanos (pohNanos slot slotDuration epochStartSlot) maxAllowableDrift.fast ≤
      pohNanos slot slotDuration epochStartSlot := driftNanos_le h.fast_le
  set poh := pohNanos slot slotDuration epochStartSlot
  rw [Duration.nanosPerSec_eq] at hlate
  have hpoh_secs : poh / Duration.nanosPerSec < 2 ^ 63 := by
    rw [Duration.nanosPerSec_eq]
    omega
  -- the offsets and drifts as durations, in nanoseconds
  have hP : (slotDuration.saturatingMul ((slot - epochStartSlot) % 2 ^ 32)).toNanos = poh := by
    rw [Nat.mod_eq_of_lt h.cast]
    exact Duration.toNanos_saturatingMul (le_maxNanos_of_secs_lt hpoh_secs)
  have hF : ((slotDuration.saturatingMul ((slot - epochStartSlot) % 2 ^ 32)).saturatingMul
      maxAllowableDrift.fast).toNanos = poh * maxAllowableDrift.fast := by
    rw [Duration.toNanos_saturatingMul (hP ▸ h.fast_fits), hP]
  have hS : ((slotDuration.saturatingMul ((slot - epochStartSlot) % 2 ^ 32)).saturatingMul
      maxAllowableDrift.slow).toNanos = poh * maxAllowableDrift.slow := by
    rw [Duration.toNanos_saturatingMul (hP ▸ h.slow_fits), hP]
  have hoff : Signed.toUnsigned 64 m - Signed.toUnsigned 64 epochStartTimestamp =
      (m - epochStartTimestamp).toNat := by
    rw [Signed.toUnsigned_of_lt hm0 (by omega), Signed.toUnsigned_of_lt hts (by omega)]
    omega
  have hO : (Duration.fromSecs (m - epochStartTimestamp).toNat).toNanos =
      (m - epochStartTimestamp).toNat * Duration.nanosPerSec :=
    Duration.toNanos_fromSecs (by omega)
  simp only [boundByDrift, if_true, hoff, Duration.lt_iff, Duration.toNanos_saturatingSub,
    Duration.toNanos_div, Duration.asSecs, hP, hF, hS, hO]
  unfold boundedEstimate
  dsimp only
  rw [Duration.divNanos_hundred, Duration.divNanos_hundred, ← driftNanos, ← driftNanos,
    Duration.nanosPerSec_eq]
  set offset := (m - epochStartTimestamp).toNat * 1000000000
  by_cases hslow : poh + driftNanos poh maxAllowableDrift.slow < offset
  · -- too late: the PoH estimate plus the slow drift
    rw [if_pos ⟨by omega, by omega⟩, if_pos hslow,
      Signed.saturatingAdd_ofUnsigned hts (by omega),
      Signed.saturatingAdd_ofUnsigned (by omega) (by omega)]
  · by_cases hearly : offset + driftNanos poh maxAllowableDrift.fast < poh
    · -- too early: the PoH estimate less the fast drift
      have hlt : offset < poh := Nat.lt_of_le_of_lt (Nat.le_add_right _ _) hearly
      rw [if_neg (by omega), if_pos ⟨hlt, by omega⟩, if_neg hslow, if_pos hearly,
        Signed.saturatingAdd_ofUnsigned hts (by omega),
        Signed.saturatingSub_ofUnsigned (by omega) (by omega)]
    · rw [if_neg (by omega), if_neg (by omega), if_neg hslow, if_neg hearly]

end Drift

/-- The median of two distinct estimates is the one whose stake passes half. -/
lemma IsStakeWeightedMedian.unique {stakes : Key → Option ℕ} {slot : Slot}
    {slotDuration : Duration} {entries : List (Key × Slot × ℤ)} {m m' : ℤ}
    (h : IsStakeWeightedMedian stakes slot slotDuration entries m)
    (h' : IsStakeWeightedMedian stakes slot slotDuration entries m') : m = m' := by
  obtain ⟨entry, hentry, rfl⟩ := h.mem
  obtain ⟨entry', hentry', rfl⟩ := h'.mem
  exact le_antisymm (h.le_of_half_lt entry' hentry' h'.half_lt)
    (h'.le_of_half_lt entry hentry h.half_lt)

/-- Where no estimate truncates, the stake stays below `u128::MAX` and nothing in the drift
window truncates, the stake-weighted timestamp is `None` exactly when the entries carry no stake,
and otherwise it is the stake-weighted median of the exact estimates held to the drift window. -/
theorem calculate_stake_weighted_timestamp_is_bounded_median
    (uniqueTimestamps : List (Key × Slot × ℤ)) (stakes : Key → Option ℕ) (slot : Slot)
    (slotDuration : Duration) (epochStartSlot : Slot) (epochStartTimestamp : ℤ)
    (maxAllowableDrift : MaxAllowableDrift)
    (hentries : ∀ entry ∈ uniqueTimestamps, EntryFits slot slotDuration entry)
    (hstakes : totalStakeOf stakes uniqueTimestamps < 2 ^ 128)
    (hstart : EpochStartFits slot slotDuration maxAllowableDrift epochStartSlot
      epochStartTimestamp) :
    (calculateStakeWeightedTimestamp uniqueTimestamps stakes slot slotDuration
        (some (epochStartSlot, epochStartTimestamp)) maxAllowableDrift true = none ↔
      totalStakeOf stakes uniqueTimestamps = 0) ∧
    (totalStakeOf stakes uniqueTimestamps ≠ 0 →
      ∃ m, IsStakeWeightedMedian stakes slot slotDuration uniqueTimestamps m ∧
        calculateStakeWeightedTimestamp uniqueTimestamps stakes slot slotDuration
            (some (epochStartSlot, epochStartTimestamp)) maxAllowableDrift true =
          some (boundedEstimate (pohNanos slot slotDuration epochStartSlot)
            (driftNanos (pohNanos slot slotDuration epochStartSlot) maxAllowableDrift.fast)
            (driftNanos (pohNanos slot slotDuration epochStartSlot) maxAllowableDrift.slow)
            epochStartTimestamp m)) := by
  have hT := stakeTable_foldl uniqueTimestamps [] ([], 0) stakeTable_nil hentries hstakes
  rw [List.nil_append] at hT
  unfold calculateStakeWeightedTimestamp
  generalize uniqueTimestamps.foldl (addTimestamp stakes slot slotDuration) ([], 0) = acc at hT ⊢
  obtain ⟨table, totalStake⟩ := acc
  have htotal : totalStake = totalStakeOf stakes uniqueTimestamps := hT.total
  dsimp only
  rw [htotal]
  refine ⟨by by_cases h0 : totalStakeOf stakes uniqueTimestamps = 0 <;> simp [h0], fun h0 => ?_⟩
  have hmedian := hT.isStakeWeightedMedian hstakes h0
  -- the median is the exact estimate of an entry, so it fits an `i64` and is not negative
  obtain ⟨entry, hentry, hm⟩ := hmedian.mem
  have hfits := hentries entry hentry
  refine ⟨_, hmedian, ?_⟩
  rw [if_neg h0, boundByDrift_eq hstart (hm ▸ hfits.estimate_nonneg) (hm ▸ hfits.estimate_lt)]

/-- Two votes whose estimates the drift window allows: the median is the later estimate, which
the votes' stakes pass half at. -/
theorem stake_weighted_timestamp_of_two_votes :
    ∃ m, IsStakeWeightedMedian (fun k => some (k + 1)) 10 (Duration.fromSecs 1)
        [(0, 5, 100), (1, 8, 110)] m ∧
      calculateStakeWeightedTimestamp [(0, 5, 100), (1, 8, 110)] (fun k => some (k + 1)) 10
          (Duration.fromSecs 1) (some (0, 100)) ⟨25, 50⟩ true =
        some (boundedEstimate (pohNanos 10 (Duration.fromSecs 1) 0)
          (driftNanos (pohNanos 10 (Duration.fromSecs 1) 0) 25)
          (driftNanos (pohNanos 10 (Duration.fromSecs 1) 0) 50) 100 m) :=
  (calculate_stake_weighted_timestamp_is_bounded_median [(0, 5, 100), (1, 8, 110)]
    (fun k => some (k + 1)) 10 (Duration.fromSecs 1) 0 100 ⟨25, 50⟩ (by decide) (by decide)
    (by decide)).2 (by decide)

example :
    calculateStakeWeightedTimestamp [(0, 5, 100), (1, 8, 110)] (fun k => some (k + 1)) 10
      (Duration.fromSecs 1) (some (0, 100)) ⟨25, 50⟩ true = some 112 := by
  decide

/-- A timestamp more than `u32::MAX` slots old: the cast of the slots since it to `u32` drops
them, so it is taken for a timestamp of the current slot, and the estimate falls below the drift
window where the exact one lies inside it. -/
theorem stale_timestamp_wraps_to_current_slot :
    calculateStakeWeightedTimestamp [((), 0, 0)] (fun _ => some 1) (2 ^ 32) (Duration.fromSecs 1)
        (some (1, 0)) ⟨25, 50⟩ true = some 3221225472 ∧
      exactEstimate (2 ^ 32) (Duration.fromSecs 1) ((), 0, 0) = 4294967296 := by
  decide +kernel

end VelasChain.Runtime
