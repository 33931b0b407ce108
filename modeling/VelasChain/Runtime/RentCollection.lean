import VelasChain.Sdk.EpochSchedule

/-!
# Eager rent collection partitions

Every bank collects rent from a slice of the pubkey space (`runtime/src/bank.rs`). A collection
cycle is cut into `partition_count` partitions, one for each slot of the cycle; a bank takes the
partitions from its parent's slot index, excluded, to its own, included, as a pair
`(start, end]` of partition indexes, and `pubkey_range_from_partition` turns the pair into a
closed range of pubkeys through the `u64` prefix of a pubkey, read big-endian. The pair `0..=0`
stands for the first partition of a cycle, and a pair `n..=n` (`n ≠ 0`) is nullified to a
single pubkey.

A cycle is one epoch (`use_multi_epoch_collection_cycle` false), or, for short epochs, the epochs
that fit in two days, aligned at the first normal epoch. `variable_cycle_partitions` splits a
bank's slot range at epoch boundaries, adding gapped partitions where slots are skipped across
one, and `get_partition_from_slot_indexes` shifts the start of a partition that opens an epoch
in the middle of a multi-epoch cycle, guessing that from `start_slot_index == 0 &&
end_slot_index != 1`.

A pubkey's partition is the one whose prefix interval holds its prefix (`partitionOfPubkey`).
The partitions a bank computes pass every assertion of `pubkey_range_from_partition`
(`variableCyclePartitions_ranges`), and in a single-epoch cycle the banks of a chain with a bank
in the epoch collect every pubkey of it (`chain_collects_every_pubkey`). In a multi-epoch cycle
the guess misfires: a chain skipping only the first slot of the cycle's second epoch never
collects the partition that slot opens, and a parent at the first slot of such an epoch makes
its child's bank panic.
-/

namespace VelasChain.Runtime.RentCollection

/-- `ClusterType`. -/
inductive ClusterType
  | testnet
  | mainnetBeta
  | devnet
  | development
  deriving DecidableEq, Repr

/-- `DEFAULT_TICKS_PER_SECOND`. -/
def defaultTicksPerSecond : ℕ := 160

/-- `SECONDS_PER_DAY`. -/
def secondsPerDay : ℕ := 24 * 60 * 60

/-- `Bank::slot_count_in_two_day_helper`. -/
def slotCountInTwoDayHelper (ticksPerSlot : ℕ) : ℕ :=
  2 * defaultTicksPerSecond * secondsPerDay / ticksPerSlot

/-- A `Partition`: start and end partition indexes, and the partition count of the cycle. -/
abbrev Partition := ℕ × ℕ × ℕ

/-! ### Pubkey ranges -/

/-- `PREFIX_MAX`, the largest `u64` prefix. -/
def prefixMax : ℕ := 2 ^ 64 - 1

/-- The width of one partition of the prefixes: `(PREFIX_MAX + 1) / partition_count`, computed
without overflow. -/
def partitionWidth (partitionCount : ℕ) : ℕ :=
  (prefixMax - partitionCount + 1) / partitionCount + 1

/-- `Bank::pubkey_range_from_partition`, the bounds of the pubkey range as the numbers their 32
bytes spell big-endian (the order of `Pubkey`); `none` where an assertion fails. The first eight
bytes of each bound are its prefix, the other bytes `0x00` for the start and `0xff` for the end,
except where `n..=n` makes both bounds one pubkey. -/
def pubkeyRangeFromPartition : Partition → Option (ℕ × ℕ)
  | (startIndex, endIndex, partitionCount) =>
    if ¬(startIndex ≤ endIndex ∧ startIndex < partitionCount ∧ endIndex < partitionCount ∧
        0 < partitionCount) then none
    else if partitionCount = 1 then
      if startIndex = 0 ∧ endIndex = 0 then some (0, 2 ^ 256 - 1) else none
    else
      let partitionWidth := partitionWidth partitionCount
      let startKeyPrefix :=
        if startIndex = 0 ∧ endIndex = 0 then 0
        else if startIndex + 1 = partitionCount then prefixMax
        else (startIndex + 1) * partitionWidth
      let endKeyPrefix :=
        if endIndex + 1 = partitionCount then prefixMax
        else (endIndex + 1) * partitionWidth - 1
      if startIndex ≠ 0 ∧ startIndex = endIndex then
        -- `n..=n`: both bounds become the start pubkey, or the all-`0xff` one at the end
        if endKeyPrefix = prefixMax then some (2 ^ 256 - 1, 2 ^ 256 - 1)
        else some (startKeyPrefix * 2 ^ 192, startKeyPrefix * 2 ^ 192)
      else some (startKeyPrefix * 2 ^ 192, endKeyPrefix * 2 ^ 192 + (2 ^ 192 - 1))

/-- The partition of `partition_count` that holds a pubkey: the prefix interval of partition `j`
starts at `j` partition widths, and the last partition runs to `PREFIX_MAX`. -/
def partitionOfPubkey (partitionCount : ℕ) (pubkey : ℕ) : ℕ :=
  min (pubkey / 2 ^ 192 / partitionWidth partitionCount) (partitionCount - 1)

/-- The partitions a pair of indexes stands for: `(start, end]`, and the first one for `0..=0`. -/
def Covers (p : Partition) (j : ℕ) : Prop :=
  if p.1 = 0 ∧ p.2.1 = 0 then j = 0 else p.1 < j ∧ j ≤ p.2.1

lemma partitionWidth_pos (partitionCount : ℕ) : 0 < partitionWidth partitionCount :=
  Nat.succ_pos _

/-- Where no assertion fails and `n..=n` does not apply, the range runs from the lowest pubkey of
the start prefix to the highest of the end prefix. -/
lemma pubkeyRangeFromPartition_eq {s e c : ℕ} (hse : s ≤ e) (hec : e < c) (hc : c ≠ 1)
    (hn : ¬(s ≠ 0 ∧ s = e)) :
    pubkeyRangeFromPartition (s, e, c) =
      some ((if s = 0 ∧ e = 0 then 0 else (s + 1) * partitionWidth c) * 2 ^ 192,
        (if e + 1 = c then prefixMax else (e + 1) * partitionWidth c - 1) * 2 ^ 192 +
          (2 ^ 192 - 1)) := by
  have hstart : s + 1 ≠ c ∨ s = 0 ∧ e = 0 := by omega
  simp only [pubkeyRangeFromPartition]
  rw [if_neg (by omega), if_neg hc, if_neg hn]
  rcases hstart with hstart | hzero
  · by_cases hzero : s = 0 ∧ e = 0
    · simp only [if_pos hzero]
    · simp only [if_neg hzero, if_neg hstart]
  · simp only [if_pos hzero]

/-- A pair that passes the first assertions passes them all: a cycle of one partition only has
`0..=0`. -/
lemma pubkeyRangeFromPartition_isSome {s e c : ℕ} (hse : s ≤ e) (hec : e < c) :
    (pubkeyRangeFromPartition (s, e, c)).isSome := by
  simp only [pubkeyRangeFromPartition]
  rw [if_neg (by omega)]
  split_ifs <;> first | rfl | omega

/-- A pubkey below the end of its prefix `p`. -/
private lemma le_of_div_le {k p : ℕ} (h : k / 2 ^ 192 ≤ p) : k ≤ p * 2 ^ 192 + (2 ^ 192 - 1) := by
  have hlt := Nat.lt_mul_div_succ k (Nat.two_pow_pos 192)
  have hle : 2 ^ 192 * (k / 2 ^ 192 + 1) ≤ 2 ^ 192 * (p + 1) := Nat.mul_le_mul_left _ (by omega)
  omega

/-- A pubkey lies in the range of every pair that stands for its partition. -/
theorem mem_pubkeyRangeFromPartition {s e c k : ℕ} (hse : s ≤ e) (hec : e < c)
    (hk : k < 2 ^ 256) (hcov : Covers (s, e, c) (partitionOfPubkey c k)) :
    ∃ range, pubkeyRangeFromPartition (s, e, c) = some range ∧ range.1 ≤ k ∧ k ≤ range.2 := by
  by_cases hc : c = 1
  · -- one partition: the whole pubkey space
    subst hc
    obtain ⟨rfl, rfl⟩ : s = 0 ∧ e = 0 := by omega
    exact ⟨_, rfl, Nat.zero_le _, by omega⟩
  have hw := partitionWidth_pos c
  unfold Covers partitionOfPubkey at hcov
  dsimp only at hcov
  split_ifs at hcov with hzero
  · -- `0..=0`: the prefix is below one width
    obtain ⟨rfl, rfl⟩ := hzero
    have hprefix : k / 2 ^ 192 / partitionWidth c = 0 := by omega
    rw [Nat.div_eq_zero_iff_lt hw] at hprefix
    rw [pubkeyRangeFromPartition_eq le_rfl hec hc (by omega), if_pos ⟨rfl, rfl⟩,
      if_neg (by omega)]
    exact ⟨_, rfl, Nat.zero_le _, le_of_div_le (by omega)⟩
  · -- `(s, e]`: the prefix is from `s + 1` widths on, and below `e + 1` widths unless `e` is last
    have hlow : (s + 1) * partitionWidth c ≤ k / 2 ^ 192 :=
      (Nat.le_div_iff_mul_le hw).mp (le_trans hcov.1 (min_le_left _ _))
    rw [pubkeyRangeFromPartition_eq hse hec hc (by omega), if_neg hzero]
    refine ⟨_, rfl, (Nat.le_div_iff_mul_le (Nat.two_pow_pos 192)).mp hlow, ?_⟩
    split_ifs with hlast
    · exact le_of_div_le (by unfold prefixMax; omega)
    · have hhigh : k / 2 ^ 192 / partitionWidth c < e + 1 := by omega
      rw [Nat.div_lt_iff_lt_mul hw] at hhigh
      exact le_of_div_le (by omega)

/-! ### Collection cycles -/

/-- `RentCollectionCycleParams`. -/
structure RentCollectionCycleParams where
  epoch : ℕ
  slotCountPerEpoch : ℕ
  inMultiEpochCycle : Bool
  baseEpoch : ℕ
  epochCountInCycle : ℕ
  partitionCount : ℕ
  deriving DecidableEq, Repr

/-- `Bank::rent_single_epoch_collection_cycle_params`. -/
def rentSingleEpochCollectionCycleParams (epoch slotCountPerEpoch : ℕ) :
    RentCollectionCycleParams :=
  ⟨epoch, slotCountPerEpoch, false, 0, 1, slotCountPerEpoch⟩

/-- `Bank::partition_index_from_slot_index`. -/
def partitionIndexFromSlotIndex (slotIndexInEpoch : ℕ) (params : RentCollectionCycleParams) : ℕ :=
  let epochOffset := params.epoch - params.baseEpoch
  let epochIndexInCycle := epochOffset % params.epochCountInCycle
  slotIndexInEpoch + epochIndexInCycle * params.slotCountPerEpoch

/-- `Bank::get_partition_from_slot_indexes`; `none` where its assertion fails. -/
def getPartitionFromSlotIndexes (cycleParams : RentCollectionCycleParams)
    (startSlotIndex endSlotIndex : ℕ) (generatedForGappedEpochs : Bool) : Option Partition :=
  let startPartitionIndex := partitionIndexFromSlotIndex startSlotIndex cycleParams
  let endPartitionIndex := partitionIndexFromSlotIndex endSlotIndex cycleParams
  let isSpecialNewEpoch := startSlotIndex = 0 ∧ endSlotIndex ≠ 1
  let inMiddleOfCycle := 0 < startPartitionIndex
  if cycleParams.inMultiEpochCycle ∧ isSpecialNewEpoch ∧ inMiddleOfCycle then
    -- the caller's indexes are one off where an epoch boundary was crossed
    if generatedForGappedEpochs then
      if startSlotIndex = endSlotIndex then
        some (startPartitionIndex - 1, endPartitionIndex - 1, cycleParams.partitionCount)
      else none
    else some (startPartitionIndex - 1, endPartitionIndex, cycleParams.partitionCount)
  else some (startPartitionIndex, endPartitionIndex, cycleParams.partitionCount)

/-- `Bank::get_partitions`, the partitions of a fixed cycle of `slot_count_in_two_day` slots. -/
def getPartitions (slot parentSlot slotCountInTwoDay : ℕ) : List Partition :=
  let parentCycle := parentSlot / slotCountInTwoDay
  let currentCycle := slot / slotCountInTwoDay
  let parentCycleIndex := parentSlot % slotCountInTwoDay
  let currentCycleIndex := slot % slotCountInTwoDay
  if parentCycle < currentCycle then
    -- gapped partitions where slots are skipped across the cycle boundary
    let gapped := if 0 < currentCycleIndex then
        [(parentCycleIndex, slotCountInTwoDay - 1, slotCountInTwoDay), (0, 0, slotCountInTwoDay)]
      else []
    gapped ++ [(0, currentCycleIndex, slotCountInTwoDay)]
  else [(parentCycleIndex, currentCycleIndex, slotCountInTwoDay)]

/-! ### Banks -/

/-- The fields of a bank that rent collection reads. -/
structure Bank where
  epochSchedule : EpochSchedule
  ticksPerSlot : ℕ
  clusterType : ClusterType
  slot : ℕ
  parentSlot : ℕ
  deriving DecidableEq, Repr

/-- The arguments of one call of `do_partition_from_slot_indexes` by `variable_cycle_partitions`. -/
structure SlotIndexes where
  startSlotIndex : ℕ
  endSlotIndex : ℕ
  epoch : ℕ
  generatedForGappedEpochs : Bool
  deriving DecidableEq, Repr

namespace Bank

variable (b : Bank)

/-- A child bank at `slot` (`Bank::new_from_parent`), with the parent's schedule and genesis. -/
def child (slot : ℕ) : Bank := { b with slot := slot, parentSlot := b.slot }

/-- `Bank::slot_count_in_two_day`. -/
def slotCountInTwoDay : ℕ := slotCountInTwoDayHelper b.ticksPerSlot

/-- `Bank::slot_count_per_normal_epoch`. -/
def slotCountPerNormalEpoch : ℕ :=
  b.epochSchedule.getSlotsInEpoch b.epochSchedule.firstNormalEpoch

/-- `Bank::use_multi_epoch_collection_cycle`, as built outside tests. -/
def useMultiEpochCollectionCycle (epoch : ℕ) : Bool :=
  if b.slotCountPerNormalEpoch = minimumSlotsPerEpoch then false
  else decide (b.epochSchedule.firstNormalEpoch ≤ epoch) &&
    decide (b.slotCountPerNormalEpoch < b.slotCountInTwoDay)

/-- `Bank::use_fixed_collection_cycle`, as built outside tests. -/
def useFixedCollectionCycle : Bool :=
  if b.slotCountPerNormalEpoch = minimumSlotsPerEpoch then false
  else decide (b.clusterType ≠ .mainnetBeta) &&
    decide (b.slotCountPerNormalEpoch < b.slotCountInTwoDay)

/-- `Bank::determine_collection_cycle_params`. -/
def determineCollectionCycleParams (epoch : ℕ) : RentCollectionCycleParams :=
  let slotCountPerEpoch := b.epochSchedule.getSlotsInEpoch epoch
  if !b.useMultiEpochCollectionCycle epoch then
    rentSingleEpochCollectionCycleParams epoch slotCountPerEpoch
  else
    let epochCountInCycle := b.slotCountInTwoDay / slotCountPerEpoch
    let partitionCount := slotCountPerEpoch * epochCountInCycle
    ⟨epoch, slotCountPerEpoch, true, b.epochSchedule.firstNormalEpoch, epochCountInCycle,
      partitionCount⟩

/-- `Bank::do_partition_from_slot_indexes`. -/
def doPartitionFromSlotIndexes (r : SlotIndexes) : Option Partition :=
  getPartitionFromSlotIndexes (b.determineCollectionCycleParams r.epoch) r.startSlotIndex
    r.endSlotIndex r.generatedForGappedEpochs

/-- The calls `variable_cycle_partitions` makes, in the order it pushes their partitions. -/
def variableCycleSlotIndexes : List SlotIndexes :=
  let (currentEpoch, currentSlotIndex) := b.epochSchedule.getEpochAndSlotIndex b.slot
  let (parentEpoch, parentSlotIndex) := b.epochSchedule.getEpochAndSlotIndex b.parentSlot
  if parentEpoch < currentEpoch then
    -- special partitions where slots are skipped exactly at the epoch transition
    let gapped := if 1 < b.slot - b.parentSlot then
        let parentLastSlotIndex := b.epochSchedule.getSlotsInEpoch parentEpoch - 1
        ⟨parentSlotIndex, parentLastSlotIndex, parentEpoch, true⟩ ::
          if 0 < currentSlotIndex then [⟨0, 0, currentEpoch, true⟩] else []
      else []
    gapped ++ [⟨0, currentSlotIndex, currentEpoch, false⟩]
  else [⟨parentSlotIndex, currentSlotIndex, currentEpoch, false⟩]

/-- `Bank::variable_cycle_partitions`; `none` where the bank panics. -/
def variableCyclePartitions : Option (List Partition) :=
  b.variableCycleSlotIndexes.mapM b.doPartitionFromSlotIndexes

/-- `Bank::fixed_cycle_partitions`. -/
def fixedCyclePartitions : List Partition := getPartitions b.slot b.parentSlot b.slotCountInTwoDay

/-- `Bank::rent_collection_partitions`. -/
def rentCollectionPartitions : Option (List Partition) :=
  if !b.useFixedCollectionCycle then b.variableCyclePartitions else some b.fixedCyclePartitions

/-- The banks of a chain after `b`, each the child of the one before, at the given slots. -/
def chain : Bank → List ℕ → List Bank
  | _, [] => []
  | parent, slot :: slots => parent.child slot :: chain (parent.child slot) slots

/-- A bank collects a pubkey for an epoch: some partition it computes for the epoch has a range
that holds the pubkey. -/
def Collects (epoch pubkey : ℕ) : Prop :=
  ∃ r ∈ b.variableCycleSlotIndexes, r.epoch = epoch ∧ ∃ p range,
    b.doPartitionFromSlotIndexes r = some p ∧ pubkeyRangeFromPartition p = some range ∧
      range.1 ≤ pubkey ∧ pubkey ≤ range.2

/-! ### The partitions of a bank -/

/-- What a successful `mapM` returns is made of what `f` returned on the list. -/
private lemma mem_of_mapM_eq_some {α β : Type} {f : α → Option β} :
    ∀ {l : List α} {bs : List β}, l.mapM f = some bs → ∀ b ∈ bs, ∃ a ∈ l, f a = some b
  | [], bs, h => by
    simp only [List.mapM_nil, Option.pure_def, Option.some.injEq] at h
    simp [← h]
  | a :: l, bs, h => by
    simp only [List.mapM_cons, Option.bind_eq_bind, Option.bind_eq_some_iff, Option.pure_def,
      Option.some.injEq] at h
    obtain ⟨b', hb', bs', hbs', rfl⟩ := h
    intro b hb
    rcases List.mem_cons.mp hb with rfl | hb
    · exact ⟨a, List.mem_cons_self, hb'⟩
    · obtain ⟨c, hc, hfc⟩ := mem_of_mapM_eq_some hbs' b hb
      exact ⟨c, List.mem_cons_of_mem a hc, hfc⟩

variable {b : Bank}

/-- The parent's slot and the bank's in the epochs of a valid schedule: offsets in epochs laid
end to end, the parent's epoch no later than the bank's. -/
lemma splits_parent_and_slot (hv : b.epochSchedule.Valid) (hparent : b.parentSlot < b.slot)
    (hslot : b.slot < 2 ^ 64) :
    Segments.Splits b.epochSchedule.getSlotsInEpoch b.parentSlot
        (b.epochSchedule.getEpochAndSlotIndex b.parentSlot).1
        (b.epochSchedule.getEpochAndSlotIndex b.parentSlot).2 ∧
      Segments.Splits b.epochSchedule.getSlotsInEpoch b.slot
        (b.epochSchedule.getEpochAndSlotIndex b.slot).1
        (b.epochSchedule.getEpochAndSlotIndex b.slot).2 ∧
      (b.epochSchedule.getEpochAndSlotIndex b.parentSlot).1 ≤
        (b.epochSchedule.getEpochAndSlotIndex b.slot).1 := by
  have hp := hv.splits_getEpochAndSlotIndex (hparent.trans hslot)
  have hs := hv.splits_getEpochAndSlotIndex hslot
  exact ⟨hp, hs, hp.index_le hs hparent.le⟩

/-- Every call `variable_cycle_partitions` makes is for slot indexes in order within the epoch. -/
lemma slotIndexes_le (hv : b.epochSchedule.Valid) (hparent : b.parentSlot < b.slot)
    (hslot : b.slot < 2 ^ 64) :
    ∀ r ∈ b.variableCycleSlotIndexes, r.startSlotIndex ≤ r.endSlotIndex ∧
      r.endSlotIndex < b.epochSchedule.getSlotsInEpoch r.epoch := by
  obtain ⟨hp, hs, hle⟩ := splits_parent_and_slot hv hparent hslot
  rcases hcur : b.epochSchedule.getEpochAndSlotIndex b.slot with ⟨ec, ic⟩
  rcases hpar : b.epochSchedule.getEpochAndSlotIndex b.parentSlot with ⟨ep, ip⟩
  rw [hcur] at hs hle
  rw [hpar] at hp hle
  obtain ⟨hic, hcs⟩ := hs
  obtain ⟨hip, hps⟩ := hp
  dsimp only at hic hcs hip hps hle
  have hpos := hv.getSlotsInEpoch_pos ep
  intro r hr
  simp only [variableCycleSlotIndexes, hcur, hpar] at hr
  split_ifs at hr with hcross hskip hnext <;>
    simp only [List.cons_append, List.nil_append, List.mem_cons, List.not_mem_nil, or_false] at hr
  · rcases hr with rfl | rfl | rfl
    · exact ⟨Nat.le_sub_one_of_lt hip, Nat.sub_lt hpos Nat.one_pos⟩
    · exact ⟨le_rfl, hv.getSlotsInEpoch_pos ec⟩
    · exact ⟨Nat.zero_le _, hic⟩
  · rcases hr with rfl | rfl
    · exact ⟨Nat.le_sub_one_of_lt hip, Nat.sub_lt hpos Nat.one_pos⟩
    · exact ⟨Nat.zero_le _, hic⟩
  · subst hr
    exact ⟨Nat.zero_le _, hic⟩
  · -- within one epoch, the parent's index is below the bank's
    obtain rfl : ep = ec := by omega
    subst hr
    exact ⟨show ip ≤ ic by omega, hic⟩

lemma useMultiEpochCollectionCycle_eq_true {epoch : ℕ}
    (h : b.useMultiEpochCollectionCycle epoch = true) :
    b.epochSchedule.firstNormalEpoch ≤ epoch ∧ b.slotCountPerNormalEpoch < b.slotCountInTwoDay := by
  unfold useMultiEpochCollectionCycle at h
  split_ifs at h
  simpa using h

/-- The parameters of a cycle count its partitions: `slot_count_per_epoch` partitions for each of
its epochs, and at least one epoch. -/
lemma determineCollectionCycleParams_count (hv : b.epochSchedule.Valid) (epoch : ℕ) :
    (b.determineCollectionCycleParams epoch).slotCountPerEpoch =
        b.epochSchedule.getSlotsInEpoch epoch ∧
      (b.determineCollectionCycleParams epoch).slotCountPerEpoch *
          (b.determineCollectionCycleParams epoch).epochCountInCycle =
        (b.determineCollectionCycleParams epoch).partitionCount ∧
      0 < (b.determineCollectionCycleParams epoch).epochCountInCycle := by
  unfold determineCollectionCycleParams
  cases hmulti : b.useMultiEpochCollectionCycle epoch with
  | false => exact ⟨rfl, Nat.mul_one _, Nat.one_pos⟩
  | true =>
    -- a multi-epoch cycle is for normal epochs shorter than two days
    obtain ⟨hnormal, hshort⟩ := useMultiEpochCollectionCycle_eq_true hmulti
    have hslots : b.epochSchedule.getSlotsInEpoch epoch = b.slotCountPerNormalEpoch := by
      rw [slotCountPerNormalEpoch, hv.getSlotsInEpoch_eq, hv.getSlotsInEpoch_eq,
        if_neg (Nat.not_lt.mpr hnormal), if_neg (Nat.lt_irrefl _)]
    refine ⟨rfl, rfl, Nat.div_pos ?_ (hv.getSlotsInEpoch_pos epoch)⟩
    exact hslots ▸ hshort.le

/-- The partition of indexes in order within an epoch is in order within its cycle. -/
lemma getPartitionFromSlotIndexes_lt {params : RentCollectionCycleParams} {s e : ℕ}
    {gapped : Bool} {p : Partition} (hse : s ≤ e) (he : e < params.slotCountPerEpoch)
    (hcount : params.slotCountPerEpoch * params.epochCountInCycle = params.partitionCount)
    (hk : 0 < params.epochCountInCycle)
    (h : getPartitionFromSlotIndexes params s e gapped = some p) : p.1 ≤ p.2.1 ∧ p.2.1 < p.2.2 := by
  -- the epoch's place in the cycle leaves room for its partitions
  have hm := Nat.mod_lt (params.epoch - params.baseEpoch) hk
  have hend : e + (params.epoch - params.baseEpoch) % params.epochCountInCycle *
      params.slotCountPerEpoch < params.partitionCount := by
    calc e + (params.epoch - params.baseEpoch) % params.epochCountInCycle * params.slotCountPerEpoch
        < ((params.epoch - params.baseEpoch) % params.epochCountInCycle + 1) *
            params.slotCountPerEpoch := by rw [Nat.succ_mul]; omega
      _ ≤ params.epochCountInCycle * params.slotCountPerEpoch := Nat.mul_le_mul_right _ hm
      _ = params.partitionCount := by rw [Nat.mul_comm, hcount]
  unfold getPartitionFromSlotIndexes partitionIndexFromSlotIndex at h
  dsimp only at h
  split_ifs at h <;> cases h <;> dsimp only <;> omega

/-- Every partition a bank computes passes the assertions of `pubkey_range_from_partition`. -/
theorem variableCyclePartitions_ranges (hv : b.epochSchedule.Valid)
    (hparent : b.parentSlot < b.slot) (hslot : b.slot < 2 ^ 64) {ps : List Partition}
    (h : b.variableCyclePartitions = some ps) : ∀ p ∈ ps, (pubkeyRangeFromPartition p).isSome := by
  intro p hp
  obtain ⟨r, hr, hrp⟩ := mem_of_mapM_eq_some h p hp
  obtain ⟨hse, he⟩ := slotIndexes_le hv hparent hslot r hr
  obtain ⟨hN, hcount, hk⟩ := determineCollectionCycleParams_count hv r.epoch
  obtain ⟨hle, hlt⟩ := getPartitionFromSlotIndexes_lt hse (hN ▸ he) hcount hk hrp
  exact pubkeyRangeFromPartition_isSome hle hlt

/-! ### Single-epoch cycles -/

/-- In a single-epoch cycle, the partition of a call is its pair of slot indexes. -/
lemma doPartitionFromSlotIndexes_of_single {r : SlotIndexes}
    (h : b.useMultiEpochCollectionCycle r.epoch = false) :
    b.doPartitionFromSlotIndexes r =
      some (r.startSlotIndex, r.endSlotIndex, b.epochSchedule.getSlotsInEpoch r.epoch) := by
  simp [doPartitionFromSlotIndexes, determineCollectionCycleParams, h,
    getPartitionFromSlotIndexes, partitionIndexFromSlotIndex, rentSingleEpochCollectionCycleParams,
    Nat.mod_one]

lemma variableCycleSlotIndexes_of_lt {ec ic ep ip : ℕ}
    (hcur : b.epochSchedule.getEpochAndSlotIndex b.slot = (ec, ic))
    (hpar : b.epochSchedule.getEpochAndSlotIndex b.parentSlot = (ep, ip)) (hcross : ep < ec) :
    b.variableCycleSlotIndexes =
      (if 1 < b.slot - b.parentSlot then
        ⟨ip, b.epochSchedule.getSlotsInEpoch ep - 1, ep, true⟩ ::
          if 0 < ic then [⟨0, 0, ec, true⟩] else []
      else []) ++ [⟨0, ic, ec, false⟩] := by
  simp only [variableCycleSlotIndexes, hcur, hpar, if_pos hcross]

lemma variableCycleSlotIndexes_of_not_lt {ec ic ep ip : ℕ}
    (hcur : b.epochSchedule.getEpochAndSlotIndex b.slot = (ec, ic))
    (hpar : b.epochSchedule.getEpochAndSlotIndex b.parentSlot = (ep, ip)) (hsame : ¬ep < ec) :
    b.variableCycleSlotIndexes = [⟨ip, ic, ec, false⟩] := by
  simp only [variableCycleSlotIndexes, hcur, hpar, if_neg hsame]

/-- How many partitions of epoch `E` a chain has reached at a slot: none before the epoch, up to
the slot's own within it, and all of them after it. -/
def progress (sched : EpochSchedule) (E slot : ℕ) : ℕ :=
  if sched.getEpoch slot < E then 0
  else if sched.getEpoch slot = E then (sched.getEpochAndSlotIndex slot).2 + 1
  else sched.getSlotsInEpoch E

/-- A bank computes partitions of epoch `E` for every partition from its parent's progress to
its own, unless it jumps over the whole epoch. -/
lemma covers_of_progress (hv : b.epochSchedule.Valid) (hparent : b.parentSlot < b.slot)
    (hslot : b.slot < 2 ^ 64) {E j : ℕ}
    (hjump : ¬(b.epochSchedule.getEpoch b.parentSlot < E ∧ E < b.epochSchedule.getEpoch b.slot))
    (hj : progress b.epochSchedule E b.parentSlot ≤ j)
    (hj' : j < progress b.epochSchedule E b.slot) :
    ∃ r ∈ b.variableCycleSlotIndexes, r.epoch = E ∧
      Covers (r.startSlotIndex, r.endSlotIndex, b.epochSchedule.getSlotsInEpoch E) j := by
  obtain ⟨hp, hs, hle⟩ := splits_parent_and_slot hv hparent hslot
  rcases hcur : b.epochSchedule.getEpochAndSlotIndex b.slot with ⟨ec, ic⟩
  rcases hpar : b.epochSchedule.getEpochAndSlotIndex b.parentSlot with ⟨ep, ip⟩
  rw [hcur] at hs hle
  rw [hpar] at hp hle
  obtain ⟨hic, hcs⟩ := hs
  obtain ⟨hip, hps⟩ := hp
  dsimp only at hic hcs hip hps hle
  simp only [progress, EpochSchedule.getEpoch, hcur, hpar] at hj hj' hjump
  -- a bank one slot after its parent in a later epoch is at the start of its epoch, and its
  -- parent at the end of the one before
  have hnext : ep < ec → ¬1 < b.slot - b.parentSlot →
      ip + 1 = b.epochSchedule.getSlotsInEpoch ep ∧ ic = 0 := by
    intro hcross hskip
    have : Segments.start b.epochSchedule.getSlotsInEpoch ep + b.epochSchedule.getSlotsInEpoch ep ≤
        Segments.start b.epochSchedule.getSlotsInEpoch ec := Segments.start_add_len_le hcross
    omega
  unfold Covers
  rcases lt_trichotomy ep E with hpE | rfl | hpE
  · -- the parent is before the epoch: the bank is in it, from its first partition on
    obtain rfl : ec = E := by
      rcases lt_trichotomy ec E with hcE | hcE | hcE
      · simp [hcE] at hj'
      · exact hcE
      · exact absurd ⟨hpE, hcE⟩ hjump
    simp only [if_pos hpE, if_neg (Nat.lt_irrefl _), if_true] at hj hj'
    rw [variableCycleSlotIndexes_of_lt hcur hpar hpE]
    by_cases hj0 : j = 0
    · subst hj0
      by_cases hic0 : ic = 0
      · exact ⟨⟨0, ic, ec, false⟩, by simp, rfl, by simp [hic0]⟩
      · -- the bank is not at the first slot of its epoch, so it skipped slots
        have hskip : 1 < b.slot - b.parentSlot := by
          by_contra hskip
          exact hic0 (hnext hpE hskip).2
        exact ⟨⟨0, 0, ec, true⟩, by simp [hskip, Nat.pos_of_ne_zero hic0], rfl, by simp⟩
    · exact ⟨⟨0, ic, ec, false⟩, by simp, rfl, by dsimp only; split_ifs <;> omega⟩
  · -- the parent is in the epoch: the bank goes on in it, or leaves it
    simp only [Nat.lt_irrefl, if_false, if_true] at hj
    rcases Nat.lt_or_eq_of_le hle with hcross | rfl
    · simp only [Nat.not_lt.mpr hcross.le, hcross.ne', if_false] at hj'
      -- a bank just after the end of the epoch leaves no partition of it behind
      have hskip : 1 < b.slot - b.parentSlot := by
        by_contra hskip
        have := (hnext hcross hskip).1
        omega
      rw [variableCycleSlotIndexes_of_lt hcur hpar hcross]
      exact ⟨⟨ip, b.epochSchedule.getSlotsInEpoch ep - 1, ep, true⟩, by simp [hskip], rfl,
        by dsimp only; split_ifs <;> omega⟩
    · simp only [Nat.lt_irrefl, if_false, if_true] at hj'
      rw [variableCycleSlotIndexes_of_not_lt hcur hpar (Nat.lt_irrefl _)]
      exact ⟨_, List.mem_singleton_self _, rfl, by dsimp only; split_ifs <;> omega⟩
  · -- the parent is past the epoch, and so is the bank
    have hcE := hpE.trans_le hle
    simp only [Nat.not_lt.mpr hpE.le, hpE.ne', if_false] at hj
    simp only [Nat.not_lt.mpr hcE.le, hcE.ne', if_false] at hj'
    omega

/-! ### Chains of banks -/

/-- The banks of a chain are its pairs of consecutive slots, each bank at the second slot of a
pair with its parent at the first. -/
lemma chain_eq_map (slots : List ℕ) :
    b.chain slots = ((b.slot :: slots).zip slots).map fun p =>
      { b with slot := p.2, parentSlot := p.1 } := by
  induction slots generalizing b with
  | nil => rfl
  | cons s slots ih =>
    rw [chain, ih, List.zip_cons_cons, List.map_cons]
    rfl

/-- The epoch of a slot never decreases along a strictly increasing list of `u64` slots. -/
lemma getEpoch_le_of_le (hv : b.epochSchedule.Valid) {s t : ℕ} (hst : s ≤ t) (ht : t < 2 ^ 64) :
    b.epochSchedule.getEpoch s ≤ b.epochSchedule.getEpoch t :=
  (hv.splits_getEpochAndSlotIndex (lt_of_le_of_lt hst ht)).index_le
    (hv.splits_getEpochAndSlotIndex ht) hst

/-- In a single-epoch cycle, the banks of a chain from before an epoch to after it, with a bank
in the epoch, collect every pubkey for the epoch. -/
theorem chain_collects_every_pubkey (hv : b.epochSchedule.Valid) {slots : List ℕ}
    (hsorted : (b.slot :: slots).Pairwise (· < ·)) (hlt : ∀ s ∈ slots, s < 2 ^ 64) {E : ℕ}
    (hsingle : b.useMultiEpochCollectionCycle E = false)
    (hbefore : b.epochSchedule.getEpoch b.slot < E)
    (hafter : E < b.epochSchedule.getEpoch ((b.slot :: slots).getLast (List.cons_ne_nil _ _)))
    (hin : ∃ s ∈ slots, b.epochSchedule.getEpoch s = E) {pubkey : ℕ} (hk : pubkey < 2 ^ 256) :
    ∃ c ∈ b.chain slots, c.Collects E pubkey := by
  have hj : partitionOfPubkey (b.epochSchedule.getSlotsInEpoch E) pubkey <
      b.epochSchedule.getSlotsInEpoch E :=
    lt_of_le_of_lt (min_le_right _ _) (Nat.sub_lt (hv.getSlotsInEpoch_pos E) Nat.one_pos)
  -- the chain goes from no partition of the epoch to all of them, so a pair of consecutive
  -- banks crosses the pubkey's partition
  have hstart : progress b.epochSchedule E b.slot = 0 := by simp [progress, hbefore]
  have hend : progress b.epochSchedule E ((b.slot :: slots).getLast (List.cons_ne_nil _ _)) =
      b.epochSchedule.getSlotsInEpoch E := by
    simp [progress, Nat.not_lt.mpr hafter.le, hafter.ne']
  obtain ⟨⟨p, s⟩, hps, hjp, hjs⟩ := Segments.exists_zip_of_le_of_lt (progress b.epochSchedule E)
    b.slot slots (hstart ▸ Nat.zero_le _) (lt_of_lt_of_eq hj hend.symm)
  have hpsl : p < s := Segments.rel_of_mem_zip hsorted _ hps
  have hs : s < 2 ^ 64 := hlt s (List.of_mem_zip hps).2
  -- the pair does not jump over the epoch, since some bank of the chain is in it
  have hjump : ¬(b.epochSchedule.getEpoch p < E ∧ E < b.epochSchedule.getEpoch s) := by
    rintro ⟨hpE, hEs⟩
    obtain ⟨t, ht, rfl⟩ := hin
    rcases Segments.le_or_le_of_mem_zip hsorted _ hps t (List.mem_cons_of_mem _ ht) with htp | hst
    · exact absurd (getEpoch_le_of_le hv htp (hpsl.trans hs)) (Nat.not_le.mpr hpE)
    · exact absurd (getEpoch_le_of_le hv hst (hlt t ht)) (Nat.not_le.mpr hEs)
  -- the bank at the pair's second slot computes a partition of the epoch holding the pubkey
  obtain ⟨r, hr, hrE, hcov⟩ :=
    covers_of_progress (b := { b with slot := s, parentSlot := p }) hv hpsl hs hjump hjp hjs
  obtain ⟨hse, hre⟩ := slotIndexes_le (b := { b with slot := s, parentSlot := p }) hv hpsl hs r hr
  rw [hrE] at hre
  obtain ⟨range, hrange, hmem⟩ := mem_pubkeyRangeFromPartition hse hre hk hcov
  refine ⟨_, ?_, r, hr, hrE, _, range, ?_, hrange, hmem⟩
  · rw [chain_eq_map]
    exact List.mem_map_of_mem hps
  · rw [doPartitionFromSlotIndexes_of_single (hrE ▸ hsingle), hrE]

/-- Whether a bank collects a pubkey, as a computation over its calls. -/
lemma collects_iff {epoch pubkey : ℕ} : b.Collects epoch pubkey ↔
    ∃ r ∈ b.variableCycleSlotIndexes, r.epoch = epoch ∧
      ((b.doPartitionFromSlotIndexes r).bind pubkeyRangeFromPartition).any
        (fun range => decide (range.1 ≤ pubkey ∧ pubkey ≤ range.2)) = true := by
  unfold Collects
  simp only [Option.any_eq_true, Option.bind_eq_some_iff, decide_eq_true_eq]
  grind

instance {epoch pubkey : ℕ} : Decidable (b.Collects epoch pubkey) :=
  decidable_of_iff _ b.collects_iff.symm

/-! ### Multi-epoch cycles -/

/-- A bank at slot 65 of a cluster with 33-slot epochs and no warmup, at 418909 ticks per slot, so
that two days are 66 slots: a collection cycle is two epochs, and slots 66 to 131 are the cycle
of epochs 2 and 3. -/
def shortEpochBank : Bank := ⟨⟨33, 33, false, 0, 0⟩, 418909, .mainnetBeta, 65, 64⟩

/-- A chain through the cycle that skips slot 99, the first of its second epoch, collects
partition 33 of the cycle nowhere but in the one pubkey that `32..=32` is nullified to: the bank
at slot 100 shifts the gapped `0..=0` of epoch 3 back onto partition 32, and, its end index being
1, leaves its own `0..=1` unshifted, from partition 33. A parent at slot 99 instead makes its
child after a gap panic on `assert_eq!(start_slot_index, end_slot_index)`. -/
theorem multi_epoch_rent_cycle_misses_a_partition :
    EpochSchedule.custom 33 33 false = some shortEpochBank.epochSchedule ∧
      shortEpochBank.useFixedCollectionCycle = false ∧
      shortEpochBank.determineCollectionCycleParams 2 = ⟨2, 33, true, 0, 2, 66⟩ ∧
      shortEpochBank.determineCollectionCycleParams 3 = ⟨3, 33, true, 0, 2, 66⟩ ∧
      shortEpochBank.epochSchedule.getFirstSlotInEpoch 2 = 66 ∧
      shortEpochBank.epochSchedule.getLastSlotInEpoch 3 = 131 ∧
      (∀ c ∈ shortEpochBank.chain [98, 100, 132], ∃ ps, c.variableCyclePartitions = some ps ∧
        ∀ p ∈ ps, (pubkeyRangeFromPartition p).isSome) ∧
      33 * partitionWidth 66 * 2 ^ 192 + 1 < 2 ^ 256 ∧
      (∀ c ∈ shortEpochBank.chain [98, 100, 132], ∀ E ∈ [2, 3],
        ¬c.Collects E (33 * partitionWidth 66 * 2 ^ 192 + 1)) ∧
      ((shortEpochBank.child 99).child 132).variableCyclePartitions = none := by
  refine ⟨?_, ?_, ?_, ?_, ?_, ?_, ?_, ?_, ?_, ?_⟩ <;> decide

end Bank

end VelasChain.Runtime.RentCollection
