import VelasChain.Lib.Saturating
import VelasChain.Lib.Segments
import VelasChain.Lib.Wrapping

/-!
# The epoch schedule

`EpochSchedule` (`sdk/program/src/epoch_schedule.rs`) splits the slots into epochs. With warmup,
epochs start at `MINIMUM_SLOTS_PER_EPOCH` slots and double until they reach the next power of two
of `slots_per_epoch`; from the first normal epoch on, every epoch has `slots_per_epoch` slots.
The leader schedule of an epoch is computed `leader_schedule_slot_offset` slots before it starts.

Slots and epochs are `u64`; the functions compute with saturating operations, the warmup epoch
of a slot with `next_power_of_two` and `trailing_zeros`, and the first slot of an epoch with a
separate closed form in each part.

Every schedule that `custom` builds is `Valid`, and a valid schedule lays its epochs end to end
(`Segments`): the first slot of an epoch is the sum of the lengths of the epochs before it,
saturated, and every slot of `u64` splits into its epoch and the offset into it
(`Valid.consecutiveEpochs`). Its leader schedule epoch never falls behind the epoch of a slot and
reaches each epoch by the slot before it starts (`Valid.leaderScheduleAhead`).
-/

namespace VelasChain

open Segments (start Splits)

/-- `MINIMUM_SLOTS_PER_EPOCH`. -/
def minimumSlotsPerEpoch : ℕ := 32

structure EpochSchedule where
  slotsPerEpoch : ℕ
  leaderScheduleSlotOffset : ℕ
  warmup : Bool
  firstNormalEpoch : ℕ
  firstNormalSlot : ℕ
  deriving DecidableEq, Repr

namespace EpochSchedule

/-- `EpochSchedule::custom`, or `none` where its assertion fails. -/
def custom (slotsPerEpoch leaderScheduleSlotOffset : ℕ) (warmup : Bool) : Option EpochSchedule :=
  if slotsPerEpoch < minimumSlotsPerEpoch then none
  else
    let (firstNormalEpoch, firstNormalSlot) :=
      if warmup then
        let nextPowerOfTwo := Saturating.nextPowerOfTwo 64 slotsPerEpoch
        let log2SlotsPerEpoch := Saturating.trailingZeros 64 nextPowerOfTwo -
          Saturating.trailingZeros 64 minimumSlotsPerEpoch
        (log2SlotsPerEpoch, nextPowerOfTwo - minimumSlotsPerEpoch)
      else (0, 0)
    some ⟨slotsPerEpoch, leaderScheduleSlotOffset, warmup, firstNormalEpoch, firstNormalSlot⟩

variable (sched : EpochSchedule)

/-- `get_slots_in_epoch`; the epoch is cast to `u32` before it becomes an exponent. -/
def getSlotsInEpoch (epoch : ℕ) : ℕ :=
  if epoch < sched.firstNormalEpoch then
    Saturating.pow 64 2
      (Saturating.add 32 (epoch % 2 ^ 32) (Saturating.trailingZeros 64 minimumSlotsPerEpoch))
  else sched.slotsPerEpoch

/-- `get_epoch_and_slot_index`. -/
def getEpochAndSlotIndex (slot : ℕ) : ℕ × ℕ :=
  if slot < sched.firstNormalSlot then
    let epoch := Saturating.trailingZeros 64 (Saturating.nextPowerOfTwo 64
        (Saturating.add 64 (Saturating.add 64 slot minimumSlotsPerEpoch) 1)) -
      Saturating.trailingZeros 64 minimumSlotsPerEpoch - 1
    let epochLen := Saturating.pow 64 2
      (Saturating.add 32 epoch (Saturating.trailingZeros 64 minimumSlotsPerEpoch))
    (epoch, slot - (epochLen - minimumSlotsPerEpoch))
  else
    let normalSlotIndex := slot - sched.firstNormalSlot
    let normalEpochIndex := (Wrapping.checkedDiv normalSlotIndex sched.slotsPerEpoch).getD 0
    let epoch := Saturating.add 64 sched.firstNormalEpoch normalEpochIndex
    let slotIndex := (Wrapping.checkedRem normalSlotIndex sched.slotsPerEpoch).getD 0
    (epoch, slotIndex)

/-- `get_epoch`. -/
def getEpoch (slot : ℕ) : ℕ := (sched.getEpochAndSlotIndex slot).1

/-- `get_leader_schedule_epoch`. -/
def getLeaderScheduleEpoch (slot : ℕ) : ℕ :=
  if slot < sched.firstNormalSlot then
    -- until the normal slots, as if the offset were a whole epoch
    Saturating.add 64 (sched.getEpochAndSlotIndex slot).1 1
  else
    let newSlotsSinceFirstNormalSlot := slot - sched.firstNormalSlot
    let newFirstNormalLeaderScheduleSlot :=
      Saturating.add 64 newSlotsSinceFirstNormalSlot sched.leaderScheduleSlotOffset
    let newEpochsSinceFirstNormalLeaderSchedule :=
      (Wrapping.checkedDiv newFirstNormalLeaderScheduleSlot sched.slotsPerEpoch).getD 0
    Saturating.add 64 sched.firstNormalEpoch newEpochsSinceFirstNormalLeaderSchedule

/-- `get_first_slot_in_epoch`. -/
def getFirstSlotInEpoch (epoch : ℕ) : ℕ :=
  if epoch ≤ sched.firstNormalEpoch then
    Saturating.mul 64 (Saturating.pow 64 2 (epoch % 2 ^ 32) - 1) minimumSlotsPerEpoch
  else
    Saturating.add 64 (Saturating.mul 64 (epoch - sched.firstNormalEpoch) sched.slotsPerEpoch)
      sched.firstNormalSlot

/-- `get_last_slot_in_epoch`. -/
def getLastSlotInEpoch (epoch : ℕ) : ℕ :=
  Saturating.add 64 (sched.getFirstSlotInEpoch epoch) (sched.getSlotsInEpoch epoch) - 1

@[simp] lemma trailingZeros_minimumSlotsPerEpoch :
    Saturating.trailingZeros 64 minimumSlotsPerEpoch = 5 :=
  Saturating.trailingZeros_two_pow (k := 5) (by decide)

/-! ### Valid schedules -/

/-- What `custom` establishes of a schedule: epochs of at least the minimum length, and warmup
epochs doubling from the minimum up to the first normal slot, few enough that their lengths
fit in `u64`. -/
structure Valid : Prop where
  minimum_le : minimumSlotsPerEpoch ≤ sched.slotsPerEpoch
  firstNormalEpoch_le : sched.firstNormalEpoch ≤ 58
  firstNormalSlot_eq :
    sched.firstNormalSlot = minimumSlotsPerEpoch * (2 ^ sched.firstNormalEpoch - 1)
  firstNormalEpoch_of_not_warmup : sched.warmup = false → sched.firstNormalEpoch = 0

/-- The slots of a schedule split into consecutive epochs: every slot of `u64` is at an offset
within its epoch from the epoch's first slot, each epoch ends just before the next one starts,
and warmup epochs double from the minimum length until the normal length. -/
structure ConsecutiveEpochs : Prop where
  slotIndex_lt : ∀ s < 2 ^ 64,
    (sched.getEpochAndSlotIndex s).2 < sched.getSlotsInEpoch (sched.getEpochAndSlotIndex s).1
  firstSlot_add_slotIndex : ∀ s < 2 ^ 64,
    sched.getFirstSlotInEpoch (sched.getEpochAndSlotIndex s).1 +
      (sched.getEpochAndSlotIndex s).2 = s
  lastSlot_add_one : ∀ e, sched.getLastSlotInEpoch e + 1 = sched.getFirstSlotInEpoch (e + 1)
  slotsInEpoch_eq : ∀ e, sched.getSlotsInEpoch e =
    if e < sched.firstNormalEpoch then minimumSlotsPerEpoch * 2 ^ e else sched.slotsPerEpoch
  firstNormalEpoch_of_not_warmup : sched.warmup = false → sched.firstNormalEpoch = 0

/-- The leader schedule epoch of a slot never decreases, moves on by at most one epoch from a
slot to the next, is never behind the slot's own epoch, and reaches each epoch by the slot just
before the epoch starts. -/
structure LeaderScheduleAhead : Prop where
  mono : Monotone sched.getLeaderScheduleEpoch
  succ_le : ∀ s, sched.getLeaderScheduleEpoch (s + 1) ≤ sched.getLeaderScheduleEpoch s + 1
  epoch_le : ∀ s < 2 ^ 64, sched.getEpoch s ≤ sched.getLeaderScheduleEpoch s
  announced : ∀ e, 1 ≤ e → sched.getFirstSlotInEpoch e ≤ 2 ^ 62 →
    e ≤ sched.getLeaderScheduleEpoch (sched.getFirstSlotInEpoch e - 1)

variable {sched}

/-- The fields `custom` copies, and its assertion. -/
lemma custom_fields {slotsPerEpoch leaderScheduleSlotOffset : ℕ} {warmup : Bool}
    (h : custom slotsPerEpoch leaderScheduleSlotOffset warmup = some sched) :
    minimumSlotsPerEpoch ≤ slotsPerEpoch ∧ sched.slotsPerEpoch = slotsPerEpoch ∧
      sched.leaderScheduleSlotOffset = leaderScheduleSlotOffset ∧ sched.warmup = warmup := by
  unfold custom at h
  split_ifs at h with hmin
  all_goals
    dsimp only at h
    obtain rfl := Option.some.inj h
    exact ⟨by omega, rfl, rfl, rfl⟩

/-- With warmup, `custom` starts normal epochs at the next power of two of `slots_per_epoch`. -/
lemma custom_valid {slotsPerEpoch leaderScheduleSlotOffset : ℕ} {warmup : Bool}
    (h : custom slotsPerEpoch leaderScheduleSlotOffset warmup = some sched)
    (hmax : slotsPerEpoch ≤ 2 ^ 62) : sched.Valid := by
  obtain ⟨hmin, hslots, -, hwarmup⟩ := custom_fields h
  unfold custom at h
  rw [if_neg (Nat.not_lt_of_le hmin)] at h
  cases warmup with
  | false =>
    simp only [Bool.false_eq_true, if_false, Option.some.injEq] at h
    subst h
    exact ⟨hmin, Nat.zero_le _, rfl, fun _ => rfl⟩
  | true =>
    simp only [if_true, Option.some.injEq] at h
    subst h
    -- `next_power_of_two` is `2 ^ k` for the upper logarithm `k` of `slots_per_epoch`
    set k := Nat.clog 2 slotsPerEpoch with hk
    have hk5 : 5 ≤ k := (Nat.lt_clog_iff_pow_lt Nat.one_lt_two).mpr
      (Nat.lt_of_lt_of_le (by decide) hmin)
    have hk62 : k ≤ 62 := Nat.clog_le_of_le_pow hmax
    have hpow : 2 ^ k = minimumSlotsPerEpoch * 2 ^ (k - 5) := by
      rw [minimumSlotsPerEpoch, show (32 : ℕ) = 2 ^ 5 from rfl, ← Nat.pow_add,
        Nat.add_sub_cancel' hk5]
    rw [Saturating.nextPowerOfTwo_of_le hmax (by decide), ← hk,
      Saturating.trailingZeros_two_pow (by omega), trailingZeros_minimumSlotsPerEpoch]
    refine ⟨hmin, by dsimp only; omega, ?_, fun h => by simp at h⟩
    dsimp only
    rw [hpow, Nat.mul_sub_one]

/-! ### Epoch lengths and first slots -/

section Valid

variable (hv : sched.Valid)
include hv

lemma Valid.slotsPerEpoch_pos : 0 < sched.slotsPerEpoch := by
  have := hv.minimum_le
  unfold minimumSlotsPerEpoch at this
  omega

/-- Warmup epochs double from the minimum length; no power in them saturates. -/
lemma Valid.getSlotsInEpoch_eq (e : ℕ) : sched.getSlotsInEpoch e =
    if e < sched.firstNormalEpoch then minimumSlotsPerEpoch * 2 ^ e else sched.slotsPerEpoch := by
  unfold getSlotsInEpoch
  split_ifs with h
  · have hle := hv.firstNormalEpoch_le
    rw [Nat.mod_eq_of_lt (by omega), trailingZeros_minimumSlotsPerEpoch,
      Saturating.add_of_le (by omega), Saturating.pow_of_le (Saturating.two_pow_le_max (by omega)),
      Nat.pow_add, Nat.mul_comm]
    rfl
  · rfl

lemma Valid.getSlotsInEpoch_pos (e : ℕ) : 0 < sched.getSlotsInEpoch e := by
  rw [hv.getSlotsInEpoch_eq]
  split_ifs
  · exact Nat.mul_pos (by decide) (Nat.two_pow_pos e)
  · exact hv.slotsPerEpoch_pos

/-- Warmup epochs start after `32 * (2 ^ e - 1)` slots. -/
lemma Valid.start_of_le {e : ℕ} (h : e ≤ sched.firstNormalEpoch) :
    start sched.getSlotsInEpoch e = minimumSlotsPerEpoch * (2 ^ e - 1) := by
  induction e with
  | zero => rfl
  | succ e ih =>
    rw [Segments.start_succ, ih (by omega), hv.getSlotsInEpoch_eq, if_pos (by omega), Nat.pow_succ]
    have := Nat.one_le_two_pow (n := e)
    unfold minimumSlotsPerEpoch
    omega

lemma Valid.start_firstNormalEpoch :
    start sched.getSlotsInEpoch sched.firstNormalEpoch = sched.firstNormalSlot :=
  (hv.start_of_le (Nat.le_refl _)).trans hv.firstNormalSlot_eq.symm

/-- Normal epochs follow the first normal slot at the normal length. -/
lemma Valid.start_of_ge {e : ℕ} (h : sched.firstNormalEpoch ≤ e) :
    start sched.getSlotsInEpoch e =
      sched.firstNormalSlot + (e - sched.firstNormalEpoch) * sched.slotsPerEpoch := by
  induction e, h using Nat.le_induction with
  | base => rw [hv.start_firstNormalEpoch, Nat.sub_self, Nat.zero_mul, Nat.add_zero]
  | succ e he ih =>
    rw [Segments.start_succ, ih, hv.getSlotsInEpoch_eq, if_neg (by omega), Nat.sub_add_comm he,
      Nat.succ_mul, Nat.add_assoc]

/-- The first slot of an epoch is the length of the epochs before it, saturated. -/
lemma Valid.getFirstSlotInEpoch_eq (e : ℕ) :
    sched.getFirstSlotInEpoch e = min (start sched.getSlotsInEpoch e) (2 ^ 64 - 1) := by
  unfold getFirstSlotInEpoch
  split_ifs with h
  · have hle := hv.firstNormalEpoch_le
    have hpow : 2 ^ e ≤ 2 ^ 58 := Nat.pow_le_pow_right (by decide) (by omega)
    rw [hv.start_of_le h, Nat.mod_eq_of_lt (by omega),
      Saturating.pow_of_le (Saturating.two_pow_le_max (by omega))]
    unfold Saturating.mul minimumSlotsPerEpoch
    omega
  · rw [hv.start_of_ge (by omega), Saturating.add_mul, Nat.add_comm]

/-! ### The epoch of a slot -/

/-- In warmup, the epoch of a slot comes from the upper logarithm of `slot + 33`; nothing
saturates below the first normal slot. -/
lemma Valid.getEpochAndSlotIndex_of_lt {s : ℕ} (h : s < sched.firstNormalSlot) :
    sched.getEpochAndSlotIndex s =
      (Nat.clog 2 (s + 33) - 6, s - (2 ^ (Nat.clog 2 (s + 33) - 1) - minimumSlotsPerEpoch)) := by
  have hfns := hv.firstNormalSlot_eq
  have hpow : 2 ^ sched.firstNormalEpoch ≤ 2 ^ 58 :=
    Nat.pow_le_pow_right (by decide) hv.firstNormalEpoch_le
  unfold minimumSlotsPerEpoch at hfns
  have hs : s + 33 ≤ 2 ^ 63 := by omega
  have hk : Nat.clog 2 (s + 33) ≤ 63 := Nat.clog_le_of_le_pow hs
  have hk6 : 6 ≤ Nat.clog 2 (s + 33) :=
    (Nat.lt_clog_iff_pow_lt Nat.one_lt_two).mpr (by omega)
  have hsum : Saturating.add 64 (Saturating.add 64 s minimumSlotsPerEpoch) 1 = s + 33 := by
    unfold minimumSlotsPerEpoch
    rw [Saturating.add_of_le (show s + 32 ≤ 2 ^ 64 - 1 by omega),
      Saturating.add_of_le (show s + 32 + 1 ≤ 2 ^ 64 - 1 by omega)]
  have hexp : Saturating.add 32 (Nat.clog 2 (s + 33) - 5 - 1) 5 = Nat.clog 2 (s + 33) - 1 := by
    rw [Saturating.add_of_le (by omega)]
    omega
  unfold getEpochAndSlotIndex
  rw [if_pos h]
  dsimp only
  rw [hsum, Saturating.nextPowerOfTwo_of_le hs (by decide),
    Saturating.trailingZeros_two_pow (by omega), trailingZeros_minimumSlotsPerEpoch, hexp,
    Saturating.pow_of_le (Saturating.two_pow_le_max (by omega)), Nat.sub_sub]

/-- A warmup slot splits into the epoch and offset that `get_epoch_and_slot_index` finds. -/
lemma Valid.splits_of_lt {s : ℕ} (h : s < sched.firstNormalSlot) :
    Splits sched.getSlotsInEpoch s (sched.getEpochAndSlotIndex s).1
      (sched.getEpochAndSlotIndex s).2 := by
  rw [hv.getEpochAndSlotIndex_of_lt h]
  have hfns := hv.firstNormalSlot_eq
  -- `2 ^ (k - 1) < s + 33 ≤ 2 ^ k`: the slot is in the epoch of length `2 ^ (k - 1)`
  have hlo := Nat.pow_pred_clog_lt_self Nat.one_lt_two (show 1 < s + 33 by omega)
  have hhi : s + 33 ≤ 2 ^ Nat.clog 2 (s + 33) := Nat.le_pow_clog Nat.one_lt_two _
  have hk6 : 6 ≤ Nat.clog 2 (s + 33) := (Nat.lt_clog_iff_pow_lt Nat.one_lt_two).mpr (by omega)
  rw [Nat.pred_eq_sub_one] at hlo
  generalize Nat.clog 2 (s + 33) = k at *
  obtain ⟨j, rfl⟩ : ∃ j, k = j + 6 := ⟨k - 6, by omega⟩
  rw [show j + 6 - 1 = j + 5 by omega, Nat.add_sub_cancel] at *
  rw [Nat.pow_add] at hlo hhi ⊢
  -- the slot is below the first normal slot, so its epoch `j` is a warmup epoch
  have hnormal : j < sched.firstNormalEpoch := by
    by_contra hge
    have hpow : 2 ^ sched.firstNormalEpoch ≤ 2 ^ j :=
      Nat.pow_le_pow_right (by decide) (Nat.le_of_not_lt hge)
    unfold minimumSlotsPerEpoch at hfns
    omega
  refine ⟨?_, ?_⟩ <;> dsimp only
  · rw [hv.getSlotsInEpoch_eq, if_pos hnormal]
    unfold minimumSlotsPerEpoch
    omega
  · rw [hv.start_of_le hnormal.le]
    have := Nat.one_le_two_pow (n := j)
    unfold minimumSlotsPerEpoch
    omega

/-- Past warmup, the epoch of a slot counts whole normal epochs from the first normal slot. -/
lemma Valid.getEpochAndSlotIndex_of_ge {s : ℕ} (h : sched.firstNormalSlot ≤ s) (hs : s < 2 ^ 64) :
    sched.getEpochAndSlotIndex s =
      (sched.firstNormalEpoch + (s - sched.firstNormalSlot) / sched.slotsPerEpoch,
        (s - sched.firstNormalSlot) % sched.slotsPerEpoch) := by
  have hpos := hv.slotsPerEpoch_pos
  have hdiv : (s - sched.firstNormalSlot) / sched.slotsPerEpoch ≤
      (s - sched.firstNormalSlot) / minimumSlotsPerEpoch :=
    Nat.div_le_div_left hv.minimum_le (by decide)
  have hle := hv.firstNormalEpoch_le
  unfold getEpochAndSlotIndex
  rw [if_neg (Nat.not_lt_of_le h)]
  dsimp only
  rw [Wrapping.checkedDiv, Wrapping.checkedRem, if_neg (Nat.pos_iff_ne_zero.mp hpos),
    if_neg (Nat.pos_iff_ne_zero.mp hpos), Option.getD_some, Option.getD_some,
    Saturating.add_of_le (by unfold minimumSlotsPerEpoch at hdiv; omega)]

lemma Valid.splits_of_ge {s : ℕ} (h : sched.firstNormalSlot ≤ s) (hs : s < 2 ^ 64) :
    Splits sched.getSlotsInEpoch s (sched.getEpochAndSlotIndex s).1
      (sched.getEpochAndSlotIndex s).2 := by
  rw [hv.getEpochAndSlotIndex_of_ge h hs]
  refine ⟨?_, ?_⟩
  · rw [hv.getSlotsInEpoch_eq, if_neg (Nat.not_lt.mpr (Nat.le_add_right _ _))]
    exact Nat.mod_lt _ hv.slotsPerEpoch_pos
  · rw [hv.start_of_ge (Nat.le_add_right _ _), Nat.add_sub_cancel_left, Nat.add_assoc,
      Nat.div_add_mod', Nat.add_sub_cancel' h]

/-- Every slot of `u64` splits into the epoch and offset that `get_epoch_and_slot_index` finds. -/
lemma Valid.splits_getEpochAndSlotIndex {s : ℕ} (hs : s < 2 ^ 64) :
    Splits sched.getSlotsInEpoch s (sched.getEpochAndSlotIndex s).1
      (sched.getEpochAndSlotIndex s).2 := by
  by_cases h : s < sched.firstNormalSlot
  · exact hv.splits_of_lt h
  · exact hv.splits_of_ge (Nat.le_of_not_lt h) hs

theorem Valid.consecutiveEpochs : sched.ConsecutiveEpochs where
  slotIndex_lt _ hs := (hv.splits_getEpochAndSlotIndex hs).1
  firstSlot_add_slotIndex s hs := by
    have hsplit := hv.splits_getEpochAndSlotIndex hs
    rw [hv.getFirstSlotInEpoch_eq, min_eq_left (by have := hsplit.2; omega)]
    exact hsplit.2
  lastSlot_add_one e := by
    rw [getLastSlotInEpoch, hv.getFirstSlotInEpoch_eq, hv.getFirstSlotInEpoch_eq,
      Saturating.add_min_left, Segments.start_succ]
    have := hv.getSlotsInEpoch_pos e
    omega
  slotsInEpoch_eq := hv.getSlotsInEpoch_eq
  firstNormalEpoch_of_not_warmup := hv.firstNormalEpoch_of_not_warmup

/-! ### The leader schedule epoch -/

/-- A warmup slot is in a warmup epoch. -/
lemma Valid.getEpoch_lt {s : ℕ} (h : s < sched.firstNormalSlot) :
    sched.getEpoch s < sched.firstNormalEpoch :=
  (hv.splits_of_lt h).index_lt (hv.start_firstNormalEpoch ▸ h)

lemma Valid.getLeaderScheduleEpoch_of_lt {s : ℕ} (h : s < sched.firstNormalSlot) :
    sched.getLeaderScheduleEpoch s = sched.getEpoch s + 1 := by
  have hlt := hv.getEpoch_lt h
  have hle := hv.firstNormalEpoch_le
  unfold getEpoch at hlt
  unfold getLeaderScheduleEpoch
  rw [if_pos h, Saturating.add_of_le (by omega)]
  rfl

/-- Past warmup, the leader schedule epoch counts whole normal epochs up to the slot plus the
offset. -/
lemma Valid.getLeaderScheduleEpoch_of_ge {s : ℕ} (h : sched.firstNormalSlot ≤ s) :
    sched.getLeaderScheduleEpoch s = sched.firstNormalEpoch +
      Saturating.add 64 (s - sched.firstNormalSlot) sched.leaderScheduleSlotOffset /
        sched.slotsPerEpoch := by
  have hpos := hv.slotsPerEpoch_pos
  have hdiv : Saturating.add 64 (s - sched.firstNormalSlot) sched.leaderScheduleSlotOffset /
      sched.slotsPerEpoch ≤ Saturating.add 64 (s - sched.firstNormalSlot)
        sched.leaderScheduleSlotOffset / minimumSlotsPerEpoch :=
    Nat.div_le_div_left hv.minimum_le (by decide)
  have hsat : Saturating.add 64 (s - sched.firstNormalSlot) sched.leaderScheduleSlotOffset ≤
      2 ^ 64 - 1 := Saturating.add_le
  have hle := hv.firstNormalEpoch_le
  unfold getLeaderScheduleEpoch
  rw [if_neg (Nat.not_lt_of_le h)]
  dsimp only
  rw [Wrapping.checkedDiv, if_neg (Nat.pos_iff_ne_zero.mp hpos), Option.getD_some,
    Saturating.add_of_le (by unfold minimumSlotsPerEpoch at hdiv; omega)]

lemma Valid.getLeaderScheduleEpoch_mono : Monotone sched.getLeaderScheduleEpoch := by
  intro s s' hss
  by_cases h' : s' < sched.firstNormalSlot
  · have h : s < sched.firstNormalSlot := Nat.lt_of_le_of_lt hss h'
    rw [hv.getLeaderScheduleEpoch_of_lt h, hv.getLeaderScheduleEpoch_of_lt h']
    exact Nat.succ_le_succ ((hv.splits_of_lt h).index_le (hv.splits_of_lt h') hss)
  · rw [hv.getLeaderScheduleEpoch_of_ge (Nat.le_of_not_lt h')]
    by_cases h : s < sched.firstNormalSlot
    · -- a warmup slot announces at most the first normal epoch
      rw [hv.getLeaderScheduleEpoch_of_lt h]
      exact Nat.le_trans (hv.getEpoch_lt h) (Nat.le_add_right _ _)
    · rw [hv.getLeaderScheduleEpoch_of_ge (Nat.le_of_not_lt h)]
      exact Nat.add_le_add_left (Nat.div_le_div_right
        (Saturating.add_mono (Nat.sub_le_sub_right hss _) (Nat.le_refl _))) _

/-- The last warmup slot is in the last warmup epoch. -/
lemma Valid.getEpoch_pred_firstNormalSlot (h : 0 < sched.firstNormalSlot) :
    sched.getEpoch (sched.firstNormalSlot - 1) = sched.firstNormalEpoch - 1 := by
  have hfne : 0 < sched.firstNormalEpoch := by
    have := hv.firstNormalSlot_eq
    by_contra h0
    rw [Nat.eq_zero_of_not_pos h0] at this
    omega
  have hlast := Segments.splits_pred_start hv.getSlotsInEpoch_pos (sched.firstNormalEpoch - 1)
  rw [Nat.sub_add_cancel hfne, hv.start_firstNormalEpoch] at hlast
  exact ((hv.splits_of_lt (by omega)).unique hlast).1

lemma Valid.getLeaderScheduleEpoch_succ_le
    (hoff : sched.leaderScheduleSlotOffset ≤ sched.slotsPerEpoch) (s : ℕ) :
    sched.getLeaderScheduleEpoch (s + 1) ≤ sched.getLeaderScheduleEpoch s + 1 := by
  have hpos := hv.slotsPerEpoch_pos
  by_cases h : s + 1 < sched.firstNormalSlot
  · rw [hv.getLeaderScheduleEpoch_of_lt h, hv.getLeaderScheduleEpoch_of_lt (by omega)]
    have := (hv.splits_of_lt (Nat.lt_of_succ_lt h)).index_succ_le hv.getSlotsInEpoch_pos
      (hv.splits_of_lt h)
    unfold getEpoch
    omega
  · by_cases h' : s < sched.firstNormalSlot
    · -- from the last warmup slot to the first normal one
      have hs : s = sched.firstNormalSlot - 1 := by omega
      have hepoch : sched.getEpoch s = sched.firstNormalEpoch - 1 :=
        hs ▸ hv.getEpoch_pred_firstNormalSlot (by omega)
      have hnext : s + 1 - sched.firstNormalSlot = 0 := by omega
      rw [hv.getLeaderScheduleEpoch_of_lt h', hv.getLeaderScheduleEpoch_of_ge (by omega), hepoch,
        hnext]
      have : Saturating.add 64 0 sched.leaderScheduleSlotOffset / sched.slotsPerEpoch ≤ 1 :=
        Nat.div_le_of_le_mul (by unfold Saturating.add; omega)
      have := hv.getEpoch_lt h'
      omega
    · rw [hv.getLeaderScheduleEpoch_of_ge (by omega), hv.getLeaderScheduleEpoch_of_ge (by omega)]
      have hstep : Saturating.add 64 (s + 1 - sched.firstNormalSlot) sched.leaderScheduleSlotOffset
          ≤ Saturating.add 64 (s - sched.firstNormalSlot) sched.leaderScheduleSlotOffset +
            sched.slotsPerEpoch := by
        unfold Saturating.add
        omega
      have := Nat.div_le_div_right (c := sched.slotsPerEpoch) hstep
      rw [Nat.add_div_right _ hpos] at this
      omega

lemma Valid.getEpoch_le_getLeaderScheduleEpoch {s : ℕ} (hs : s < 2 ^ 64) :
    sched.getEpoch s ≤ sched.getLeaderScheduleEpoch s := by
  by_cases h : s < sched.firstNormalSlot
  · rw [hv.getLeaderScheduleEpoch_of_lt h]
    exact Nat.le_succ _
  · rw [hv.getLeaderScheduleEpoch_of_ge (Nat.le_of_not_lt h), getEpoch,
      hv.getEpochAndSlotIndex_of_ge (Nat.le_of_not_lt h) hs]
    exact Nat.add_le_add_left (Nat.div_le_div_right (by unfold Saturating.add; omega)) _

/-- The slot before an epoch starts already announces it. -/
lemma Valid.le_getLeaderScheduleEpoch_pred (hoff : 0 < sched.leaderScheduleSlotOffset) {e : ℕ}
    (he : 1 ≤ e) (hfirst : sched.getFirstSlotInEpoch e ≤ 2 ^ 62) :
    e ≤ sched.getLeaderScheduleEpoch (sched.getFirstSlotInEpoch e - 1) := by
  have hstart : sched.getFirstSlotInEpoch e = start sched.getSlotsInEpoch e := by
    rw [hv.getFirstSlotInEpoch_eq] at hfirst ⊢
    omega
  rw [hstart] at hfirst ⊢
  obtain ⟨e, rfl⟩ : ∃ e', e = e' + 1 := ⟨e - 1, by omega⟩
  have hlast := Segments.splits_pred_start hv.getSlotsInEpoch_pos e
  by_cases h : start sched.getSlotsInEpoch (e + 1) - 1 < sched.firstNormalSlot
  · rw [hv.getLeaderScheduleEpoch_of_lt h]
    have := ((hv.splits_of_lt h).unique hlast).1
    unfold getEpoch
    omega
  · -- the epoch before is a normal one, and the offset reaches into the epoch
    have hge : sched.firstNormalEpoch ≤ e := by
      by_contra hlt
      have hmono : start sched.getSlotsInEpoch (e + 1) ≤ sched.firstNormalSlot :=
        hv.start_firstNormalEpoch ▸ Segments.start_mono (Nat.succ_le_of_lt (Nat.lt_of_not_le hlt))
      have := hv.getSlotsInEpoch_pos e
      rw [Segments.start_succ] at hmono h
      omega
    rw [hv.getLeaderScheduleEpoch_of_ge (Nat.le_of_not_lt h), hv.start_of_ge (by omega)]
    rw [hv.start_of_ge (by omega)] at hfirst
    set m := e + 1 - sched.firstNormalEpoch with hm
    have hsat : m * sched.slotsPerEpoch ≤ Saturating.add 64
        (sched.firstNormalSlot + m * sched.slotsPerEpoch - 1 - sched.firstNormalSlot)
        sched.leaderScheduleSlotOffset := by
      unfold Saturating.add
      omega
    calc e + 1 = sched.firstNormalEpoch + m * sched.slotsPerEpoch / sched.slotsPerEpoch := by
          rw [Nat.mul_div_cancel _ hv.slotsPerEpoch_pos]
          omega
      _ ≤ _ := Nat.add_le_add_left (Nat.div_le_div_right hsat) _

theorem Valid.leaderScheduleAhead (hoff : 0 < sched.leaderScheduleSlotOffset)
    (hoff' : sched.leaderScheduleSlotOffset ≤ sched.slotsPerEpoch) :
    sched.LeaderScheduleAhead where
  mono := hv.getLeaderScheduleEpoch_mono
  succ_le := hv.getLeaderScheduleEpoch_succ_le hoff'
  epoch_le _ hs := hv.getEpoch_le_getLeaderScheduleEpoch hs
  announced _ he hfirst := hv.le_getLeaderScheduleEpoch_pred hoff he hfirst

end Valid

/-! ### Schedules built by `custom` -/

theorem custom_schedule_splits_slots_into_epochs
    (slotsPerEpoch leaderScheduleSlotOffset : ℕ) (warmup : Bool) (sched : EpochSchedule)
    (hmax : slotsPerEpoch ≤ 2 ^ 62) (hoff : 1 ≤ leaderScheduleSlotOffset)
    (hoff' : leaderScheduleSlotOffset ≤ slotsPerEpoch)
    (h : custom slotsPerEpoch leaderScheduleSlotOffset warmup = some sched) :
    sched.slotsPerEpoch = slotsPerEpoch ∧ sched.warmup = warmup ∧
      sched.ConsecutiveEpochs ∧ sched.LeaderScheduleAhead := by
  obtain ⟨-, hslots, hoffset, hwarmup⟩ := custom_fields h
  have hv := custom_valid h hmax
  exact ⟨hslots, hwarmup, hv.consecutiveEpochs, hv.leaderScheduleAhead (by omega) (by omega)⟩

/-- A schedule of 33 slots per epoch, not a power of two: one warmup epoch of 32 slots, then
epochs of 33 from slot 32. -/
theorem custom_thirty_three_splits_slots :
    (33 : ℕ) ≤ 2 ^ 62 ∧ 1 ≤ 33 ∧ custom 33 33 true = some ⟨33, 33, true, 1, 32⟩ ∧
      (⟨33, 33, true, 1, 32⟩ : EpochSchedule).ConsecutiveEpochs ∧
      (⟨33, 33, true, 1, 32⟩ : EpochSchedule).LeaderScheduleAhead := by
  have hcustom : custom 33 33 true = some ⟨33, 33, true, 1, 32⟩ := by decide
  obtain ⟨-, -, hepochs, hleader⟩ :=
    custom_schedule_splits_slots_into_epochs 33 33 true _ (by decide) (by decide) (by decide)
      hcustom
  exact ⟨by decide, by decide, hcustom, hepochs, hleader⟩

end EpochSchedule

end VelasChain
