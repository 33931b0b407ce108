import VelasChain.Lib.Wrapping
import Mathlib.Algebra.Order.Floor.Defs
import Mathlib.Data.Rat.Floor

/-!
# Stake accounts and the activation of delegated stake

The state of a stake account (`sdk/program/src/stake/state.rs`) and how much of a delegation
is effective at an epoch (`Delegation::stake_activating_and_deactivating`): stake warms up after
it is delegated and cools down after it is deactivated, each delegation taking, epoch by epoch,
its share of the cluster-wide change that the stake history records.

The source computes the shares in `f64`. Here they are computed exactly over `ℚ`, and
`as u64` is the floor, saturating at both ends; the rounding of `f64` is not modelled.
Accounts hold their data as the `StakeState` it deserializes to.
-/

namespace VelasChain.StakeProgram

abbrev Epoch := ℕ

/-- `std::u64::MAX`. -/
def u64Max : ℕ := 2 ^ 64 - 1

/-- `x as u64` for an `f64` `x`. -/
def toU64 (x : ℚ) : ℕ := min x.floor.toNat u64Max

/-- `MINIMUM_STAKE_DELEGATION`. -/
def minimumStakeDelegation : ℕ := 1

/-- `std::mem::size_of::<StakeState>()`. -/
def stakeStateSize : ℕ := 200

/-- `ACCOUNT_STORAGE_OVERHEAD`. -/
def accountStorageOverhead : ℕ := 128

structure Authorized (Key : Type) where
  staker : Key
  withdrawer : Key
  deriving DecidableEq, Repr

structure Lockup (Key : Type) where
  unixTimestamp : ℤ
  epoch : Epoch
  custodian : Key
  deriving DecidableEq, Repr

structure Meta (Key : Type) where
  rentExemptReserve : ℕ
  authorized : Authorized Key
  lockup : Lockup Key
  deriving DecidableEq, Repr

structure Delegation (Key : Type) where
  voterPubkey : Key
  stake : ℕ
  activationEpoch : Epoch
  deactivationEpoch : Epoch
  warmupCooldownRate : ℚ
  deriving DecidableEq, Repr

structure Stake (Key : Type) where
  delegation : Delegation Key
  creditsObserved : ℕ
  deriving DecidableEq, Repr

inductive StakeState (Key : Type) where
  | uninitialized
  | initialized (stakeMeta : Meta Key)
  | stake (stakeMeta : Meta Key) (stake : Stake Key)
  | rewardsPool
  deriving DecidableEq, Repr

/-- A stake account, by its lamports, owner, data length and the state its data holds. -/
structure StakeAccount (Key : Type) where
  lamports : ℕ
  owner : Key
  dataLen : ℕ
  state : StakeState Key
  deriving DecidableEq, Repr

/-- `StakeHistoryEntry`, which is also `StakeActivationStatus`. -/
structure StakeHistoryEntry where
  effective : ℕ
  activating : ℕ
  deactivating : ℕ
  deriving DecidableEq, Repr

/-- `StakeHistory`: the cluster's stake at each recorded epoch. -/
abbrev StakeHistory := List (Epoch × StakeHistoryEntry)

/-- `StakeHistory::get`. -/
def StakeHistory.get (history : StakeHistory) (epoch : Epoch) : Option StakeHistoryEntry :=
  history.lookup epoch

structure Clock where
  epoch : Epoch
  unixTimestamp : ℤ
  deriving DecidableEq, Repr

/-- `Rent`, by what `minimum_balance` reads. -/
structure Rent where
  lamportsPerByteYear : ℕ
  exemptionThreshold : ℚ
  deriving DecidableEq, Repr

/-- `Rent::minimum_balance`. -/
def Rent.minimumBalance (rent : Rent) (dataLen : ℕ) : ℕ :=
  toU64 (Wrapping.mul 64 (accountStorageOverhead + dataLen) rent.lamportsPerByteYear *
    rent.exemptionThreshold)

inductive StakeError where
  | noCreditsToRedeem
  | lockupInForce
  | alreadyDeactivated
  | tooSoonToRedelegate
  | insufficientStake
  | mergeTransientStake
  | mergeMismatch
  | custodianMissing
  | custodianSignatureMissing
  deriving DecidableEq, Repr

/-- `InstructionError`, by the variants the stake program raises. -/
inductive InstructionError where
  | invalidAccountData
  | accountDataTooSmall
  | insufficientFunds
  | incorrectProgramId
  | missingRequiredSignature
  | invalidArgument
  | arithmeticOverflow
  | custom (error : StakeError)
  deriving DecidableEq, Repr

inductive StakeAuthorize where
  | staker
  | withdrawer
  deriving DecidableEq, Repr

variable {Key : Type}

/-- `Lockup::is_in_force`: the custodian's signature lifts the lockup. -/
def Lockup.isInForce [DecidableEq Key] (lockup : Lockup Key) (clock : Clock)
    (custodian : Option Key) : Bool :=
  if custodian = some lockup.custodian then false
  else decide (lockup.unixTimestamp > clock.unixTimestamp) || decide (lockup.epoch > clock.epoch)

/-- `Authorized::check`. -/
def Authorized.check [DecidableEq Key] (authorized : Authorized Key) (signers : List Key) :
    StakeAuthorize → Except InstructionError Unit
  | .staker => if authorized.staker ∈ signers then .ok () else .error .missingRequiredSignature
  | .withdrawer =>
    if authorized.withdrawer ∈ signers then .ok () else .error .missingRequiredSignature

/-- The length of the bincode encoding of a state, which `set_state` checks against the
account's data. -/
def StakeState.serializedSize : StakeState Key → ℕ
  | .uninitialized => 4
  | .initialized _ => 124
  | .stake _ _ => 196
  | .rewardsPool => 4

/-! ### Warmup and cooldown -/

namespace Delegation

variable (d : Delegation Key)

def isBootstrap : Bool := d.activationEpoch = u64Max

/-- The loop of `stake_and_activating`: `prev` is the cluster's stake at `prevEpoch`, `current`
the stake of this delegation effective so far, and `n` the number of epochs left before the
target epoch. -/
def warmup (history : StakeHistory) : ℕ → Epoch → StakeHistoryEntry → ℕ → ℕ
  | n, prevEpoch, prev, current =>
    if prev.activating = 0 then current
    else
      let remaining := d.stake - current
      let weight : ℚ := remaining / prev.activating
      let newlyEffectiveCluster : ℚ := prev.effective * d.warmupCooldownRate
      let newlyEffective := max (toU64 (weight * newlyEffectiveCluster)) 1
      let current := Wrapping.add 64 current newlyEffective
      if current ≥ d.stake then d.stake
      else
        match n with
        | 0 => current
        | n + 1 =>
          if prevEpoch + 1 ≥ d.deactivationEpoch then current
          else
            match history.get (prevEpoch + 1) with
            | some entry => warmup history n (prevEpoch + 1) entry current
            | none => current

/-- `stake_and_activating`: the effective and the activating stake at an epoch. -/
def stakeAndActivating (targetEpoch : Epoch) (history : Option StakeHistory) : ℕ × ℕ :=
  if d.isBootstrap then (d.stake, 0)
  -- activated but instantly deactivated
  else if d.activationEpoch = d.deactivationEpoch then (0, 0)
  else if targetEpoch = d.activationEpoch then (0, d.stake)
  else if targetEpoch < d.activationEpoch then (0, 0)
  else
    match history with
    | some history =>
      match history.get d.activationEpoch with
      | some entry =>
        let effective :=
          d.warmup history (targetEpoch - d.activationEpoch - 1) d.activationEpoch entry 0
        (effective, d.stake - effective)
      | none => (d.stake, 0)
    | none => (d.stake, 0)

/-- The loop of `stake_activating_and_deactivating` after the deactivation epoch, with the
same arguments as `warmup`. -/
def cooldown (history : StakeHistory) : ℕ → Epoch → StakeHistoryEntry → ℕ → ℕ
  | n, prevEpoch, prev, current =>
    if prev.deactivating = 0 then current
    else
      let weight : ℚ := current / prev.deactivating
      let newlyNotEffectiveCluster : ℚ := prev.effective * d.warmupCooldownRate
      let newlyNotEffective := max (toU64 (weight * newlyNotEffectiveCluster)) 1
      let current := current - newlyNotEffective
      if current = 0 then 0
      else
        match n with
        | 0 => current
        | n + 1 =>
          match history.get (prevEpoch + 1) with
          | some entry => cooldown history n (prevEpoch + 1) entry current
          | none => current

/-- `stake_activating_and_deactivating`. -/
def stakeActivatingAndDeactivating (targetEpoch : Epoch) (history : Option StakeHistory) :
    StakeHistoryEntry :=
  let (effective, activating) := d.stakeAndActivating targetEpoch history
  if targetEpoch < d.deactivationEpoch then ⟨effective, activating, 0⟩
  -- can only deactivate what is activated
  else if targetEpoch = d.deactivationEpoch then ⟨effective, 0, effective⟩
  else
    match history with
    | some history =>
      match history.get d.deactivationEpoch with
      | some entry =>
        let current := d.cooldown history (targetEpoch - d.deactivationEpoch - 1)
          d.deactivationEpoch entry effective
        ⟨current, 0, current⟩
      | none => ⟨0, 0, 0⟩
    | none => ⟨0, 0, 0⟩

/-- `Delegation::stake`, the stake effective at an epoch. -/
def stakeAt (epoch : Epoch) (history : Option StakeHistory) : ℕ :=
  (d.stakeActivatingAndDeactivating epoch history).effective

lemma warmup_le (history : StakeHistory) (n : ℕ) :
    ∀ prevEpoch prev current, current ≤ d.stake →
      d.warmup history n prevEpoch prev current ≤ d.stake := by
  induction n with
  | zero =>
    intro prevEpoch prev current hcurrent
    rw [warmup]
    dsimp only
    split_ifs <;> omega
  | succ n ih =>
    intro prevEpoch prev current hcurrent
    rw [warmup]
    dsimp only
    split_ifs with hact hge hdeact
    · exact hcurrent
    · exact le_rfl
    · omega
    · split
      · exact ih _ _ _ (by omega)
      · omega

lemma cooldown_le (history : StakeHistory) (n : ℕ) :
    ∀ prevEpoch prev current, d.cooldown history n prevEpoch prev current ≤ current := by
  induction n with
  | zero =>
    intro prevEpoch prev current
    rw [cooldown]
    dsimp only
    split_ifs <;> omega
  | succ n ih =>
    intro prevEpoch prev current
    rw [cooldown]
    dsimp only
    split_ifs with hdeact hzero
    · exact le_rfl
    · omega
    · split
      · exact (ih _ _ _).trans (by omega)
      · omega

lemma stakeAndActivating_fst_le (targetEpoch : Epoch) (history : Option StakeHistory) :
    (d.stakeAndActivating targetEpoch history).1 ≤ d.stake := by
  unfold stakeAndActivating
  split_ifs
  · exact le_rfl
  · exact Nat.zero_le _
  · exact Nat.zero_le _
  · exact Nat.zero_le _
  · split
    · split
      · exact d.warmup_le _ _ _ _ _ (Nat.zero_le _)
      · exact le_rfl
    · exact le_rfl

/-- The stake effective at an epoch is at most the delegated stake. -/
lemma stakeAt_le (epoch : Epoch) (history : Option StakeHistory) :
    d.stakeAt epoch history ≤ d.stake := by
  have hfst := d.stakeAndActivating_fst_le epoch history
  rcases hsa : d.stakeAndActivating epoch history with ⟨effective, activating⟩
  rw [hsa] at hfst
  unfold stakeAt stakeActivatingAndDeactivating
  rw [hsa]
  dsimp only
  split_ifs
  · exact hfst
  · exact hfst
  · split
    · split
      · exact (d.cooldown_le _ _ _ _ _).trans hfst
      · exact Nat.zero_le _
    · exact Nat.zero_le _

end Delegation

namespace Stake

/-- `Stake::stake`. -/
def stakeAt (stake : Stake Key) (epoch : Epoch) (history : Option StakeHistory) : ℕ :=
  stake.delegation.stakeAt epoch history

/-- `Stake::split`: the stake that remains and the stake split off. -/
def split (stake : Stake Key) (remainingStakeDelta splitStakeAmount : ℕ) :
    Except StakeError (Stake Key × Stake Key) :=
  if remainingStakeDelta > stake.delegation.stake then .error .insufficientStake
  else
    .ok ({ stake with
            delegation := { stake.delegation with
              stake := stake.delegation.stake - remainingStakeDelta } },
         { stake with delegation := { stake.delegation with stake := splitStakeAmount } })

/-- `Stake::deactivate`. -/
def deactivate (stake : Stake Key) (epoch : Epoch) : Except StakeError (Stake Key) :=
  if stake.delegation.deactivationEpoch ≠ u64Max then .error .alreadyDeactivated
  else .ok { stake with delegation := { stake.delegation with deactivationEpoch := epoch } }

end Stake

end VelasChain.StakeProgram
