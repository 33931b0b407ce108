import VelasChain.Stake.Rewards

/-!
# The stake instructions

The operations of `StakeAccount for KeyedAccount` in `programs/stake/src/stake_state.rs`
(`initialize`, `delegate`, `deactivate`, `split`, `merge`, `withdraw`), over the accounts of a
transaction by their address. Each reads its accounts, checks, and writes
states and lamports in the order the source does, so that two arguments naming one account see
each other's writes.

A keyed account's signer key is an `Option` of its address; the vote account `delegate` reads
is given with its owner and its vote state, and the stake config by its warmup rate.
-/

namespace VelasChain.StakeProgram

open VoteProgram (VoteState)
open Except (failIf okOr)

variable {Key : Type} [DecidableEq Key]

/-- The accounts of a transaction, by address. -/
abbrev Accounts (Key : Type) := Key → StakeAccount Key

/-- A vote account, by what `delegate` reads of it. -/
structure VoteAccount (Key : Type) where
  owner : Key
  voteState : VoteState

/-- `stake::config::Config`. -/
structure Config where
  warmupCooldownRate : ℚ

/-- The program ids the stake program checks owners against. -/
structure ProgramIds (Key : Type) where
  stakeProgramId : Key
  voteProgramId : Key

/-- `instruction::checked_add`. -/
def checkedAdd (a b : ℕ) : Except InstructionError ℕ :=
  okOr .insufficientFunds (Wrapping.checkedAdd 64 a b)

/-- `set_state`: the state's encoding must fit in the account's data. -/
def setState (accounts : Accounts Key) (key : Key) (state : StakeState Key) :
    Except InstructionError (Accounts Key) :=
  if state.serializedSize > (accounts key).dataLen then .error .accountDataTooSmall
  else .ok (Function.update accounts key { accounts key with state })

/-- `checked_add_lamports`. -/
def addLamports (accounts : Accounts Key) (key : Key) (lamports : ℕ) :
    Except InstructionError (Accounts Key) :=
  if (accounts key).lamports + lamports > u64Max then .error .arithmeticOverflow
  else .ok (Function.update accounts key
    { accounts key with lamports := (accounts key).lamports + lamports })

/-- `checked_sub_lamports`. -/
def subLamports (accounts : Accounts Key) (key : Key) (lamports : ℕ) :
    Except InstructionError (Accounts Key) :=
  if lamports > (accounts key).lamports then .error .arithmeticOverflow
  else .ok (Function.update accounts key
    { accounts key with lamports := (accounts key).lamports - lamports })

/-! ### Initialize, delegate, deactivate -/

/-- `initialize`, which Lean reserves as a word. -/
def initializeAccount (me : Key) (authorized : Authorized Key) (lockup : Lockup Key) (rent : Rent)
    (accounts : Accounts Key) : Except InstructionError (Accounts Key) := do
  let account := accounts me
  failIf (account.dataLen ≠ stakeStateSize) .invalidAccountData
  match account.state with
  | .uninitialized =>
    let rentExemptReserve := rent.minimumBalance account.dataLen
    let minimumBalance := Wrapping.add 64 rentExemptReserve minimumStakeDelegation
    if account.lamports ≥ minimumBalance then
      setState accounts me (.initialized ⟨rentExemptReserve, authorized, lockup⟩)
    else .error .insufficientFunds
  | _ => .error .invalidAccountData

/-- `new_stake`. -/
def newStake (stake : ℕ) (voterPubkey : Key) (voteState : VoteState) (activationEpoch : Epoch)
    (config : Config) : Stake Key :=
  ⟨⟨voterPubkey, stake, activationEpoch, u64Max, config.warmupCooldownRate⟩, voteState.credits⟩

/-- `redelegate`: a stake still effective can only take back its deactivation, in the epoch
of the deactivation and to the same voter; otherwise it is delegated anew. -/
def redelegate (stake : Stake Key) (stakeLamports : ℕ) (voterPubkey : Key) (voteState : VoteState)
    (clock : Clock) (history : StakeHistory) (config : Config) : Except StakeError (Stake Key) :=
  if stake.stakeAt clock.epoch (some history) ≠ 0 then
    if stake.delegation.voterPubkey = voterPubkey ∧
        clock.epoch = stake.delegation.deactivationEpoch then
      .ok { stake with delegation := { stake.delegation with deactivationEpoch := u64Max } }
    else .error .tooSoonToRedelegate
  else .ok (newStake stakeLamports voterPubkey voteState clock.epoch config)

/-- `validate_delegated_amount`: the rent reserve is not staked. -/
def validateDelegatedAmount (account : StakeAccount Key) (stakeMeta : Meta Key) : ℕ :=
  account.lamports - stakeMeta.rentExemptReserve

/-- `delegate`. -/
def delegate (ids : ProgramIds Key) (me vote : Key) (voteAccount : VoteAccount Key) (clock : Clock)
    (history : StakeHistory) (config : Config) (signers : List Key) (accounts : Accounts Key) :
    Except InstructionError (Accounts Key) := do
  failIf (voteAccount.owner ≠ ids.voteProgramId) .incorrectProgramId
  let account := accounts me
  match account.state with
  | .initialized stakeMeta => do
    stakeMeta.authorized.check signers .staker
    let stakeAmount := validateDelegatedAmount account stakeMeta
    let stake := newStake stakeAmount vote voteAccount.voteState clock.epoch config
    setState accounts me (.stake stakeMeta stake)
  | .stake stakeMeta stake => do
    stakeMeta.authorized.check signers .staker
    let stakeAmount := validateDelegatedAmount account stakeMeta
    let stake ← (redelegate stake stakeAmount vote voteAccount.voteState clock history
      config).mapError .custom
    setState accounts me (.stake stakeMeta stake)
  | _ => .error .invalidAccountData

/-- `deactivate`. -/
def deactivate (me : Key) (clock : Clock) (signers : List Key) (accounts : Accounts Key) :
    Except InstructionError (Accounts Key) :=
  match (accounts me).state with
  | .stake stakeMeta stake => do
    stakeMeta.authorized.check signers .staker
    let stake ← (stake.deactivate clock.epoch).mapError .custom
    setState accounts me (.stake stakeMeta stake)
  | _ => .error .invalidAccountData

/-! ### Split -/

structure ValidatedSplitInfo where
  sourceRemainingBalance : ℕ
  destinationRentExemptReserve : ℕ

/-- `calculate_split_rent_exempt_reserve`: the source's reserve scaled to the split account's
length. -/
def calculateSplitRentExemptReserve (sourceRentExemptReserve sourceDataLen splitDataLen : ℕ) :
    ℕ :=
  Wrapping.mul 64 (sourceRentExemptReserve / (sourceDataLen + accountStorageOverhead))
    (splitDataLen + accountStorageOverhead)

/-- `validate_split_amount`: both accounts keep their minimum balance, the source unless it is
emptied. -/
def validateSplitAmount (source destination : StakeAccount Key) (lamports : ℕ)
    (sourceMeta : Meta Key) (hasSourceStake : Bool) :
    Except InstructionError ValidatedSplitInfo := do
  failIf (lamports = 0) .insufficientFunds
  failIf (lamports > source.lamports) .insufficientFunds
  let sourceMinimumBalance := min (sourceMeta.rentExemptReserve + minimumStakeDelegation) u64Max
  let sourceRemainingBalance := source.lamports - lamports
  failIf (sourceRemainingBalance ≠ 0 ∧ sourceRemainingBalance < sourceMinimumBalance)
    .insufficientFunds
  let destinationRentExemptReserve := calculateSplitRentExemptReserve
    sourceMeta.rentExemptReserve source.dataLen destination.dataLen
  let destinationMinimumBalance :=
    min (destinationRentExemptReserve + minimumStakeDelegation) u64Max
  let destinationBalanceDeficit := destinationMinimumBalance - destination.lamports
  failIf (lamports < destinationBalanceDeficit) .insufficientFunds
  failIf (hasSourceStake = true ∧ lamports < minimumStakeDelegation) .insufficientFunds
  pure ⟨sourceRemainingBalance, destinationRentExemptReserve⟩

/-- The stake moved by a split of a delegated account, and the stake the split account gets:
splitting everything moves the stake less the source's reserve, so that prefunding the split
account or a smaller reserve activates nothing; otherwise the split account's own reserve is
covered first. -/
def splitStakeAmounts (lamports splitLamports : ℕ) (stakeMeta : Meta Key)
    (info : ValidatedSplitInfo) : ℕ × ℕ :=
  if info.sourceRemainingBalance = 0 then
    let remainingStakeDelta := lamports - stakeMeta.rentExemptReserve
    (remainingStakeDelta, remainingStakeDelta)
  else (lamports, lamports - (info.destinationRentExemptReserve - splitLamports))

/-- The states `split` writes, by the source's state. -/
def splitState (me splitKey : Key) (lamports : ℕ) (signers : List Key)
    (accounts : Accounts Key) : Except InstructionError (Accounts Key) :=
  let account := accounts me
  let splitAccount := accounts splitKey
  match account.state with
  | .stake stakeMeta stake => do
    stakeMeta.authorized.check signers .staker
    let info ← validateSplitAmount account splitAccount lamports stakeMeta true
    let (remainingStakeDelta, splitStakeAmount) :=
      splitStakeAmounts lamports splitAccount.lamports stakeMeta info
    let (stake, splitStake) ←
      (stake.split remainingStakeDelta splitStakeAmount).mapError .custom
    let splitMeta := { stakeMeta with rentExemptReserve := info.destinationRentExemptReserve }
    let accounts ← setState accounts me (.stake stakeMeta stake)
    setState accounts splitKey (.stake splitMeta splitStake)
  | .initialized stakeMeta => do
    stakeMeta.authorized.check signers .staker
    let info ← validateSplitAmount account splitAccount lamports stakeMeta false
    setState accounts splitKey
      (.initialized { stakeMeta with rentExemptReserve := info.destinationRentExemptReserve })
  | .uninitialized => if me ∈ signers then .ok accounts else .error .missingRequiredSignature
  | .rewardsPool => .error .invalidAccountData

/-- `split`. -/
def split (ids : ProgramIds Key) (me splitKey : Key) (lamports : ℕ) (signers : List Key)
    (accounts : Accounts Key) : Except InstructionError (Accounts Key) := do
  let splitAccount := accounts splitKey
  failIf (splitAccount.owner ≠ ids.stakeProgramId) .incorrectProgramId
  failIf (splitAccount.dataLen ≠ stakeStateSize) .invalidAccountData
  failIf (splitAccount.state ≠ .uninitialized) .invalidAccountData
  failIf (lamports > (accounts me).lamports) .insufficientFunds
  let accounts ← splitState me splitKey lamports signers accounts
  -- deinitialize state upon zero balance
  let accounts ←
    if lamports = (accounts me).lamports then setState accounts me .uninitialized
    else pure accounts
  let accounts ← addLamports accounts splitKey lamports
  subLamports accounts me lamports

/-! ### Merge -/

/-- `MergeKind`: a stake account with no transient stake. -/
inductive MergeKind (Key : Type) where
  | inactive (stakeMeta : Meta Key) (lamports : ℕ)
  | activationEpoch (stakeMeta : Meta Key) (stake : Stake Key)
  | fullyActive (stakeMeta : Meta Key) (stake : Stake Key)

namespace MergeKind

/-- `MergeKind::meta`. -/
def stakeMeta : MergeKind Key → Meta Key
  | .inactive m _ => m
  | .activationEpoch m _ => m
  | .fullyActive m _ => m

/-- `MergeKind::active_stake`. -/
def activeStake : MergeKind Key → Option (Stake Key)
  | .inactive _ _ => none
  | .activationEpoch _ stake => some stake
  | .fullyActive _ stake => some stake

/-- `MergeKind::get_if_mergeable`. -/
def getIfMergeable (account : StakeAccount Key) (clock : Clock) (history : StakeHistory) :
    Except InstructionError (MergeKind Key) :=
  match account.state with
  | .stake stakeMeta stake =>
    let status := stake.delegation.stakeActivatingAndDeactivating clock.epoch (some history)
    match status.effective, status.activating, status.deactivating with
    | 0, 0, 0 => .ok (.inactive stakeMeta account.lamports)
    | 0, _, _ => .ok (.activationEpoch stakeMeta stake)
    | _, 0, 0 => .ok (.fullyActive stakeMeta stake)
    | _, _, _ => .error (.custom .mergeTransientStake)
  | .initialized stakeMeta => .ok (.inactive stakeMeta account.lamports)
  | _ => .error .invalidAccountData

/-- `MergeKind::metas_can_merge`: lockups may differ once both have expired. -/
def metasCanMerge (stake source : Meta Key) (clock : Clock) : Except InstructionError Unit :=
  let canMergeLockups := stake.lockup = source.lockup ∨
    (stake.lockup.isInForce clock none = false ∧ source.lockup.isInForce clock none = false)
  if stake.authorized = source.authorized ∧ canMergeLockups then .ok ()
  else .error (.custom .mergeMismatch)

/-- `f64::EPSILON`. -/
def f64Epsilon : ℚ := 1 / 2 ^ 52

/-- `MergeKind::active_delegations_can_merge`: same voter, neither deactivated. -/
def activeDelegationsCanMerge (stake source : Delegation Key) : Except InstructionError Unit :=
  if stake.voterPubkey ≠ source.voterPubkey then .error (.custom .mergeMismatch)
  else if |stake.warmupCooldownRate - source.warmupCooldownRate| < f64Epsilon ∧
      stake.deactivationEpoch = u64Max ∧ source.deactivationEpoch = u64Max then .ok ()
  else .error (.custom .mergeMismatch)

/-- `MergeKind::active_stakes_can_merge`. -/
def activeStakesCanMerge (stake source : Stake Key) : Except InstructionError Unit := do
  activeDelegationsCanMerge stake.delegation source.delegation
  if stake.creditsObserved = source.creditsObserved then .ok ()
  else .error (.custom .mergeMismatch)

end MergeKind

/-- `stake_weighted_credits_observed`: the credits observed of a merged stake, the average of
the two weighted by stake, rounded up. -/
def stakeWeightedCreditsObserved (stake : Stake Key) (absorbedLamports absorbedCreditsObserved : ℕ) :
    Option ℕ :=
  if stake.creditsObserved = absorbedCreditsObserved then some stake.creditsObserved
  else do
    let totalStake ← Wrapping.checkedAdd 64 stake.delegation.stake absorbedLamports
    let stakeWeightedCredits ←
      Wrapping.checkedMul 128 stake.creditsObserved stake.delegation.stake
    let absorbedWeightedCredits ←
      Wrapping.checkedMul 128 absorbedCreditsObserved absorbedLamports
    let totalWeightedCredits ←
      Wrapping.checkedAdd 128 stakeWeightedCredits absorbedWeightedCredits
    let totalWeightedCredits ← Wrapping.checkedAdd 128 totalWeightedCredits totalStake
    let totalWeightedCredits ← Wrapping.checkedSub totalWeightedCredits 1
    let credits ← Wrapping.checkedDiv totalWeightedCredits totalStake
    if credits ≤ u64Max then some credits else none

/-- `merge_delegation_stake_and_credits_observed`. -/
def mergeDelegationStakeAndCreditsObserved (unmatchedCreditsObserved : Bool) (stake : Stake Key)
    (absorbedLamports absorbedCreditsObserved : ℕ) : Except InstructionError (Stake Key) := do
  let stake ←
    if unmatchedCreditsObserved then do
      let creditsObserved ← okOr .arithmeticOverflow
        (stakeWeightedCreditsObserved stake absorbedLamports absorbedCreditsObserved)
      pure { stake with creditsObserved }
    else pure stake
  let merged ← checkedAdd stake.delegation.stake absorbedLamports
  pure { stake with delegation := { stake.delegation with stake := merged } }

/-- `MergeKind::merge`: the state the destination takes, if it changes. A source with stake
still activating brings its reserve into the stake; a fully active source brings only its
stake, its reserve becoming withdrawable lamports. -/
def MergeKind.merge (unmatchedCreditsObserved : Bool) (self source : MergeKind Key)
    (clock : Clock) : Except InstructionError (Option (StakeState Key)) := do
  metasCanMerge self.stakeMeta source.stakeMeta clock
  match self.activeStake, source.activeStake with
  | some stake, some sourceStake =>
    if unmatchedCreditsObserved then
      activeDelegationsCanMerge stake.delegation sourceStake.delegation
    else activeStakesCanMerge stake sourceStake
  | _, _ => pure ()
  match self, source with
  | .inactive _ _, .inactive _ _ => pure none
  | .inactive _ _, .activationEpoch _ _ => pure none
  | .activationEpoch stakeMeta stake, .inactive _ sourceLamports => do
    let merged ← checkedAdd stake.delegation.stake sourceLamports
    pure (some (.stake stakeMeta { stake with delegation := { stake.delegation with stake := merged } }))
  | .activationEpoch stakeMeta stake, .activationEpoch sourceMeta sourceStake => do
    let sourceLamports ← checkedAdd sourceMeta.rentExemptReserve sourceStake.delegation.stake
    let stake ← mergeDelegationStakeAndCreditsObserved unmatchedCreditsObserved stake
      sourceLamports sourceStake.creditsObserved
    pure (some (.stake stakeMeta stake))
  | .fullyActive stakeMeta stake, .fullyActive _ sourceStake => do
    let stake ← mergeDelegationStakeAndCreditsObserved unmatchedCreditsObserved stake
      sourceStake.delegation.stake sourceStake.creditsObserved
    pure (some (.stake stakeMeta stake))
  | _, _ => .error (.custom .mergeMismatch)

/-- `merge`: the source is merged into `me` and drained. `unmatchedCreditsObserved` is the
feature `stake_merge_with_unmatched_credits_observed`. -/
def merge (ids : ProgramIds Key) (unmatchedCreditsObserved : Bool) (me sourceKey : Key)
    (clock : Clock) (history : StakeHistory) (signers : List Key) (accounts : Accounts Key) :
    Except InstructionError (Accounts Key) := do
  failIf ((accounts sourceKey).owner ≠ ids.stakeProgramId) .incorrectProgramId
  -- close the self-reference loophole
  failIf (sourceKey = me) .invalidArgument
  let stakeMergeKind ← MergeKind.getIfMergeable (accounts me) clock history
  stakeMergeKind.stakeMeta.authorized.check signers .staker
  let sourceMergeKind ← MergeKind.getIfMergeable (accounts sourceKey) clock history
  let mergedState ← stakeMergeKind.merge unmatchedCreditsObserved sourceMergeKind clock
  let accounts ←
    match mergedState with
    | some state => setState accounts me state
    | none => pure accounts
  let accounts ← setState accounts sourceKey .uninitialized
  let lamports := (accounts sourceKey).lamports
  let accounts ← subLamports accounts sourceKey lamports
  addLamports accounts me lamports

/-! ### Withdraw -/

/-- `Lockup::default()`. -/
def Lockup.default [Inhabited Key] : Lockup Key := ⟨0, 0, Inhabited.default⟩

/-- The lockup, the lamports that must stay and whether stake is still effective, by the
state of the account `withdraw` draws from. A stake is held at its full amount until its
deactivation epoch, and at its effective amount from then on. -/
def withdrawReserve [Inhabited Key] (me : Key) (account : StakeAccount Key) (clock : Clock)
    (history : StakeHistory) (signers : List Key) :
    Except InstructionError (Lockup Key × ℕ × Bool) :=
  match account.state with
  | .stake stakeMeta stake => do
    stakeMeta.authorized.check signers .withdrawer
    let staked :=
      if clock.epoch ≥ stake.delegation.deactivationEpoch then
        stake.delegation.stakeAt clock.epoch (some history)
      else stake.delegation.stake
    let stakedAndReserve ← checkedAdd staked stakeMeta.rentExemptReserve
    pure (stakeMeta.lockup, stakedAndReserve, staked ≠ 0)
  | .initialized stakeMeta => do
    stakeMeta.authorized.check signers .withdrawer
    let reserve ← checkedAdd stakeMeta.rentExemptReserve minimumStakeDelegation
    pure (stakeMeta.lockup, reserve, false)
  | .uninitialized =>
    if me ∈ signers then .ok (Lockup.default, 0, false) else .error .missingRequiredSignature
  | .rewardsPool => .error .invalidAccountData

/-- `withdraw`; the withdraw authority and the custodian are given by their signer keys. -/
def withdraw [Inhabited Key] (me toKey : Key) (lamports : ℕ) (clock : Clock)
    (history : StakeHistory) (withdrawAuthority custodian : Option Key)
    (accounts : Accounts Key) : Except InstructionError (Accounts Key) := do
  let withdrawAuthorityPubkey ← okOr .missingRequiredSignature withdrawAuthority
  let account := accounts me
  let (lockup, reserve, isStaked) ←
    withdrawReserve me account clock history [withdrawAuthorityPubkey]
  failIf (lockup.isInForce clock custodian = true) (.custom .lockupInForce)
  let lamportsAndReserve ← checkedAdd lamports reserve
  -- if the stake is active, the account must not go away
  failIf (isStaked = true ∧ lamportsAndReserve > account.lamports) .insufficientFunds
  failIf (lamports ≠ account.lamports ∧ lamportsAndReserve > account.lamports)
    .insufficientFunds
  -- deinitialize state upon zero balance
  let accounts ←
    if lamports = account.lamports then setState accounts me .uninitialized
    else pure accounts
  let accounts ← subLamports accounts me lamports
  addLamports accounts toKey lamports

end VelasChain.StakeProgram
