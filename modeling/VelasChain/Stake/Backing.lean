import VelasChain.Stake.Instructions

/-!
# Delegated stake backed by lamports

The stake program means to keep "magic activation" out: a stake that is not deactivating
should be backed by lamports beyond the account's rent reserve (`Backed`). Delegating stakes
the lamports above the reserve, splitting and merging move stake with lamports, and
withdrawing keeps the stake and the reserve in the account.

Taking back a deactivation (`redelegate` in the epoch of the deactivation, to the same voter)
does not check the stake against the lamports. During that epoch `withdraw` holds back only the
stake effective at it, which for a stake still warming up is less than its delegated amount; a
stake deactivated while warming up can therefore be emptied down to its effective stake and
then reactivated at its full amount (`rescinded_deactivation_breaks_backing`).
-/

namespace VelasChain.StakeProgram

open VoteProgram (VoteState)

variable {Key : Type} [DecidableEq Key]

/-- A stake that is not deactivating is backed by lamports beyond the rent reserve. -/
def Backed (account : StakeAccount Key) : Prop :=
  ∀ stakeMeta stake, account.state = .stake stakeMeta stake →
    stake.delegation.deactivationEpoch = u64Max →
      stake.delegation.stake + stakeMeta.rentExemptReserve ≤ account.lamports

/-- An operation of the stake program on the accounts of a transaction. -/
inductive StakeOp (Key : Type) where
  | initializeAccount (me : Key) (authorized : Authorized Key) (lockup : Lockup Key) (rent : Rent)
  | delegate (me vote : Key) (voteAccount : VoteAccount Key) (clock : Clock)
      (history : StakeHistory) (config : Config) (signers : List Key)
  | deactivate (me : Key) (clock : Clock) (signers : List Key)
  | split (me splitKey : Key) (lamports : ℕ) (signers : List Key)
  | merge (unmatchedCreditsObserved : Bool) (me sourceKey : Key) (clock : Clock)
      (history : StakeHistory) (signers : List Key)
  | withdraw (me toKey : Key) (lamports : ℕ) (clock : Clock) (history : StakeHistory)
      (withdrawAuthority custodian : Option Key)
  | redeemRewards (rewardedEpoch : Epoch) (me : Key) (voteState : VoteState) (commission : ℕ)
      (pointValue : PointValue) (history : Option StakeHistory)

/-- The accounts after an operation, or `none` if it failed or panicked and so changed
nothing. -/
def StakeOp.apply [Inhabited Key] (ids : ProgramIds Key) :
    StakeOp Key → Accounts Key → Option (Accounts Key)
  | .initializeAccount me authorized lockup rent, accounts =>
    (StakeProgram.initializeAccount me authorized lockup rent accounts).toOption
  | .delegate me vote voteAccount clock history config signers, accounts =>
    (StakeProgram.delegate ids me vote voteAccount clock history config signers accounts).toOption
  | .deactivate me clock signers, accounts =>
    (StakeProgram.deactivate me clock signers accounts).toOption
  | .split me splitKey lamports signers, accounts =>
    (StakeProgram.split ids me splitKey lamports signers accounts).toOption
  | .merge unmatched me sourceKey clock history signers, accounts =>
    (StakeProgram.merge ids unmatched me sourceKey clock history signers accounts).toOption
  | .withdraw me toKey lamports clock history withdrawAuthority custodian, accounts =>
    (StakeProgram.withdraw me toKey lamports clock history withdrawAuthority custodian
      accounts).toOption
  | .redeemRewards rewardedEpoch me voteState commission pointValue history, accounts =>
    match StakeProgram.redeemRewards rewardedEpoch (accounts me) voteState commission pointValue
      history with
    | .ok (.ok (_, _, account)) => some (Function.update accounts me account)
    | _ => none

/-- A sequence of operations, each on the accounts the one before left; a failed operation
leaves them as they were. -/
def runOps [Inhabited Key] (ids : ProgramIds Key) : List (StakeOp Key) → Accounts Key → Accounts Key
  | [], accounts => accounts
  | op :: ops, accounts => runOps ids ops ((op.apply ids accounts).getD accounts)

/-! ### Reactivating withdrawn stake -/

section Rescind

/-- The stake program, the vote program, a vote account, the authority of the stake, and the
account withdrawn to. -/
def rescindIds : ProgramIds ℕ := ⟨100, 101⟩

def rescindRent : Rent := ⟨1, 2⟩

/-- A stake account of 1656 lamports, of which 656 are its rent reserve, and an empty account. -/
def rescindStart : Accounts ℕ := fun k =>
  if k = 0 then ⟨1656, 100, stakeStateSize, .uninitialized⟩ else ⟨0, 100, 0, .uninitialized⟩

/-- The cluster at epoch 10: a thousandth of the stake activating can become effective. -/
def rescindHistory : StakeHistory := [(10, ⟨1000, 1000000, 0⟩)]

def rescindVote : VoteAccount ℕ := ⟨101, VoteState.default⟩

/-- Initialize and delegate at epoch 10; at epoch 11, while the stake is still warming up,
deactivate, withdraw all but the effective stake and the reserve, and delegate again to the
same voter. -/
def rescindRun : List (StakeOp ℕ) :=
  [.initializeAccount 0 ⟨7, 7⟩ ⟨0, 0, 7⟩ rescindRent,
   .delegate 0 2 rescindVote ⟨10, 0⟩ rescindHistory ⟨1 / 4⟩ [7],
   .deactivate 0 ⟨11, 0⟩ [7],
   .withdraw 0 1 999 ⟨11, 0⟩ rescindHistory (some 7) none,
   .delegate 0 2 rescindVote ⟨11, 0⟩ rescindHistory ⟨1 / 4⟩ [7]]

theorem rescinded_deactivation_breaks_backing :
    (∀ k, Backed (rescindStart k)) ∧ ¬ Backed (runOps rescindIds rescindRun rescindStart 0) := by
  refine ⟨fun k stakeMeta stake hstate => ?_, fun hbacked => ?_⟩
  · by_cases hk : k = 0 <;> simp [rescindStart, hk] at hstate
  · -- the stake of 1000 is active again over 657 lamports
    have hfinal : runOps rescindIds rescindRun rescindStart 0 =
        ⟨657, 100, stakeStateSize, .stake ⟨656, ⟨7, 7⟩, ⟨0, 0, 7⟩⟩
          ⟨⟨2, 1000, 10, u64Max, 1 / 4⟩, 0⟩⟩ := by
      decide +kernel
    rw [hfinal] at hbacked
    exact absurd (hbacked _ _ rfl rfl) (by decide)

end Rescind

end VelasChain.StakeProgram
