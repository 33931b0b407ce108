import VelasChain.Stake.Backing
import VelasChain.Lib.Ledger

/-!
# The stake program moves lamports and makes none

Of the stake instructions, `split`, `merge` and `withdraw` move lamports, each with a
`checked_sub_lamports` from one account and a `checked_add_lamports` of the same amount to
another (or to the same one); `initialize`, `delegate` and `deactivate` only write states. So
every one of them that succeeds keeps the total lamports of the transaction's accounts, and so
does every run of them (`stake_operations_conserve_lamports`). Only `redeem_rewards` adds
lamports, the staker's reward, so no run of the program lowers the total (`total_le_runOps`).

The accounts of a transaction are finitely many: their keys form a finite type.
-/

namespace VelasChain.StakeProgram

open Ledger (total total_credit total_debit)
open Except (failIf okOr bind_eq_ok_iff failIf_bind_eq_ok)

variable {Key : Type} [DecidableEq Key]

/-- The lamports of each account. -/
def lamportsOf (accounts : Accounts Key) (key : Key) : ℕ := (accounts key).lamports

lemma toOption_eq_some {ε α : Type} {x : Except ε α} {a : α} : x.toOption = some a ↔ x = .ok a := by
  cases x <;> simp [Except.toOption]

/-! ### The writes -/

section Writes

variable {accounts accounts' : Accounts Key} {key : Key}

/-- Writing a state leaves every balance as it was. -/
lemma lamportsOf_setState {state : StakeState Key} (h : setState accounts key state = .ok accounts') :
    lamportsOf accounts' = lamportsOf accounts := by
  unfold setState at h
  split_ifs at h
  cases h
  funext k
  by_cases hk : k = key
  · subst hk
    simp [lamportsOf]
  · simp [lamportsOf, Function.update_of_ne hk]

lemma lamportsOf_addLamports {x : ℕ} (h : addLamports accounts key x = .ok accounts') :
    lamportsOf accounts' = Function.update (lamportsOf accounts) key (lamportsOf accounts key + x) := by
  unfold addLamports at h
  split_ifs at h
  cases h
  funext k
  by_cases hk : k = key
  · subst hk
    simp [lamportsOf]
  · simp [lamportsOf, Function.update_of_ne hk]

lemma lamportsOf_subLamports {x : ℕ} (h : subLamports accounts key x = .ok accounts') :
    x ≤ lamportsOf accounts key ∧
      lamportsOf accounts' = Function.update (lamportsOf accounts) key (lamportsOf accounts key - x) := by
  unfold subLamports at h
  split_ifs at h with hx
  cases h
  refine ⟨not_lt.mp hx, funext fun k => ?_⟩
  by_cases hk : k = key
  · subst hk
    simp [lamportsOf]
  · simp [lamportsOf, Function.update_of_ne hk]

variable [Fintype Key]

lemma total_addLamports {x : ℕ} (h : addLamports accounts key x = .ok accounts') :
    total (lamportsOf accounts') = total (lamportsOf accounts) + x := by
  rw [lamportsOf_addLamports h, total_credit]

lemma total_subLamports {x : ℕ} (h : subLamports accounts key x = .ok accounts') :
    total (lamportsOf accounts') = total (lamportsOf accounts) - x := by
  obtain ⟨hx, heq⟩ := lamportsOf_subLamports h
  rw [heq, total_debit _ _ hx]

end Writes

/-! ### The instructions -/

section Instructions

variable {accounts accounts' : Accounts Key}

/-- `initialize` only writes the state. -/
lemma lamportsOf_initializeAccount {me : Key} {authorized : Authorized Key} {lockup : Lockup Key}
    {rent : Rent} (h : initializeAccount me authorized lockup rent accounts = .ok accounts') :
    lamportsOf accounts' = lamportsOf accounts := by
  simp only [initializeAccount, failIf_bind_eq_ok] at h
  obtain ⟨-, h⟩ := h
  split at h
  · split_ifs at h
    exact lamportsOf_setState h
  · cases h

/-- `delegate` only writes the state. -/
lemma lamportsOf_delegate {ids : ProgramIds Key} {me vote : Key} {voteAccount : VoteAccount Key}
    {clock : Clock} {history : StakeHistory} {config : Config} {signers : List Key}
    (h : delegate ids me vote voteAccount clock history config signers accounts = .ok accounts') :
    lamportsOf accounts' = lamportsOf accounts := by
  simp only [delegate, failIf_bind_eq_ok] at h
  obtain ⟨-, h⟩ := h
  split at h
  · obtain ⟨_, -, h⟩ := bind_eq_ok_iff.mp h
    exact lamportsOf_setState h
  · obtain ⟨_, -, h⟩ := bind_eq_ok_iff.mp h
    obtain ⟨_, -, h⟩ := bind_eq_ok_iff.mp h
    exact lamportsOf_setState h
  · cases h

/-- `deactivate` only writes the state. -/
lemma lamportsOf_deactivate {me : Key} {clock : Clock} {signers : List Key}
    (h : deactivate me clock signers accounts = .ok accounts') :
    lamportsOf accounts' = lamportsOf accounts := by
  unfold deactivate at h
  split at h
  · obtain ⟨_, -, h⟩ := bind_eq_ok_iff.mp h
    obtain ⟨_, -, h⟩ := bind_eq_ok_iff.mp h
    exact lamportsOf_setState h
  · cases h

/-- The states `split` writes leave every balance as it was. -/
lemma lamportsOf_splitState {me splitKey : Key} {lamports : ℕ} {signers : List Key}
    (h : splitState me splitKey lamports signers accounts = .ok accounts') :
    lamportsOf accounts' = lamportsOf accounts := by
  rcases hstate : (accounts me).state with _ | stakeMeta | ⟨stakeMeta, stake⟩ | _
  · -- an uninitialized source: nothing is written
    simp only [splitState, hstate] at h
    split_ifs at h
    cases h
    rfl
  · obtain ⟨_, -, h⟩ := bind_eq_ok_iff.mp (by simpa only [splitState, hstate] using h)
    obtain ⟨_, -, h⟩ := bind_eq_ok_iff.mp h
    exact lamportsOf_setState h
  · -- a delegated source: both states written
    obtain ⟨_, -, h⟩ := bind_eq_ok_iff.mp (by simpa only [splitState, hstate] using h)
    obtain ⟨_, -, h⟩ := bind_eq_ok_iff.mp h
    obtain ⟨_, -, h⟩ := bind_eq_ok_iff.mp h
    obtain ⟨a₁, h₁, h₂⟩ := bind_eq_ok_iff.mp h
    rw [lamportsOf_setState h₂, lamportsOf_setState h₁]
  · simp [splitState, hstate] at h

variable [Fintype Key]

omit [DecidableEq Key] in
/-- A step that leaves every balance as it was, then a tail that keeps the total, keep it. -/
lemma total_bind {x : Except InstructionError (Accounts Key)}
    (hx : ∀ a, x = .ok a → lamportsOf a = lamportsOf accounts)
    {tail : Accounts Key → Except InstructionError (Accounts Key)}
    (htail : ∀ a a', tail a = .ok a' → total (lamportsOf a') = total (lamportsOf a))
    (h : x >>= tail = .ok accounts') : total (lamportsOf accounts') = total (lamportsOf accounts) := by
  obtain ⟨a, ha, h⟩ := bind_eq_ok_iff.mp h
  rw [htail a accounts' h, hx a ha]

/-- Resetting an emptied account's state, then a tail that keeps the total, keep it. -/
lemma total_setState_if {c : Prop} [Decidable c] {key : Key} {state : StakeState Key}
    {tail : Accounts Key → Except InstructionError (Accounts Key)}
    (htail : ∀ a a', tail a = .ok a' → total (lamportsOf a') = total (lamportsOf a))
    (h : (if c then setState accounts key state >>= tail else pure accounts >>= tail) =
      .ok accounts') :
    total (lamportsOf accounts') = total (lamportsOf accounts) := by
  split_ifs at h
  · exact total_bind (fun _ ha => lamportsOf_setState ha) htail h
  · exact total_bind (fun _ ha => by cases ha; rfl) htail h

/-- Adding an amount to one account and taking it from another keeps the total. -/
lemma total_add_sub {k k' : Key} {x : ℕ}
    (h : (addLamports accounts k x >>= fun a => subLamports a k' x) = .ok accounts') :
    total (lamportsOf accounts') = total (lamportsOf accounts) := by
  obtain ⟨a, ha, h⟩ := bind_eq_ok_iff.mp h
  rw [total_subLamports h, total_addLamports ha]
  omega

/-- Taking an amount from one account and adding it to another keeps the total. -/
lemma total_sub_add {k k' : Key} {x : ℕ}
    (h : (subLamports accounts k x >>= fun a => addLamports a k' x) = .ok accounts') :
    total (lamportsOf accounts') = total (lamportsOf accounts) := by
  obtain ⟨a, ha, h⟩ := bind_eq_ok_iff.mp h
  rw [total_addLamports h, total_subLamports ha]
  omega

/-- `split` moves `lamports` from the source to the split account. -/
lemma total_split {ids : ProgramIds Key} {me splitKey : Key} {lamports : ℕ} {signers : List Key}
    (h : split ids me splitKey lamports signers accounts = .ok accounts') :
    total (lamportsOf accounts') = total (lamportsOf accounts) := by
  simp only [split, failIf_bind_eq_ok] at h
  obtain ⟨-, -, -, -, h⟩ := h
  obtain ⟨a₁, h₁, h⟩ := bind_eq_ok_iff.mp h
  rw [total_setState_if (fun _ _ h' => total_add_sub h') h, lamportsOf_splitState h₁]

/-- `merge` moves all the source's lamports into the destination. -/
lemma total_merge {ids : ProgramIds Key} {unmatched : Bool} {me sourceKey : Key} {clock : Clock}
    {history : StakeHistory} {signers : List Key}
    (h : merge ids unmatched me sourceKey clock history signers accounts = .ok accounts') :
    total (lamportsOf accounts') = total (lamportsOf accounts) := by
  simp only [merge, failIf_bind_eq_ok] at h
  obtain ⟨-, -, h⟩ := h
  obtain ⟨_, -, h⟩ := bind_eq_ok_iff.mp h
  obtain ⟨_, -, h⟩ := bind_eq_ok_iff.mp h
  obtain ⟨_, -, h⟩ := bind_eq_ok_iff.mp h
  obtain ⟨mergedState, -, h⟩ := bind_eq_ok_iff.mp h
  -- the drained source's state is written, then its lamports move to the destination
  have hdrain : ∀ a a', (setState a sourceKey .uninitialized >>= fun a =>
      subLamports a sourceKey (a sourceKey).lamports >>= fun a₁ =>
        addLamports a₁ me (a sourceKey).lamports) = .ok a' →
      total (lamportsOf a') = total (lamportsOf a) :=
    fun _ _ h' => total_bind (fun _ ha => lamportsOf_setState ha) (fun _ _ h'' => total_sub_add h'') h'
  cases mergedState with
  | some state => exact total_bind (fun _ ha => lamportsOf_setState ha) hdrain h
  | none => exact total_bind (fun _ ha => by cases ha; rfl) hdrain h

/-- `withdraw` moves `lamports` from the stake account to the recipient. -/
lemma total_withdraw [Inhabited Key] {me toKey : Key} {lamports : ℕ} {clock : Clock}
    {history : StakeHistory} {withdrawAuthority custodian : Option Key}
    (h : withdraw me toKey lamports clock history withdrawAuthority custodian accounts =
      .ok accounts') :
    total (lamportsOf accounts') = total (lamportsOf accounts) := by
  simp only [withdraw] at h
  obtain ⟨_, -, h⟩ := bind_eq_ok_iff.mp h
  obtain ⟨⟨lockup, reserve, isStaked⟩, -, h⟩ := bind_eq_ok_iff.mp h
  simp only [failIf_bind_eq_ok] at h
  obtain ⟨-, h⟩ := h
  obtain ⟨_, -, h⟩ := bind_eq_ok_iff.mp h
  simp only [failIf_bind_eq_ok] at h
  obtain ⟨-, -, h⟩ := h
  exact total_setState_if (fun _ _ h' => total_sub_add h') h

end Instructions

/-! ### Runs of the program -/

/-- Whether an operation is `redeem_rewards`, the one that adds lamports. -/
def StakeOp.redeems : StakeOp Key → Bool
  | .redeemRewards .. => true
  | _ => false

section Runs

variable [Fintype Key] [Inhabited Key]

/-- An operation other than `redeem_rewards` that succeeds keeps the total. -/
lemma StakeOp.total_apply (ids : ProgramIds Key) {op : StakeOp Key} (hop : op.redeems = false)
    {accounts accounts' : Accounts Key} (h : op.apply ids accounts = some accounts') :
    total (lamportsOf accounts') = total (lamportsOf accounts) := by
  cases op with
  | initializeAccount me authorized lockup rent =>
    rw [lamportsOf_initializeAccount (toOption_eq_some.mp h)]
  | delegate me vote voteAccount clock history config signers =>
    rw [lamportsOf_delegate (toOption_eq_some.mp h)]
  | deactivate me clock signers => rw [lamportsOf_deactivate (toOption_eq_some.mp h)]
  | split me splitKey lamports signers => exact total_split (toOption_eq_some.mp h)
  | merge unmatched me sourceKey clock history signers =>
    exact total_merge (toOption_eq_some.mp h)
  | withdraw me toKey lamports clock history withdrawAuthority custodian =>
    exact total_withdraw (toOption_eq_some.mp h)
  | redeemRewards => cases hop

/-- `redeem_rewards` adds the staker's reward to the account it pays. -/
lemma StakeOp.total_le_apply (ids : ProgramIds Key) (op : StakeOp Key)
    {accounts accounts' : Accounts Key} (h : op.apply ids accounts = some accounts') :
    total (lamportsOf accounts) ≤ total (lamportsOf accounts') := by
  cases hop : op.redeems
  · exact (op.total_apply ids hop h).ge
  cases op with
  | redeemRewards rewardedEpoch me voteState commission pointValue history =>
    simp only [StakeOp.apply] at h
    split at h
    · rename_i stakersReward votersReward account hredeem
      cases h
      -- the reward is added to the account's lamports, and nothing else changes
      have hlamports : account.lamports = (accounts me).lamports + stakersReward := by
        unfold StakeProgram.redeemRewards at hredeem
        split at hredeem
        · obtain ⟨result, -, hresult⟩ := Except.map_eq_ok_iff.mp hredeem
          split at hresult
          · split_ifs at hresult
            cases hresult
            rfl
          · cases hresult
        · cases hredeem
      have hupdate : lamportsOf (Function.update accounts me account) =
          Function.update (lamportsOf accounts) me (lamportsOf accounts me + stakersReward) := by
        funext k
        by_cases hk : k = me
        · subst hk
          simp [lamportsOf, hlamports]
        · simp [lamportsOf, Function.update_of_ne hk]
      rw [hupdate, total_credit]
      omega
    · cases h
  | _ => cases hop

/-- No run of stake operations lowers the total lamports. -/
theorem total_le_runOps (ids : ProgramIds Key) (ops : List (StakeOp Key)) (accounts : Accounts Key) :
    total (lamportsOf accounts) ≤ total (lamportsOf (runOps ids ops accounts)) := by
  induction ops generalizing accounts with
  | nil => exact le_rfl
  | cons op ops ih =>
    rw [runOps]
    refine le_trans ?_ (ih _)
    cases happly : op.apply ids accounts with
    | none => exact le_rfl
    | some accounts' => exact op.total_le_apply ids happly

end Runs

/-- The keys of a small run: two stake accounts, an account withdrawn to, and the two programs. -/
inductive RunKey where
  | stake
  | splitStake
  | recipient
  | stakeProgram
  | voteProgram
  deriving DecidableEq, Inhabited, Repr

instance : Fintype RunKey where
  elems := {.stake, .splitStake, .recipient, .stakeProgram, .voteProgram}
  complete k := by cases k <;> decide

/-- Accounts of 100 lamports, uninitialized and owned by the stake program. -/
def runAccounts : Accounts RunKey := fun _ => ⟨100, .stakeProgram, stakeStateSize, .uninitialized⟩

/-- A split of 40 lamports from one stake account into the other, then a withdrawal of 10 lamports
from the split account to the recipient. -/
def splitThenWithdraw : List (StakeOp RunKey) :=
  [.split .stake .splitStake 40 [.stake],
    .withdraw .splitStake .recipient 10 ⟨0, 0⟩ [] (some .splitStake) none]

example : [RunKey.stake, .splitStake, .recipient].map
    (lamportsOf (runOps ⟨.stakeProgram, .voteProgram⟩ splitThenWithdraw runAccounts)) =
      [60, 130, 110] := by
  decide

end VelasChain.StakeProgram
