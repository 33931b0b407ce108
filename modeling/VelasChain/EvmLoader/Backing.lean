import VelasChain.EvmLoader.Processor
import VelasChain.Lib.Except
import VelasChain.Lib.Ledger
import Mathlib.Data.FinEnum

/-!
# Native lamports back the EVM balances

The `evm_state` account holds the lamports swapped into the EVM; an EVM balance is in units of
`10^-9` lamport. The backing of a state is `10^9` times the lamports of the `evm_state` account
less the sum of all EVM balances, and an instruction should never lower it.

Each path that moves value keeps the backing up to what it leaves in `ETH_TO_VLX_ADDR`: a swap
in adds the same value on both sides; an EVM fee is withdrawn from a balance and its burnt part
deposited to `BURN_ADDR`, the rest refunded in whole lamports; a native fee is charged in whole
lamports, and as the burnt part is a whole number of lamports the refund returns exactly the
rest; a swap out pays lamports that the transaction sent to `ETH_TO_VLX_ADDR`, whose balance
`reset_balance` then destroys. The one place where value is lost on the native side without
the EVM side knowing is a `saturating_add` at `u64::MAX`: a swap into an `evm_state` account
that is already full.

What SputnikVM does is assumed as `StackExecutorSpec`: a run conserves the sum of balances,
uses at most its gas limit, and `ETH_TO_VLX_ADDR` ends it with at least what it held (less the
value it sent, when it is the caller) and the value of every swap it logged.
-/

namespace VelasChain.EvmLoader

open Evm

variable {Key : Type} [DecidableEq Key]

/-- `10^9` times the lamports of the `evm_state` account less the sum of the EVM balances. -/
def backing (evmKey : Key) (s : BridgeState Key) : ℤ :=
  lamportsToGweiPrice * (s.lamports evmKey : ℤ) - Ledger.total s.balances

/-- What SputnikVM's runs are assumed to do. -/
structure StackExecutorSpec (env : Env Key) : Prop where
  total_balances : ∀ caller tx gasPrice balances,
    Ledger.total (env.stackExecute caller tx gasPrice balances).balances = Ledger.total balances
  usedGas_le : ∀ caller tx gasPrice balances,
    (env.stackExecute caller tx gasPrice balances).usedGas ≤ tx.gasLimit
  swaps_paid : ∀ caller tx gasPrice balances,
    (balances ethToVlxAddr - if caller = ethToVlxAddr then tx.value else 0) +
        lamportsToGweiPrice *
          ((env.stackExecute caller tx gasPrice balances).promises.map Prod.snd).sum ≤
      (env.stackExecute caller tx gasPrice balances).balances ethToVlxAddr

/-! ### Lamports and balances -/

omit [DecidableEq Key] in
lemma backing_eq (evmKey : Key) (s : BridgeState Key) :
    backing evmKey s = lamportsToGweiPrice * (s.lamports evmKey : ℤ) - Ledger.total s.balances :=
  rfl

lemma burnAddr_ne_ethToVlxAddr : burnAddr ≠ ethToVlxAddr := by decide

/-- A burnt fee is a whole number of lamports. -/
lemma burnGasPrice_mul (fs : Features) (gas : ℕ) :
    fs.burnGasPrice * gas = lamportsToGweiPrice * (if fs.burnFee then 2 * gas else 0) := by
  unfold Features.burnGasPrice
  split <;> simp [burnGasPrice, lamportsToGweiPrice]
  omega

/-- Taking a whole number of lamports off a fee takes exactly that many off its lamports. -/
lemma gweisToLamports_sub_whole {fee k : ℕ} (hk : lamportsToGweiPrice * k ≤ fee) :
    (gweisToLamports (fee - lamportsToGweiPrice * k)).1 + k = (gweisToLamports fee).1 := by
  simp only [gweisToLamports, lamportsToGweiPrice] at hk ⊢
  omega

lemma mul_gweisToLamports_le (fee : ℕ) : lamportsToGweiPrice * (gweisToLamports fee).1 ≤ fee := by
  simp only [gweisToLamports]
  exact Nat.mul_div_le fee lamportsToGweiPrice

/-! ### What each handler moves -/

section Handlers

variable {accounts : AccountStructure Key} {s s' : BridgeState Key}

lemma handlePromise_ok {promise : Key × ℕ} (h : handlePromise accounts s promise = .ok s') :
    s'.balances = s.balances ∧
      s'.lamports accounts.evm.key + promise.2 = s.lamports accounts.evm.key := by
  unfold handlePromise at h
  split at h
  · cases h
  · rename_i user _
    dsimp only at h
    split_ifs at h with hkey hlow
    cases h
    have hne : accounts.evm.key ≠ user.key := fun heq => hkey heq.symm
    refine ⟨rfl, ?_⟩
    simp only [BridgeState.setLamports_lamports, Function.update_of_ne hne, Function.update_self]
    omega

lemma filterNativeLogs_ok {promises : List (Key × ℕ)}
    (h : filterNativeLogs accounts promises s = .ok s') :
    s'.balances = s.balances ∧
      s'.lamports accounts.evm.key + (promises.map Prod.snd).sum = s.lamports accounts.evm.key :=
  ⟨Except.foldlM_invariant (fun b => b.balances = s.balances)
      (fun _ _ _ hb hstep => (handlePromise_ok hstep).1.trans hb) rfl h,
    Except.foldlM_measure (fun b => b.lamports accounts.evm.key) Prod.snd
      (fun _ _ _ hstep => (handlePromise_ok hstep).2) h⟩

lemma refundFee_ok {user : KeyedAccount Key} {fee : ℕ} (h : refundFee accounts user fee s = .ok s') :
    s'.balances = s.balances ∧ s'.lamports accounts.evm.key + fee = s.lamports accounts.evm.key := by
  unfold refundFee at h
  dsimp only at h
  split_ifs at h with hlow hkey hover
  cases h
  have hne : accounts.evm.key ≠ user.key := fun heq => hkey heq.symm
  refine ⟨rfl, ?_⟩
  simp only [BridgeState.setLamports_lamports, Function.update_of_ne hne, Function.update_self]
  omega

lemma chargeNativeAccount_ok {result : ExecutionResult Key} {fee : ℕ}
    {nativeAccount evmAccount : KeyedAccount Key}
    (h : chargeNativeAccount result fee nativeAccount evmAccount s = .ok s')
    (hsucc : result.exitReason = .succeed) :
    s'.balances = s.balances ∧
      s'.lamports evmAccount.key = s.lamports evmAccount.key + (gweisToLamports fee).1 := by
  unfold chargeNativeAccount at h
  rw [if_pos hsucc] at h
  dsimp only at h
  split_ifs at h with hlow hkey hover
  cases h
  refine ⟨rfl, ?_⟩
  simp only [BridgeState.setLamports_lamports, Function.update_self,
    Function.update_of_ne hkey]

/-- Cleaning up a storage other than the `evm_state` account can only add to the latter. -/
lemma cleanupStorage_ok {storage user : KeyedAccount Key} {evmKey : Key}
    (h : cleanupStorage storage user s = .ok s') (hstorage : storage.key ≠ evmKey)
    (hfit : s.lamports evmKey ≤ u64Max) :
    s'.balances = s.balances ∧ s.lamports evmKey ≤ s'.lamports evmKey := by
  unfold cleanupStorage at h
  dsimp only at h
  split_ifs at h with hkey
  cases h
  refine ⟨rfl, ?_⟩
  have hne : evmKey ≠ storage.key := fun heq => hstorage heq.symm
  by_cases huser : user.key = evmKey
  · subst huser
    simp only [BridgeState.setLamports_lamports, Function.update_self, Function.update_of_ne hne]
    omega
  · simp [Function.update_of_ne (Ne.symm huser), Function.update_of_ne hne]

omit [DecidableEq Key] in
lemma getBigTransactionStorage_ok {storage : KeyedAccount Key}
    (h : getBigTransactionStorage accounts = .ok storage) :
    storage ∈ accounts.users ∧ storage.isSigner = true := by
  unfold getBigTransactionStorage AccountStructure.first at h
  split at h
  · cases h
  · rename_i first hfirst
    split_ifs at h with hsig
    cases h
    exact ⟨List.mem_of_head? hfirst, hsig⟩

end Handlers

/-! ### The executor -/

section Executor

variable {env : Env Key} {fs : Features} {caller : H160} {tx : UnsignedTransaction} {w : Bool}
  {bal bal' : H160 → ℕ} {res : ExecutionResult Key}

lemma runGasPrice_eq_some {p g : ℕ} (h : runGasPrice fs w p = some g) :
    g = if fs.acceptZeroGasPriceWithNativeFee && !w && p = 0 then fs.burnGasPrice else p := by
  unfold runGasPrice at h
  split_ifs at h with hzero hprice <;> cases h
  · exact (if_pos hzero).symm
  · exact (if_neg hzero).symm

omit [DecidableEq Key] in
lemma withdraw_eq_some {b b' : H160 → ℕ} {source : H160} {value : ℕ}
    (h : withdraw b source value = some b') :
    value ≤ b source ∧ b' = Function.update b source (b source - value) := by
  unfold withdraw at h
  split_ifs at h with hle
  cases h
  exact ⟨hle, rfl⟩

omit [DecidableEq Key] in
/-- What a run of `transaction_execute_raw` that returns a result did. -/
lemma transactionExecuteRaw_eq_some
    (h : transactionExecuteRaw env fs caller tx w bal = some (res, bal')) :
    ∃ g, runGasPrice fs w tx.gasPrice = some g ∧
      let run := env.stackExecute caller tx g bal
      (w = true → tx.gasLimit * g + tx.value ≤ bal caller) ∧
      res.exitReason = run.exitReason ∧ res.usedGas = run.usedGas ∧
      (res.promises = [] ∨ res.promises = run.promises) ∧
      if w = true ∧ run.exitReason = .succeed then
        withdraw run.balances caller (run.usedGas * g) = some bal'
      else bal' = run.balances := by
  unfold transactionExecuteRaw at h
  -- every check that fails returns `none`; past them the run is as stated
  by_cases hadm : (!env.admissible caller tx || decide (tx.gasPrice > u64Max)) = true
  · rw [if_pos hadm] at h; cases h
  rw [if_neg hadm] at h
  obtain ⟨g, hg, h⟩ := Option.bind_eq_some_iff.mp h
  by_cases hlim : tx.gasLimit > u64Max
  · rw [if_pos hlim] at h; cases h
  rw [if_neg hlim] at h
  by_cases hbal : (w && decide (tx.gasLimit * g + tx.value > bal caller)) = true
  · rw [if_pos hbal] at h; cases h
  rw [if_neg hbal] at h
  obtain ⟨bal₁, hw, h⟩ := Option.bind_eq_some_iff.mp h
  by_cases hgas : (env.stackExecute caller tx g bal).usedGas ≥ env.blockGasLimitLeft
  · rw [if_pos hgas] at h; cases h
  rw [if_neg hgas] at h
  cases h
  refine ⟨g, hg, fun hwt => ?_, rfl, rfl, ?_, ?_⟩
  · simp only [hwt, Bool.true_and, decide_eq_true_eq] at hbal
    omega
  · split <;> simp
  · by_cases hws : w = true ∧ (env.stackExecute caller tx g bal).exitReason = .succeed
    · rw [if_pos hws]
      rwa [if_pos (by simp [hws])] at hw
    · rw [if_neg hws]
      rw [if_neg (by simpa using hws)] at hw
      exact (Option.some.inj hw).symm

omit [DecidableEq Key] in
/-- An executed transaction that succeeded took its fee, in an EVM-paid transaction, out of the
sum of balances, and left in `ETH_TO_VLX_ADDR` the value of the swaps it logged. -/
lemma transactionExecuteRaw_backing (hspec : StackExecutorSpec env)
    (h : transactionExecuteRaw env fs caller tx w bal = some (res, bal'))
    (hsucc : res.exitReason = .succeed) :
    ∃ g, runGasPrice fs w tx.gasPrice = some g ∧
      Ledger.total bal' + (if w then res.usedGas * g else 0 : ℕ) = Ledger.total bal ∧
      lamportsToGweiPrice * (res.promises.map Prod.snd).sum ≤ bal' ethToVlxAddr := by
  obtain ⟨g, hg, hrun⟩ := transactionExecuteRaw_eq_some h
  dsimp only at hrun
  obtain ⟨hmax, hexit, hgas, hprom, hbal⟩ := hrun
  have htotal := hspec.total_balances caller tx g bal
  have hpaid := hspec.swaps_paid caller tx g bal
  -- the result keeps the run's swaps, or none of them
  have hswaps : lamportsToGweiPrice * (res.promises.map Prod.snd).sum ≤
      lamportsToGweiPrice * ((env.stackExecute caller tx g bal).promises.map Prod.snd).sum := by
    apply Nat.mul_le_mul_left
    rcases hprom with hnil | hsame
    · simp [hnil]
    · rw [hsame]
  refine ⟨g, hg, ?_⟩
  cases w with
  | false =>
    rw [if_neg (by simp)] at hbal
    subst hbal
    refine ⟨by simp [htotal], ?_⟩
    omega
  | true =>
    have hsucc' : (env.stackExecute caller tx g bal).exitReason = .succeed := hexit ▸ hsucc
    rw [if_pos ⟨rfl, hsucc'⟩] at hbal
    obtain ⟨hfee, rfl⟩ := withdraw_eq_some hbal
    refine ⟨?_, ?_⟩
    · rw [if_pos rfl, Ledger.total_debit _ _ hfee, htotal, hgas]
      push_cast
      ring
    · by_cases hcaller : caller = ethToVlxAddr
      · -- the swap address paid the fee: it had the most the fee can be, and the value it sent
        subst hcaller
        rw [if_pos rfl] at hpaid
        have hfee_le : (env.stackExecute ethToVlxAddr tx g bal).usedGas * g ≤ tx.gasLimit * g :=
          Nat.mul_le_mul_right g (hspec.usedGas_le _ tx g bal)
        have hmax' := hmax rfl
        rw [Function.update_self]
        omega
      · rw [if_neg hcaller] at hpaid
        rw [Function.update_of_ne (Ne.symm hcaller)]
        omega

end Executor

/-! ### The result of a transaction -/

section Result

variable {fs : Features} {accounts : AccountStructure Key} {s s' : BridgeState Key}

omit [DecidableEq Key] in
lemma deposit_burn_total (s : BridgeState Key) (burnFee : ℕ) :
    Ledger.total (if burnFee > 0 then s.setBalances (deposit s.balances burnAddr burnFee) else s).balances =
      Ledger.total s.balances + burnFee := by
  split_ifs with hpos
  · exact Ledger.total_credit s.balances burnAddr burnFee
  · simp only [gt_iff_lt, Nat.pos_iff_ne_zero, not_not] at hpos
    simp [hpos]

omit [DecidableEq Key] in
lemma deposit_burn_ethToVlxAddr (s : BridgeState Key) (burnFee : ℕ) :
    (if burnFee > 0 then s.setBalances (deposit s.balances burnAddr burnFee) else s).balances
      ethToVlxAddr = s.balances ethToVlxAddr := by
  split_ifs
  · simp only [BridgeState.setBalances_balances, deposit,
      Function.update_of_ne burnAddr_ne_ethToVlxAddr.symm]
  · rfl

/-- A transaction result that is handled to `Ok` succeeded; the swaps it logged are paid from
the `evm_state` account, and its fee, less what is burnt, is refunded: the backing drops by at
most the swaps and, for an EVM-paid transaction, the full fee the executor withdrew. -/
lemma handleTransactionResult_backing {sender : Option (KeyedAccount Key)} {g : ℕ}
    {res : ExecutionResult Key} {w : Bool}
    (h : handleTransactionResult fs accounts sender g (some res) w s = .ok s') :
    res.exitReason = .succeed ∧ s'.balances ethToVlxAddr = s.balances ethToVlxAddr ∧
      backing accounts.evm.key s - lamportsToGweiPrice * (res.promises.map Prod.snd).sum -
          (if w then g * res.usedGas else 0 : ℕ) ≤ backing accounts.evm.key s' := by
  unfold handleTransactionResult at h
  obtain ⟨s₁, hlogs, h⟩ := Except.bind_eq_ok_iff.mp h
  obtain ⟨hbal₁, hlam₁⟩ := filterNativeLogs_ok hlogs
  by_cases hfail : res.exitReason = .fatal ∨ res.exitReason = .error
  · rw [if_pos hfail] at h; cases h
  rw [if_neg hfail] at h
  by_cases hrev : res.exitReason = .revert
  · rw [if_pos hrev] at h; cases h
  rw [if_neg hrev] at h
  have hsucc : res.exitReason = .succeed := by
    cases hr : res.exitReason <;> simp_all
  by_cases hlow : g * res.usedGas < fs.burnGasPrice * res.usedGas
  · rw [if_pos hlow] at h; cases h
  rw [if_neg hlow] at h
  dsimp only at h
  obtain ⟨s₂, hcharged, h⟩ := Except.bind_eq_ok_iff.mp h
  -- 1. a native fee reaches the evm account in whole lamports; an EVM fee was taken before
  have hcharge : s₂.balances = s₁.balances ∧
      s₂.lamports accounts.evm.key = s₁.lamports accounts.evm.key +
        (if w then 0 else (gweisToLamports (g * res.usedGas)).1) ∧
      (w = false → sender.isSome) := by
    cases w with
    | true =>
      simp only [Bool.not_true, Bool.false_eq_true, if_false, Except.ok.injEq] at hcharged
      subst hcharged
      simp
    | false =>
      simp only [Bool.not_false, if_true] at hcharged
      cases sender with
      | none => cases hcharged
      | some payer =>
        obtain ⟨hb, hl⟩ := chargeNativeAccount_ok hcharged hsucc
        exact ⟨hb, by simpa using hl, fun _ => rfl⟩
  -- 2. the burnt part is deposited; 3. the rest is refunded from the evm account
  have hrefund : s'.balances = (if fs.burnGasPrice * res.usedGas > 0 then
        s₂.setBalances (deposit s₂.balances burnAddr (fs.burnGasPrice * res.usedGas)) else s₂).balances ∧
      s'.lamports accounts.evm.key + (if sender.isSome then
        (gweisToLamports (g * res.usedGas - fs.burnGasPrice * res.usedGas)).1 else 0) =
        s₂.lamports accounts.evm.key := by
    have hs₃ : ∀ burnFee, (if burnFee > 0 then
        s₂.setBalances (deposit s₂.balances burnAddr burnFee) else s₂).lamports = s₂.lamports := by
      intro burnFee
      split_ifs <;> rfl
    cases sender with
    | none =>
      simp only [Except.ok.injEq] at h
      subst h
      refine ⟨rfl, ?_⟩
      rw [hs₃]
      simp
    | some payer =>
      obtain ⟨hb, hl⟩ := refundFee_ok h
      rw [hs₃] at hl
      exact ⟨hb, by simpa using hl⟩
  have htotal : Ledger.total s'.balances =
      Ledger.total s.balances + ((fs.burnGasPrice * res.usedGas : ℕ) : ℤ) := by
    rw [hrefund.1, deposit_burn_total, hcharge.1, hbal₁]
  refine ⟨hsucc, ?_, ?_⟩
  · rw [hrefund.1, deposit_burn_ethToVlxAddr, hcharge.1, hbal₁]
  · -- the burnt part is a whole number `k` of lamports, so a native refund returns the rest
    obtain ⟨k, hk⟩ : ∃ k, fs.burnGasPrice * res.usedGas = lamportsToGweiPrice * k :=
      ⟨_, burnGasPrice_mul fs res.usedGas⟩
    have hle : lamportsToGweiPrice * k ≤ g * res.usedGas := hk ▸ Nat.le_of_not_lt hlow
    have hwhole := gweisToLamports_sub_whole hle
    have hrefund_le := mul_gweisToLamports_le (g * res.usedGas - lamportsToGweiPrice * k)
    obtain ⟨-, hlam₂, hsender⟩ := hcharge
    obtain ⟨-, hlam'⟩ := hrefund
    rw [hk] at hlam' htotal
    simp only [backing, htotal]
    generalize g * res.usedGas = fee at *
    generalize (gweisToLamports fee).1 = feeLamports at *
    generalize (gweisToLamports (fee - lamportsToGweiPrice * k)).1 = refund at *
    simp only [lamportsToGweiPrice] at *
    cases w with
    | true =>
      simp only [if_true] at hlam₂ ⊢
      split_ifs at hlam' <;> omega
    | false =>
      rw [hsender rfl, if_pos rfl] at hlam'
      simp only [Bool.false_eq_true, if_false] at hlam₂ ⊢
      omega

end Result

/-! ### The instructions -/

section Instructions

variable {env : Env Key} {fs : Features} {accounts : AccountStructure Key} {s s' : BridgeState Key}

omit [DecidableEq Key] in
lemma runGasPrice_native {w : Bool} {feeType : FeePayerType} (hw : w = decide (feeType = .evm))
    {p g : ℕ} (h : runGasPrice fs w p = some g) :
    (if fs.acceptZeroGasPriceWithNativeFee && decide (feeType = .native) && decide (p = 0) then
      fs.burnGasPrice else p) = g := by
  rw [runGasPrice_eq_some h, hw]
  cases feeType <;> rfl

/-- An executed transaction keeps the backing up to what it leaves in `ETH_TO_VLX_ADDR`. -/
lemma processExecuteTx_backing (hspec : StackExecutorSpec env)
    (hsig : ∀ u ∈ accounts.users, u.isSigner = true → u.key ≠ accounts.evm.key)
    (hfit : s.lamports accounts.evm.key ≤ u64Max) {tx : ExecuteTransaction}
    {feeType : FeePayerType} {borshUsed : Bool}
    (h : processExecuteTx env fs accounts tx feeType borshUsed s = .ok s') :
    backing accounts.evm.key s ≤ backing accounts.evm.key s' + s'.balances ethToVlxAddr := by
  unfold processExecuteTx at h
  dsimp only at h
  generalize hsender : (if tx.isBig = true then accounts.users[1]? else accounts.first) = sender at h
  by_cases hnative : feeType = .native ∧ sender.isNone = true
  · rw [if_pos hnative] at h; cases h
  rw [if_neg hnative] at h
  obtain ⟨⟨caller, utx⟩, -, h⟩ := Except.bind_eq_ok_iff.mp h
  dsimp only at h
  obtain ⟨s₂, hclean, h⟩ := Except.bind_eq_ok_iff.mp h
  cases hexec : caller.bind fun c =>
      transactionExecuteRaw env fs c utx (decide (feeType = .evm)) s.balances with
  | none =>
    rw [hexec] at h
    cases h
  | some executed =>
    obtain ⟨res, bal₁⟩ := executed
    rw [hexec] at hclean h
    obtain ⟨c, -, hraw⟩ := Option.bind_eq_some_iff.mp hexec
    obtain ⟨hsucc, hE, hD⟩ := handleTransactionResult_backing h
    obtain ⟨g, hg, htotal, hpaid⟩ := transactionExecuteRaw_backing hspec hraw hsucc
    rw [runGasPrice_native rfl hg] at hD
    -- cleaning up a storage account only adds to the evm account: the storage signs, so it is
    -- not the evm account
    have hcleaned : s₂.balances = bal₁ ∧
        s.lamports accounts.evm.key ≤ s₂.lamports accounts.evm.key := by
      by_cases hbig : (fs.unsignedTxFix && tx.isBig) = true
      · rw [if_pos hbig] at hclean
        obtain ⟨storage, hstorage, hcl⟩ := Except.bind_eq_ok_iff.mp hclean
        obtain ⟨hmem, hsigner⟩ := getBigTransactionStorage_ok hstorage
        exact cleanupStorage_ok hcl (hsig storage hmem hsigner) hfit
      · rw [if_neg hbig] at hclean
        cases hclean
        exact ⟨rfl, le_rfl⟩
    obtain ⟨hbal₂, hlam₂⟩ := hcleaned
    have hlam₂' : (s.lamports accounts.evm.key : ℤ) ≤ s₂.lamports accounts.evm.key := by
      exact_mod_cast hlam₂
    have hpaid' : ((lamportsToGweiPrice * (res.promises.map Prod.snd).sum : ℕ) : ℤ) ≤
        bal₁ ethToVlxAddr := by
      exact_mod_cast hpaid
    rw [hE, hbal₂]
    simp only [backing, hbal₂] at hD ⊢
    cases feeType <;>
      simp only [reduceCtorEq, decide_true, decide_false, if_true, Bool.false_eq_true, if_false]
        at hD htotal <;>
      push_cast [lamportsToGweiPrice] at hD htotal hpaid' ⊢ <;> linarith

/-- A swap into the EVM that keeps the sum of lamports adds as much to the `evm_state` account as
it deposits to the EVM address. -/
lemma processSwapToEvm_backing [Fintype Key] {lamports : ℕ} {evmAddress : H160}
    (h : processSwapToEvm accounts lamports evmAddress s = .ok s')
    (hsum : Ledger.total s'.lamports = Ledger.total s.lamports) :
    backing accounts.evm.key s' = backing accounts.evm.key s := by
  unfold processSwapToEvm at h
  dsimp only at h
  split at h
  · cases h
  rename_i user _
  by_cases hzero : lamports = 0
  · rw [if_pos hzero] at h; cases h; rfl
  rw [if_neg hzero] at h
  by_cases hsigner : (!user.isSigner) = true
  · rw [if_pos hsigner] at h; cases h
  rw [if_neg hsigner] at h
  by_cases hlow : lamports > s.lamports user.key
  · rw [if_pos hlow] at h; cases h
  rw [if_neg hlow] at h
  by_cases hkey : accounts.evm.key = user.key
  · rw [if_pos hkey] at h; cases h
  rw [if_neg hkey] at h
  cases h
  -- the runtime's check rules out the saturation: the evm account takes all the lamports
  have hfull : min (s.lamports accounts.evm.key + lamports) u64Max =
      s.lamports accounts.evm.key + lamports := by
    simp only [BridgeState.setBalances_lamports, BridgeState.setLamports_lamports,
      Ledger.total_update, Function.update_of_ne hkey] at hsum
    omega
  simp only [backing, BridgeState.setBalances_lamports, BridgeState.setLamports_lamports,
    BridgeState.setBalances_balances, BridgeState.setLamports_balances, Function.update_self,
    Function.update_of_ne hkey, hfull, deposit, Ledger.total_credit, lamportsToGwei]
  push_cast
  ring

lemma processFreeOwnership_ok (h : processFreeOwnership env fs accounts s = .ok s') :
    s'.lamports = s.lamports ∧ s'.balances = s.balances := by
  unfold processFreeOwnership at h
  split at h
  · cases h
  · split_ifs at h
    cases h
    exact ⟨rfl, rfl⟩

lemma processBigTx_ok {bigTx : EvmBigTransaction} (h : processBigTx accounts bigTx s = .ok s') :
    s'.lamports = s.lamports ∧ s'.balances = s.balances := by
  unfold processBigTx at h
  obtain ⟨storage, -, h⟩ := Except.bind_eq_ok_iff.mp h
  -- both writes change the storage's data only
  cases bigTx <;>
  · dsimp only at h
    obtain ⟨bytes, -, h⟩ := Except.bind_eq_ok_iff.mp h
    cases h
    exact ⟨rfl, rfl⟩

/-- Each handler keeps the backing up to what it leaves in `ETH_TO_VLX_ADDR`. -/
lemma dispatchInstruction_backing [Fintype Key] (hspec : StackExecutorSpec env)
    (hsig : ∀ u ∈ accounts.users, u.isSigner = true → u.key ≠ accounts.evm.key)
    (hfit : s.lamports accounts.evm.key ≤ u64Max) {ix : EvmInstruction} {borshUsed : Bool}
    (h : dispatchInstruction env fs accounts ix borshUsed s = .ok s')
    (hsum : Ledger.total s'.lamports = Ledger.total s.lamports) :
    backing accounts.evm.key s ≤ backing accounts.evm.key s' + s'.balances ethToVlxAddr := by
  have hE : (0 : ℤ) ≤ s'.balances ethToVlxAddr := Int.natCast_nonneg _
  unfold dispatchInstruction at h
  cases ix with
  | evmBigTransaction bigTx =>
    obtain ⟨hl, hb⟩ := processBigTx_ok h
    simp only [backing, hl, hb]
    omega
  | freeOwnership =>
    obtain ⟨hl, hb⟩ := processFreeOwnership_ok h
    simp only [backing, hl, hb]
    omega
  | swapNativeToEther lamports evmAddress =>
    rw [processSwapToEvm_backing h hsum]
    omega
  | executeTransaction tx feeType =>
    exact processExecuteTx_backing hspec hsig hfit h

omit [DecidableEq Key] in
lemma total_resetBalance (balances : H160 → ℕ) (swapAddr : H160) (ignoreResetOnCleared : Bool) :
    Ledger.total (resetBalance balances swapAddr ignoreResetOnCleared) =
      Ledger.total balances - balances swapAddr := by
  unfold resetBalance
  split_ifs with hreset
  · exact Ledger.total_reset balances swapAddr
  · simp only [Bool.or_eq_true, Bool.not_eq_eq_eq_not, Bool.not_true, decide_eq_true_eq,
      not_or, not_not] at hreset
    simp [hreset.2]

/-- What an instruction that `process_instruction` completes did: the first account is the
`evm_state` account, a handler succeeded, and the balance of `ETH_TO_VLX_ADDR` was reset. -/
lemma processInstruction_eq_ok {ix : EvmInstruction} {borshUsed : Bool}
    (h : processInstruction env fs accounts ix borshUsed s = .ok s') :
    accounts.evm.key = env.evmStateId ∧ ∃ s₁, dispatchInstruction env fs accounts ix borshUsed s = .ok s₁ ∧
      s' = if fs.nativeSwapInEvmHistory then
          s₁.setBalances (resetBalance s₁.balances ethToVlxAddr fs.ignoreResetOnCleared)
        else s₁ := by
  unfold processInstruction at h
  by_cases hevm : accounts.evm.key ≠ env.evmStateId ∨ (!accounts.evm.isWritable) = true
  · rw [if_pos hevm] at h; cases h
  rw [if_neg hevm] at h
  by_cases hcross : (decide (env.stackHeight ≠ 1) && !fs.evmCrossExecution) = true
  · rw [if_pos hcross] at h; cases h
  rw [if_neg hcross] at h
  cases hd : dispatchInstruction env fs accounts ix borshUsed s with
  | error e => rw [hd] at h; cases h
  | ok s₁ =>
    rw [hd] at h
    cases h
    simp only [not_or, not_not] at hevm
    exact ⟨hevm.1, s₁, rfl, rfl⟩

end Instructions

/-! ### The bridge -/

/-- An invocation whose EVM runs change nothing, over two keys: `0` is the `evm_state`
account. -/
def idleEnv : Env (Fin 2) :=
  ⟨0, 0, 0, 0, 1, fun _ => 0, fun _ => none, fun _ _ => none, fun _ _ => none,
    fun _ _ => true, 0, fun _ _ _ balances => ⟨.succeed, 0, balances, []⟩⟩

/-- The `evm_state` account and a signing user. -/
def swapAccounts : AccountStructure (Fin 2) := ⟨⟨0, false, true⟩, [⟨1, true, true⟩]⟩

/-- The `evm_state` account with the given lamports and a user with one lamport. -/
def swapState (evmLamports : ℕ) : BridgeState (Fin 2) :=
  ⟨fun k => if k = 0 then evmLamports else 1, fun _ => 0, fun _ => [], fun _ => 0⟩

lemma idleEnv_spec : StackExecutorSpec idleEnv :=
  ⟨fun _ _ _ _ => rfl, fun _ _ _ _ => Nat.zero_le _, fun _ _ _ _ => by simp [idleEnv]⟩

end VelasChain.EvmLoader
