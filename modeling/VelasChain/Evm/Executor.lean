import VelasChain.Evm.Context
import VelasChain.Evm.Logs
import VelasChain.EvmLoader.Processor
import VelasChain.Lib.Except

/-!
# The executor and the transaction log of a block

`Executor` runs transactions against `EvmBackend<Incomming>` and records each in the block's
list of executed transactions, a receipt under the transaction's hash. The EVM itself
(`StackExecutor` over a `MemoryStackState`) is a parameter, `EvmRun`: given the call, it hands
back the exit reason, the gas used, the account changes and the logs, and the changes after the
fee is withdrawn, when the caller can pay it. Hashing and signature recovery are parameters too
(`TxHashes`).

`transaction_execute_raw` checks the transaction, runs the EVM, and writes its changes only
after every check has passed, so a call that returns `Err` leaves the backend as it was
(`transactionExecute_error`, `transactionExecuteUnsinged_error`). Its gas checks keep the gas
used by the block within the configured limit, and `register_tx_with_receipt` gives the
receipt at position `k` the index `k + 1`. With the distinct hashes of the log, these make up
`Executor.Inv`, which holds of every state reached from an empty block (`Reachable.inv`),
`apply_failed_update` included.

`register_tx_with_receipt` asserts that the hash is new. `transaction_execute_raw` rejects a
known hash (`DuplicateTx`), but `register_swap_tx_in_evm` checks nothing, and without
`unsigned_tx_fix` the hash of an unsigned transaction leaves its caller out: an unsigned
transaction from any caller with the fields of the next swap makes the assert fire.
-/

namespace VelasChain.Evm

open EvmLoader (TransactionAction UnsignedTransaction Transaction)

/-- `TransactionSignature::chain_id` of a transaction's `v`. -/
def chainIdOfV (v : ℕ) : Option ℕ :=
  if v > 36 then some ((v - 35) / 2) else none

/-- `UnsignedTransactionWithCaller`. -/
structure UnsignedTransactionWithCaller where
  unsignedTx : UnsignedTransaction
  caller : H160
  chainId : ℕ
  signedCompatible : Bool

/-- `TransactionInReceipt`. -/
inductive TransactionInReceipt where
  | signed (tx : Transaction)
  | unsigned (tx : UnsignedTransactionWithCaller)

/-- The hash functions, the signature recovery and the bloom of a log entry, as the functions
they compute. `signedIdHash` is Keccak of `rlp_append_consistent` of a signed transaction,
`signingHash tx chainId` is `UnsignedTransaction::signing_hash(Some(chain_id))`,
`unsignedIdHash` is Keccak of the nine-item encoding of an unsigned transaction with its caller
and `recoverCaller` is `Transaction::caller`. -/
structure TxHashes where
  signedIdHash : Transaction → H256
  signingHash : UnsignedTransaction → ℕ → H256
  unsignedIdHash : UnsignedTransactionWithCaller → H256
  recoverCaller : Transaction → Option H160
  bloomOf : BloomInput → Bloom

variable (h : TxHashes)

/-- `UnsignedTransactionWithCaller::tx_id_hash`: the signing hash, which leaves the caller out,
unless the encoding is the signed-compatible one. -/
def UnsignedTransactionWithCaller.txIdHash (tx : UnsignedTransactionWithCaller) : H256 :=
  if !tx.signedCompatible then h.signingHash tx.unsignedTx tx.chainId else h.unsignedIdHash tx

/-- The hash `register_tx_with_receipt` computes for a transaction. -/
def TransactionInReceipt.txIdHash : TransactionInReceipt → H256
  | .signed tx => h.signedIdHash tx
  | .unsigned tx => tx.txIdHash h

/-- `TransactionReceipt::caller`. -/
def TransactionInReceipt.caller : TransactionInReceipt → Option H160
  | .signed tx => h.recoverCaller tx
  | .unsigned tx => some tx.caller

/-- `EvmConfig`, by the fields the executor reads. -/
structure EvmConfig where
  gasLimit : ℕ
  chainId : ℕ
  burnGasPrice : ℕ

/-- `FeatureSet` of the executor. -/
structure FeatureSet where
  unsignedTxFix : Bool
  clearLogsOnError : Bool
  acceptZeroGasPriceWithNativeFee : Bool

/-- `Executor`, without its chain context, which no function modelled here reads. -/
structure Executor where
  evmBackend : Incomming
  config : EvmConfig
  featureSet : FeatureSet

/-- The errors `transaction_execute_raw` and `transaction_execute` return. -/
inductive Error where
  | unrecoverableCaller
  | wrongChainId (chainId : ℕ) (txChainId : Option ℕ)
  | duplicateTx (txHash : H256)
  | nonceNotEqual (txNonce : ℕ) (stateNonce : U256)
  | gasPriceOutOfBounds (gasPrice : ℕ)
  | gasLimitOutOfBounds (gasLimit : ℕ)
  | gasLimitConfigAssert (gasLimit gasUsed : ℕ)
  | cantPayTheBills (value maxFee : ℕ) (stateBalance : U256)
  | gasUsedOutOfBounds (usedGas gasLimit : ℕ)

/-- `ExecutionResult`, without the return data and traces. -/
structure ExecutionResult where
  exitReason : ExitReason
  usedGas : ℕ
  txLogs : List Log
  txId : H256

/-- A call as `transaction_execute_raw` hands it to `StackExecutor`. -/
structure EvmCall where
  caller : H160
  action : TransactionAction
  value : ℕ
  input : List UInt8
  gasLimit : ℕ
  gasPrice : ℕ
  blockGasLimitLeft : ℕ

/-- What a run of `StackExecutor` hands back: `updates` and `logs` are what the state
deconstructs into, and `updatesAfterFee` what it deconstructs into after `withdraw(caller,
fee)`, or `none` when the caller cannot pay the fee. -/
structure EvmOutcome where
  exitReason : ExitReason
  usedGas : ℕ
  fee : ℕ
  updates : List Apply
  updatesAfterFee : Option (List Apply)
  logs : List Log

/-- The EVM: a run of a call against the backend. -/
abbrev EvmRun := Incomming → EvmCall → EvmOutcome

namespace Incomming

/-- `find_transaction_receipt`. -/
def findTransactionReceipt (b : Incomming) (transaction : H256) : Option TransactionReceipt :=
  (b.executedTransactions.find? fun e => e.1 == transaction).map Prod.snd

/-- `push_transaction_receipt`: its `debug_assert` is not part of a release build. -/
def pushTransactionReceipt (b : Incomming) (transaction : H256) (receipt : TransactionReceipt) :
    Incomming :=
  { b with executedTransactions := b.executedTransactions ++ [(transaction, receipt)] }

/-- `get_executed_transactions`. -/
def getExecutedTransactions (b : Incomming) : List H256 :=
  b.executedTransactions.map Prod.fst

end Incomming

namespace Executor

/-- `Executor::testing`: an empty block, `EvmConfig::default()` (the gas limit
`DEFAULT_GAS_LIMIT`, the chain id `TEST_CHAIN_ID` and no burnt gas price) and every feature
off. -/
def testing : Executor :=
  ⟨⟨fun _ => none, fun _ => none, 0, []⟩, ⟨300000000, 0xDEAD, 0⟩, ⟨false, false, false⟩⟩

/-- `ExecutorContext::gas_left`. -/
def gasLeft (ex : Executor) : ℕ := ex.config.gasLimit - ex.evmBackend.usedGas

/-- The checks of `transaction_execute_raw` before the EVM runs, in the code's order; the gas
price charged, which is `burn_gas_price` for a zero price paid natively once
`accept_zero_gas_price_with_native_fee` is on. -/
def rawChecks (ex : Executor) (caller : H160) (nonce gasPrice gasLimit value : ℕ)
    (txChainId : Option ℕ) (txHash : H256) (withdrawFee : Bool) : Except Error ℕ := do
  let stateAccount := (ex.evmBackend.getAccountState caller).getD AccountState.default
  let chainId := ex.config.chainId
  Except.failIf (txChainId ≠ some chainId) (.wrongChainId chainId txChainId)
  Except.failIf (ex.evmBackend.findTransactionReceipt txHash).isSome (.duplicateTx txHash)
  Except.failIf (nonce ≠ stateAccount.nonce.toNat) (.nonceNotEqual nonce stateAccount.nonce)
  Except.failIf (u64Max < gasPrice) (.gasPriceOutOfBounds gasPrice)
  let price ←
    if ex.featureSet.acceptZeroGasPriceWithNativeFee ∧ !withdrawFee ∧ gasPrice = 0 then
      pure ex.config.burnGasPrice
    else do
      Except.failIf (gasPrice < ex.config.burnGasPrice) (.gasPriceOutOfBounds gasPrice)
      pure gasPrice
  Except.failIf (u64Max < gasLimit) (.gasLimitOutOfBounds gasLimit)
  Except.failIf (ex.config.gasLimit < ex.evmBackend.usedGas)
    (.gasLimitConfigAssert ex.config.gasLimit ex.evmBackend.usedGas)
  let maxFee := gasLimit * price
  if withdrawFee then
    Except.failIf (stateAccount.balance.toNat < maxFee + value)
      (.cantPayTheBills value maxFee stateAccount.balance)
  pure price

/-- `transaction_execute_raw`: after the checks the EVM runs; a successful run paid from the
EVM burns its fee, and the run's changes are applied only when it used less gas than the block
had left. -/
def transactionExecuteRaw (run : EvmRun) (ex : Executor) (caller : H160)
    (nonce gasPrice gasLimit : ℕ) (action : TransactionAction) (input : List UInt8) (value : ℕ)
    (txChainId : Option ℕ) (txHash : H256) (withdrawFee : Bool) :
    Executor × Except Error ExecutionResult :=
  match rawChecks ex caller nonce gasPrice gasLimit value txChainId txHash withdrawFee with
  | .error e => (ex, .error e)
  | .ok price =>
    let blockGasLimitLeft := ex.gasLeft
    let out := run ex.evmBackend ⟨caller, action, value, input, gasLimit, price, blockGasLimitLeft⟩
    let updates := if withdrawFee ∧ out.exitReason = .succeed then out.updatesAfterFee else some out.updates
    match updates with
    | none =>
      let stateBalance := ((ex.evmBackend.getAccountState caller).getD AccountState.default).balance
      (ex, .error (.cantPayTheBills value out.fee stateBalance))
    | some updates =>
      if out.usedGas < blockGasLimitLeft then
        let txLogs := if ex.featureSet.clearLogsOnError ∧ out.exitReason ≠ .succeed then [] else out.logs
        ({ ex with evmBackend := ExecutorContext.apply ⟨ex.evmBackend⟩ updates out.usedGas },
          .ok ⟨out.exitReason, out.usedGas, txLogs, txHash⟩)
      else (ex, .error (.gasUsedOutOfBounds out.usedGas blockGasLimitLeft))

/-- `register_tx_with_receipt`: `none` where its `assert!(!tx_hashes.contains(&tx_hash))`
fires. -/
def registerTxWithReceipt (ex : Executor) (tx : TransactionInReceipt) (result : ExecutionResult) :
    Option Executor :=
  let txHash := tx.txIdHash h
  let txHashes := ex.evmBackend.getExecutedTransactions
  if txHash ∈ txHashes then none
  else
    let receipt : TransactionReceipt :=
      ⟨tx.caller h, result.exitReason, result.txLogs, recalculateBloom h.bloomOf result.txLogs,
        txHashes.length + 1⟩
    some { ex with evmBackend := ex.evmBackend.pushTransactionReceipt txHash receipt }

/-- `transaction_execute_unsinged`: the transaction's hash is that of the unsigned transaction
with its caller, signed-compatible once `unsigned_tx_fix` is on. -/
def transactionExecuteUnsinged (run : EvmRun) (ex : Executor) (caller : H160)
    (tx : UnsignedTransaction) (withdrawFee : Bool) : Option (Executor × Except Error ExecutionResult) :=
  let unsignedTx : UnsignedTransactionWithCaller :=
    ⟨tx, caller, ex.config.chainId, ex.featureSet.unsignedTxFix⟩
  let txHash := unsignedTx.txIdHash h
  match transactionExecuteRaw run ex caller tx.nonce tx.gasPrice tx.gasLimit tx.action tx.input tx.value
      (some ex.config.chainId) txHash withdrawFee with
  | (ex, .error e) => some (ex, .error e)
  | (ex, .ok result) => (registerTxWithReceipt h ex (.unsigned unsignedTx) result).map (·, .ok result)

/-- `transaction_execute`: the caller is recovered from the signature first. -/
def transactionExecute (run : EvmRun) (ex : Executor) (tx : Transaction) (withdrawFee : Bool) :
    Option (Executor × Except Error ExecutionResult) :=
  match h.recoverCaller tx with
  | none => some (ex, .error .unrecoverableCaller)
  | some caller =>
    let txHash := h.signedIdHash tx
    match transactionExecuteRaw run ex caller tx.unsigned.nonce tx.unsigned.gasPrice
        tx.unsigned.gasLimit tx.unsigned.action tx.unsigned.input tx.unsigned.value
        (chainIdOfV tx.signature.1) txHash withdrawFee with
    | (ex, .error e) => some (ex, .error e)
    | (ex, .ok result) => (registerTxWithReceipt h ex (.signed tx) result).map (·, .ok result)

/-- The state of `with_executor` after a closure that changed the balance and nonce of one
account and used no gas: `Apply::Modify` of its basic, as the state deconstructs. -/
def modifyBasic (ex : Executor) (address : H160) (f : Basic → Basic) : Executor :=
  let basic := ExecutorContext.basic ⟨ex.evmBackend⟩ address
  { ex with evmBackend := ExecutorContext.apply ⟨ex.evmBackend⟩ [.modify address (f basic) none [] false] 0 }

/-- `deposit`: mint `amount` to `recipient`. -/
def deposit (ex : Executor) (recipient : H160) (amount : ℕ) : Executor :=
  ex.modifyBasic recipient fun basic => { basic with balance := basic.balance + BitVec.ofNat 256 amount }

/-- `register_swap_tx_in_evm`: increase the nonce of the mint address, and register a call
from it to the recipient, with no gas, carrying the amount; no check precedes the
registration. -/
def registerSwapTxInEvm (ex : Executor) (mintAddress recipient : H160) (amount : ℕ) :
    Option Executor :=
  let nonce := (ExecutorContext.basic ⟨ex.evmBackend⟩ mintAddress).nonce.toNat
  let ex := ex.modifyBasic mintAddress fun basic => { basic with nonce := basic.nonce + 1 }
  let tx : UnsignedTransaction := ⟨nonce, 0, 0, .call recipient, amount, []⟩
  let unsignedTx : UnsignedTransactionWithCaller :=
    ⟨tx, mintAddress, ex.config.chainId, ex.featureSet.unsignedTxFix⟩
  registerTxWithReceipt h ex (.unsigned unsignedTx) ⟨.succeed, 0, [], unsignedTx.txIdHash h⟩

end Executor

/-! ### What the writes to the overlay keep -/

namespace Incomming

variable (b : Incomming) (address : H160)

@[simp] lemma setAccountState_executedTransactions (s : AccountState) :
    (b.setAccountState address s).executedTransactions = b.executedTransactions := rfl

@[simp] lemma setAccountState_usedGas (s : AccountState) :
    (b.setAccountState address s).usedGas = b.usedGas := rfl

@[simp] lemma removeAccount_executedTransactions :
    (b.removeAccount address).executedTransactions = b.executedTransactions := rfl

@[simp] lemma removeAccount_usedGas : (b.removeAccount address).usedGas = b.usedGas := rfl

@[simp] lemma extStorage_executedTransactions (values : List (H256 × H256)) :
    (b.extStorage address values).executedTransactions = b.executedTransactions := rfl

@[simp] lemma extStorage_usedGas (values : List (H256 × H256)) :
    (b.extStorage address values).usedGas = b.usedGas := rfl

@[simp] lemma increaseNonce_executedTransactions :
    (b.increaseNonce address).executedTransactions = b.executedTransactions := rfl

@[simp] lemma increaseNonce_usedGas : (b.increaseNonce address).usedGas = b.usedGas := rfl

@[simp] lemma pushTransactionReceipt_executedTransactions (txHash : H256)
    (receipt : TransactionReceipt) :
    (b.pushTransactionReceipt txHash receipt).executedTransactions =
      b.executedTransactions ++ [(txHash, receipt)] := rfl

@[simp] lemma pushTransactionReceipt_usedGas (txHash : H256) (receipt : TransactionReceipt) :
    (b.pushTransactionReceipt txHash receipt).usedGas = b.usedGas := rfl

lemma findTransactionReceipt_eq_none {txHash : H256} :
    b.findTransactionReceipt txHash = none ↔ txHash ∉ b.getExecutedTransactions := by
  simp only [findTransactionReceipt, getExecutedTransactions, Option.map_eq_none_iff,
    List.find?_eq_none, beq_iff_eq, List.mem_map, not_exists, not_and]

/-- The receipt `apply_failed_update` records for a receipt of the failed state. -/
def failedReceipt (clearLogs : Bool) (tx : TransactionReceipt) : TransactionReceipt :=
  if tx.status = .succeed then tx.toFailed clearLogs else tx

@[simp] lemma failedReceipt_index (clearLogs : Bool) (tx : TransactionReceipt) :
    (failedReceipt clearLogs tx).index = tx.index := by
  unfold failedReceipt TransactionReceipt.toFailed
  split_ifs <;> rfl

@[simp] lemma failedReceipt_caller (clearLogs : Bool) (tx : TransactionReceipt) :
    (failedReceipt clearLogs tx).caller = tx.caller := by
  unfold failedReceipt TransactionReceipt.toFailed
  split_ifs <;> rfl

/-- `apply_failed_update` over receipts that all have a caller records every one of them, and
leaves the gas used alone. -/
lemma foldl_recordFailed (clearLogs : Bool) (l : List (H256 × TransactionReceipt))
    (hcallers : ∀ e ∈ l, e.2.caller.isSome) (b : Incomming) :
    (l.foldl (recordFailed clearLogs) b).executedTransactions =
        b.executedTransactions ++ l.map (fun e => (e.1, failedReceipt clearLogs e.2)) ∧
      (l.foldl (recordFailed clearLogs) b).usedGas = b.usedGas := by
  induction l generalizing b with
  | nil => simp
  | cons e l ih =>
    obtain ⟨caller, hcaller⟩ := Option.isSome_iff_exists.mp (hcallers e (by simp))
    have hstep : (recordFailed clearLogs b e).executedTransactions =
          b.executedTransactions ++ [(e.1, failedReceipt clearLogs e.2)] ∧
        (recordFailed clearLogs b e).usedGas = b.usedGas := by
      have : (if e.2.status = .succeed then e.2.toFailed clearLogs else e.2).caller = some caller := by
        rw [← hcaller]
        exact failedReceipt_caller clearLogs e.2
      simp only [recordFailed, this, increaseNonce_executedTransactions, increaseNonce_usedGas]
      simp [failedReceipt]
    obtain ⟨ht, hg⟩ := ih (fun e he => hcallers e (by simp [he])) (recordFailed clearLogs b e)
    rw [List.foldl_cons, ht, hg, hstep.1, hstep.2]
    simp

/-- `apply_failed_update` only appends receipts. -/
lemma prefix_applyFailedUpdate (b failed : Incomming) (clearLogs : Bool) :
    b.executedTransactions <+: (b.applyFailedUpdate failed clearLogs).executedTransactions := by
  unfold applyFailedUpdate
  generalize failed.executedTransactions.drop b.executedTransactions.length = l
  induction l generalizing b with
  | nil => exact List.prefix_refl _
  | cons e l ih =>
    refine List.IsPrefix.trans ?_ (ih (recordFailed clearLogs b e))
    simp only [recordFailed]
    split <;> simp

end Incomming

namespace ExecutorContext

@[simp] lemma applyOne_executedTransactions (b : Incomming) (value : Apply) :
    (applyOne b value).executedTransactions = b.executedTransactions := by
  cases value with
  | modify address basic code storage resetStorage =>
    simp only [applyOne]
    split_ifs <;> simp
  | delete address => simp [applyOne]

@[simp] lemma applyOne_usedGas (b : Incomming) (value : Apply) :
    (applyOne b value).usedGas = b.usedGas := by
  cases value with
  | modify address basic code storage resetStorage =>
    simp only [applyOne]
    split_ifs <;> simp
  | delete address => simp [applyOne]

/-- `ExecutorContext::apply` writes accounts and adds the gas, and touches no receipt. -/
lemma apply_executedTransactions (cx : ExecutorContext) (values : List Apply) (usedGas : ℕ) :
    (apply cx values usedGas).executedTransactions = cx.backend.executedTransactions ∧
      (apply cx values usedGas).usedGas = cx.backend.usedGas + usedGas := by
  have hfold : ∀ (b : Incomming), (values.foldl applyOne b).executedTransactions =
      b.executedTransactions ∧ (values.foldl applyOne b).usedGas = b.usedGas := by
    induction values with
    | nil => simp
    | cons v values ih =>
      intro b
      rw [List.foldl_cons, (ih _).1, (ih _).2, applyOne_executedTransactions, applyOne_usedGas]
      exact ⟨rfl, rfl⟩
  simp only [apply]
  exact ⟨(hfold _).1, by rw [(hfold _).2]⟩

end ExecutorContext

/-! ### A call that fails leaves the executor as it was -/

namespace Executor

variable {h} {run : EvmRun} {ex ex' : Executor} {caller : H160} {nonce gasPrice gasLimit value : ℕ}
  {action : TransactionAction} {input : List UInt8} {txChainId : Option ℕ} {txHash : H256}
  {withdrawFee : Bool}

/-- Checks that pass leave a hash that is new and a block within its gas limit. -/
lemma rawChecks_ok {price : ℕ}
    (hchecks : ex.rawChecks caller nonce gasPrice gasLimit value txChainId txHash withdrawFee =
      .ok price) :
    txHash ∉ ex.evmBackend.getExecutedTransactions ∧ ex.evmBackend.usedGas ≤ ex.config.gasLimit := by
  simp only [rawChecks, Except.failIf_bind_eq_ok] at hchecks
  obtain ⟨-, hfresh, -, -, hrest⟩ := hchecks
  -- both ways of pricing the gas go on to the check of the block's gas
  have hgas : ex.evmBackend.usedGas ≤ ex.config.gasLimit := by
    split_ifs at hrest <;> simp only [pure_bind, Except.failIf_bind_eq_ok] at hrest <;> omega
  refine ⟨?_, hgas⟩
  rw [← Incomming.findTransactionReceipt_eq_none]
  simpa using hfresh

lemma transactionExecuteRaw_error {e : Error}
    (hraw : ex.transactionExecuteRaw run caller nonce gasPrice gasLimit action input value txChainId
      txHash withdrawFee = (ex', .error e)) :
    ex' = ex := by
  unfold transactionExecuteRaw at hraw
  split at hraw
  · exact (Prod.mk.inj hraw).1.symm
  · dsimp only at hraw
    split at hraw
    · exact (Prod.mk.inj hraw).1.symm
    · split at hraw
      · cases (Prod.mk.inj hraw).2
      · exact (Prod.mk.inj hraw).1.symm

/-- A run of `transaction_execute_raw` that returns `Ok` passed the checks, used less gas than
the block had left, and wrote the run's account changes and its gas. -/
lemma transactionExecuteRaw_ok {result : ExecutionResult}
    (hraw : ex.transactionExecuteRaw run caller nonce gasPrice gasLimit action input value txChainId
      txHash withdrawFee = (ex', .ok result)) :
    txHash ∉ ex.evmBackend.getExecutedTransactions ∧ ex.evmBackend.usedGas ≤ ex.config.gasLimit ∧
      result.usedGas < ex.gasLeft ∧ result.txId = txHash ∧
      ∃ updates, ex' = { ex with
        evmBackend := ExecutorContext.apply ⟨ex.evmBackend⟩ updates result.usedGas } := by
  unfold transactionExecuteRaw at hraw
  split at hraw
  · cases (Prod.mk.inj hraw).2
  · rename_i price hchecks
    obtain ⟨hfresh, hgas⟩ := rawChecks_ok hchecks
    dsimp only at hraw
    split at hraw
    · cases (Prod.mk.inj hraw).2
    · rename_i updates _
      split at hraw
      · rename_i hlt
        obtain ⟨rfl, hres⟩ := Prod.mk.inj hraw
        cases hres
        exact ⟨hfresh, hgas, hlt, rfl, updates, rfl⟩
      · cases (Prod.mk.inj hraw).2

lemma registerTxWithReceipt_eq_none_iff {tx : TransactionInReceipt} {result : ExecutionResult} :
    registerTxWithReceipt h ex tx result = none ↔
      tx.txIdHash h ∈ ex.evmBackend.getExecutedTransactions := by
  unfold registerTxWithReceipt
  dsimp only
  split_ifs with hmem <;> simp [hmem]

/-- The receipt `register_tx_with_receipt` records: indexed one past the receipts before it. -/
lemma registerTxWithReceipt_eq_some {tx : TransactionInReceipt} {result : ExecutionResult}
    (hreg : registerTxWithReceipt h ex tx result = some ex') :
    tx.txIdHash h ∉ ex.evmBackend.getExecutedTransactions ∧
      ex' = ⟨ex.evmBackend.pushTransactionReceipt (tx.txIdHash h)
        ⟨tx.caller h, result.exitReason, result.txLogs, recalculateBloom h.bloomOf result.txLogs,
          ex.evmBackend.executedTransactions.length + 1⟩, ex.config, ex.featureSet⟩ := by
  unfold registerTxWithReceipt at hreg
  dsimp only at hreg
  split_ifs at hreg with hmem
  obtain rfl := Option.some.inj hreg
  exact ⟨hmem, by simp [Incomming.getExecutedTransactions]⟩

/-- `register_swap_tx_in_evm` fires its assert exactly when the hash of the transaction it
builds, from the nonce of the mint address before the increase, is already in the log. -/
lemma registerSwapTxInEvm_eq_none_iff {mintAddress recipient : H160} {amount : ℕ} :
    registerSwapTxInEvm h ex mintAddress recipient amount = none ↔
      UnsignedTransactionWithCaller.txIdHash h
        ⟨⟨(ExecutorContext.basic ⟨ex.evmBackend⟩ mintAddress).nonce.toNat, 0, 0, .call recipient,
          amount, []⟩, mintAddress, ex.config.chainId, ex.featureSet.unsignedTxFix⟩ ∈
        ex.evmBackend.getExecutedTransactions := by
  unfold registerSwapTxInEvm modifyBasic
  dsimp only
  rw [registerTxWithReceipt_eq_none_iff, Incomming.getExecutedTransactions,
    Incomming.getExecutedTransactions, (ExecutorContext.apply_executedTransactions _ _ 0).1]
  rfl

/-- After a run that returned `Ok`, the check for a duplicate has vouched for the hash: the run
wrote no receipt. -/
lemma register_after_raw_ne_none {tx : TransactionInReceipt} {result : ExecutionResult}
    (hraw : ex.transactionExecuteRaw run caller nonce gasPrice gasLimit action input value txChainId
      (tx.txIdHash h) withdrawFee = (ex', .ok result)) :
    registerTxWithReceipt h ex' tx result ≠ none := by
  obtain ⟨hfresh, -, -, -, updates, rfl⟩ := transactionExecuteRaw_ok hraw
  rw [Ne, registerTxWithReceipt_eq_none_iff]
  simpa [Incomming.getExecutedTransactions,
    (ExecutorContext.apply_executedTransactions _ updates result.usedGas).1] using hfresh

variable (h run)

/-- `transaction_execute_unsinged` never fires the assert of `register_tx_with_receipt`: the
check for a duplicate uses the hash that is registered. -/
theorem transactionExecuteUnsinged_ne_none (ex : Executor) (caller : H160) (tx : UnsignedTransaction)
    (withdrawFee : Bool) : transactionExecuteUnsinged h run ex caller tx withdrawFee ≠ none := by
  unfold transactionExecuteUnsinged
  dsimp only
  split
  · simp
  · rename_i ex' result hraw
    rw [Ne, Option.map_eq_none_iff]
    exact register_after_raw_ne_none hraw

/-- `transaction_execute` never fires the assert of `register_tx_with_receipt`. -/
theorem transactionExecute_ne_none (ex : Executor) (tx : Transaction) (withdrawFee : Bool) :
    transactionExecute h run ex tx withdrawFee ≠ none := by
  unfold transactionExecute
  split
  · simp
  · dsimp only
    split
    · simp
    · rename_i ex' result hraw
      rw [Ne, Option.map_eq_none_iff]
      exact register_after_raw_ne_none hraw

variable {h run}

/-- A call of `transaction_execute_unsinged` that returns `Err` leaves the executor as it was. -/
theorem transactionExecuteUnsinged_error {tx : UnsignedTransaction} {e : Error}
    (hcall : transactionExecuteUnsinged h run ex caller tx withdrawFee = some (ex', .error e)) :
    ex' = ex := by
  unfold transactionExecuteUnsinged at hcall
  dsimp only at hcall
  split at hcall
  · rename_i ex'' e' hraw
    obtain ⟨rfl, -⟩ := Prod.mk.inj (Option.some.inj hcall)
    exact transactionExecuteRaw_error hraw
  · obtain ⟨_, -, hpair⟩ := Option.map_eq_some_iff.mp hcall
    cases (Prod.mk.inj hpair).2

/-- A call of `transaction_execute` that returns `Err` leaves the executor as it was. -/
theorem transactionExecute_error {tx : Transaction} {e : Error}
    (hcall : transactionExecute h run ex tx withdrawFee = some (ex', .error e)) : ex' = ex := by
  unfold transactionExecute at hcall
  split at hcall
  · exact (Prod.mk.inj (Option.some.inj hcall)).1.symm
  · dsimp only at hcall
    split at hcall
    · rename_i ex'' e' hraw
      obtain ⟨rfl, -⟩ := Prod.mk.inj (Option.some.inj hcall)
      exact transactionExecuteRaw_error hraw
    · obtain ⟨_, -, hpair⟩ := Option.map_eq_some_iff.mp hcall
      cases (Prod.mk.inj hpair).2

/-- A call of `transaction_execute_unsinged` either leaves the executor as it was or writes the
run's changes, with gas within what the block had left, and registers the transaction. -/
lemma transactionExecuteUnsinged_spec {tx : UnsignedTransaction} {r : Except Error ExecutionResult}
    (hcall : transactionExecuteUnsinged h run ex caller tx withdrawFee = some (ex', r)) :
    ex' = ex ∨ ∃ result updates, result.usedGas < ex.gasLeft ∧
      registerTxWithReceipt h
        { ex with evmBackend := ExecutorContext.apply ⟨ex.evmBackend⟩ updates result.usedGas }
        (.unsigned ⟨tx, caller, ex.config.chainId, ex.featureSet.unsignedTxFix⟩) result = some ex' := by
  unfold transactionExecuteUnsinged at hcall
  dsimp only at hcall
  split at hcall
  · rename_i ex'' e hraw
    obtain ⟨rfl, -⟩ := Prod.mk.inj (Option.some.inj hcall)
    exact .inl (transactionExecuteRaw_error hraw)
  · rename_i ex'' result hraw
    obtain ⟨-, -, hlt, -, updates, rfl⟩ := transactionExecuteRaw_ok hraw
    obtain ⟨exr, hreg, hpair⟩ := Option.map_eq_some_iff.mp hcall
    obtain ⟨rfl, -⟩ := Prod.mk.inj hpair
    exact .inr ⟨result, updates, hlt, hreg⟩

/-- A call of `transaction_execute` either leaves the executor as it was or, for a transaction
whose caller is recovered, writes the run's changes and registers the transaction. -/
lemma transactionExecute_spec {tx : Transaction} {r : Except Error ExecutionResult}
    (hcall : transactionExecute h run ex tx withdrawFee = some (ex', r)) :
    ex' = ex ∨ ∃ result updates, (h.recoverCaller tx).isSome ∧ result.usedGas < ex.gasLeft ∧
      registerTxWithReceipt h
        { ex with evmBackend := ExecutorContext.apply ⟨ex.evmBackend⟩ updates result.usedGas }
        (.signed tx) result = some ex' := by
  unfold transactionExecute at hcall
  split at hcall
  · exact .inl (Prod.mk.inj (Option.some.inj hcall)).1.symm
  · rename_i caller hcaller
    dsimp only at hcall
    split at hcall
    · rename_i ex'' e hraw
      obtain ⟨rfl, -⟩ := Prod.mk.inj (Option.some.inj hcall)
      exact .inl (transactionExecuteRaw_error hraw)
    · rename_i ex'' result hraw
      obtain ⟨-, -, hlt, -, updates, rfl⟩ := transactionExecuteRaw_ok hraw
      obtain ⟨exr, hreg, hpair⟩ := Option.map_eq_some_iff.mp hcall
      obtain ⟨rfl, -⟩ := Prod.mk.inj hpair
      exact .inr ⟨result, updates, by simp [hcaller], hlt, hreg⟩

end Executor

/-! ### The log of a reachable executor -/

/-- The per-block log is well formed: its hashes are distinct, the receipt at position `k` has
the index `k + 1`, and every receipt names its caller, so that `apply_failed_update` keeps it. -/
structure LogWellFormed (txs : List (H256 × TransactionReceipt)) : Prop where
  nodup : (txs.map Prod.fst).Nodup
  indices : txs.map (·.2.index) = List.range' 1 txs.length
  callers : ∀ e ∈ txs, e.2.caller.isSome

namespace LogWellFormed

lemma nil : LogWellFormed [] := ⟨List.nodup_nil, rfl, by simp⟩

variable {txs : List (H256 × TransactionReceipt)}

/-- Pushing a receipt keeps the log well formed when its hash is new and its index is one past
the receipts before it. -/
lemma push (hw : LogWellFormed txs) {txHash : H256} {receipt : TransactionReceipt}
    (hfresh : txHash ∉ txs.map Prod.fst) (hindex : receipt.index = txs.length + 1)
    (hcaller : receipt.caller.isSome) : LogWellFormed (txs ++ [(txHash, receipt)]) := by
  constructor
  · rw [List.map_append]
    refine List.nodup_append.mpr ⟨hw.nodup, by simp, ?_⟩
    rintro a ha b hb rfl
    exact hfresh (by simpa [List.mem_singleton.mp hb] using ha)
  · rw [List.map_append, hw.indices, List.length_append, List.length_singleton, List.range'_concat]
    simp [hindex, Nat.add_comm]
  · intro e he
    rcases List.mem_append.mp he with he | he
    · exact hw.callers e he
    · rw [List.mem_singleton.mp he]
      exact hcaller

/-- `apply_failed_update` re-records the receipts a failed execution added after `txs`: the
log keeps their hashes, indices and callers. -/
lemma append_failed {tail : List (H256 × TransactionReceipt)} (hw : LogWellFormed (txs ++ tail))
    (clearLogs : Bool) :
    LogWellFormed (txs ++ tail.map fun e => (e.1, Incomming.failedReceipt clearLogs e.2)) := by
  have hfst : (tail.map fun e => (e.1, Incomming.failedReceipt clearLogs e.2)).map Prod.fst =
      tail.map Prod.fst := by simp
  have hindex : (tail.map fun e => (e.1, Incomming.failedReceipt clearLogs e.2)).map
      (·.2.index) = tail.map (·.2.index) := by simp
  constructor
  · have := hw.nodup
    rwa [List.map_append, ← hfst, ← List.map_append] at this
  · have := hw.indices
    rw [List.map_append, ← hindex, ← List.map_append] at this
    simpa using this
  · intro e he
    rcases List.mem_append.mp he with he | he
    · exact hw.callers e (List.mem_append_left _ he)
    · obtain ⟨e', he', rfl⟩ := List.mem_map.mp he
      simpa using hw.callers e' (List.mem_append_right _ he')

end LogWellFormed

namespace Executor

/-- The invariant of the executor over a block: its log is well formed and the gas it used is
within the configured limit. -/
structure Inv (ex : Executor) : Prop where
  log : LogWellFormed ex.evmBackend.executedTransactions
  usedGas_le : ex.evmBackend.usedGas ≤ ex.config.gasLimit

variable {h} {ex ex' : Executor}

lemma Inv.empty (hempty : ex.evmBackend.executedTransactions = [])
    (hgas : ex.evmBackend.usedGas = 0) : ex.Inv :=
  ⟨hempty ▸ LogWellFormed.nil, by simp [hgas]⟩

/-- Writing account changes with gas within what the block has left keeps the invariant. -/
lemma Inv.apply (hinv : ex.Inv) (updates : List Apply) {g : ℕ} (hg : g ≤ ex.gasLeft) :
    Inv { ex with evmBackend := ExecutorContext.apply ⟨ex.evmBackend⟩ updates g } := by
  obtain ⟨hlog, hgas⟩ := ExecutorContext.apply_executedTransactions ⟨ex.evmBackend⟩ updates g
  have hle := hinv.usedGas_le
  constructor
  · simpa [hlog] using hinv.log
  · simp only [hgas]
    unfold gasLeft at hg
    omega

/-- Registering a transaction with a caller keeps the invariant. -/
lemma Inv.register (hinv : ex.Inv) {tx : TransactionInReceipt} {result : ExecutionResult}
    (hreg : registerTxWithReceipt h ex tx result = some ex') (hcaller : (tx.caller h).isSome) :
    ex'.Inv := by
  obtain ⟨hfresh, rfl⟩ := registerTxWithReceipt_eq_some hreg
  exact ⟨hinv.log.push hfresh rfl hcaller, hinv.usedGas_le⟩

/-- `apply_failed_update` from a failed state whose log extends this one keeps the invariant. -/
lemma Inv.applyFailedUpdate (hinv : ex.Inv) {failed : Executor} (hfailed : failed.Inv)
    (hextends : ex.evmBackend.executedTransactions <+: failed.evmBackend.executedTransactions)
    (clearLogs : Bool) :
    Inv { ex with evmBackend := ex.evmBackend.applyFailedUpdate failed.evmBackend clearLogs } := by
  obtain ⟨tail, htail⟩ := hextends
  have hw := hfailed.log
  rw [← htail] at hw
  have hcallers : ∀ e ∈ tail, e.2.caller.isSome := fun e he =>
    hw.callers e (List.mem_append_right _ he)
  obtain ⟨hlog, hgas⟩ := Incomming.foldl_recordFailed clearLogs tail hcallers ex.evmBackend
  simp only [Incomming.applyFailedUpdate, ← htail, List.drop_left]
  exact ⟨hlog ▸ hw.append_failed clearLogs, hgas ▸ hinv.usedGas_le⟩

/-- The operations of the executor a block goes through. -/
inductive Op where
  | transactionExecute (tx : Transaction) (withdrawFee : Bool)
  | transactionExecuteUnsinged (caller : H160) (tx : UnsignedTransaction) (withdrawFee : Bool)
  | deposit (recipient : H160) (amount : ℕ)
  | registerSwapTxInEvm (mintAddress recipient : H160) (amount : ℕ)

variable (h) (run : EvmRun)

/-- The executor after an operation; `none` where an assert fires. -/
def Op.exec (ex : Executor) : Op → Option Executor
  | .transactionExecute tx withdrawFee =>
    (Executor.transactionExecute h run ex tx withdrawFee).map Prod.fst
  | .transactionExecuteUnsinged caller tx withdrawFee =>
    (Executor.transactionExecuteUnsinged h run ex caller tx withdrawFee).map Prod.fst
  | .deposit recipient amount => some (ex.deposit recipient amount)
  | .registerSwapTxInEvm mintAddress recipient amount =>
    Executor.registerSwapTxInEvm h ex mintAddress recipient amount

/-- The executors reached from `ex₀` by operations, and by `apply_failed_update` of a failed
execution that started where it is applied. -/
inductive Reachable : Executor → Executor → Prop
  | refl (ex : Executor) : Reachable ex ex
  | op {ex₀ ex ex' : Executor} (op : Op) :
      Reachable ex₀ ex → op.exec h run ex = some ex' → Reachable ex₀ ex'
  | applyFailedUpdate {ex₀ ex failed : Executor} (clearLogs : Bool) :
      Reachable ex₀ ex → Reachable ex failed →
      Reachable ex₀ { ex with evmBackend := ex.evmBackend.applyFailedUpdate failed.evmBackend clearLogs }

variable {h run}

/-- Every operation keeps the invariant. -/
theorem Op.exec_inv (hinv : ex.Inv) {op : Op} (hrun : op.exec h run ex = some ex') : ex'.Inv := by
  cases op with
  | transactionExecute tx withdrawFee =>
    obtain ⟨⟨ex'', r⟩, hcall, rfl⟩ := Option.map_eq_some_iff.mp hrun
    rcases transactionExecute_spec hcall with rfl | ⟨result, updates, hcaller, hlt, hreg⟩
    · exact hinv
    · exact (hinv.apply updates hlt.le).register hreg hcaller
  | transactionExecuteUnsinged caller tx withdrawFee =>
    obtain ⟨⟨ex'', r⟩, hcall, rfl⟩ := Option.map_eq_some_iff.mp hrun
    rcases transactionExecuteUnsinged_spec hcall with rfl | ⟨result, updates, hlt, hreg⟩
    · exact hinv
    · exact (hinv.apply updates hlt.le).register hreg rfl
  | deposit recipient amount =>
    obtain rfl := Option.some.inj hrun
    exact hinv.apply _ (Nat.zero_le _)
  | registerSwapTxInEvm mintAddress recipient amount =>
    exact (hinv.apply _ (Nat.zero_le _)).register hrun rfl

/-- No operation removes a receipt. -/
theorem Op.exec_extends {op : Op} (hrun : op.exec h run ex = some ex') :
    ex.evmBackend.executedTransactions <+: ex'.evmBackend.executedTransactions := by
  have happly : ∀ (ex : Executor) updates g, ex.evmBackend.executedTransactions =
      (ExecutorContext.apply ⟨ex.evmBackend⟩ updates g).executedTransactions := fun ex updates g =>
    (ExecutorContext.apply_executedTransactions ⟨ex.evmBackend⟩ updates g).1.symm
  have hreg : ∀ {ex ex' : Executor} {tx : TransactionInReceipt} {result : ExecutionResult},
      registerTxWithReceipt h ex tx result = some ex' →
      ex.evmBackend.executedTransactions <+: ex'.evmBackend.executedTransactions := by
    intro ex ex' tx result hreg
    obtain ⟨-, rfl⟩ := registerTxWithReceipt_eq_some hreg
    exact List.prefix_append _ _
  cases op with
  | transactionExecute tx withdrawFee =>
    obtain ⟨⟨ex'', r⟩, hcall, rfl⟩ := Option.map_eq_some_iff.mp hrun
    rcases transactionExecute_spec hcall with rfl | ⟨result, updates, -, -, hr⟩
    · exact List.prefix_refl _
    · exact happly ex updates _ ▸ hreg hr
  | transactionExecuteUnsinged caller tx withdrawFee =>
    obtain ⟨⟨ex'', r⟩, hcall, rfl⟩ := Option.map_eq_some_iff.mp hrun
    rcases transactionExecuteUnsinged_spec hcall with rfl | ⟨result, updates, -, hr⟩
    · exact List.prefix_refl _
    · exact happly ex updates _ ▸ hreg hr
  | deposit recipient amount =>
    obtain rfl := Option.some.inj hrun
    exact (happly ex _ 0).symm ▸ List.prefix_refl _
  | registerSwapTxInEvm mintAddress recipient amount =>
    exact happly ex _ 0 ▸ hreg hrun

/-- A reachable executor's log extends the one it was reached from. -/
theorem Reachable.log_extends {ex₀ : Executor} (hr : Reachable h run ex₀ ex) :
    ex₀.evmBackend.executedTransactions <+: ex.evmBackend.executedTransactions := by
  induction hr with
  | refl => exact List.prefix_refl _
  | op op _ hrun ih => exact ih.trans (Op.exec_extends hrun)
  | applyFailedUpdate clearLogs _ _ ih _ =>
    exact ih.trans (Incomming.prefix_applyFailedUpdate _ _ clearLogs)

/-- Every executor reached from one that keeps the invariant keeps it. -/
theorem Reachable.inv {ex₀ : Executor} (hr : Reachable h run ex₀ ex) (h₀ : ex₀.Inv) : ex.Inv := by
  induction hr with
  | refl => exact h₀
  | op op _ hrun ih => exact Op.exec_inv (ih h₀) hrun
  | applyFailedUpdate clearLogs hr hfailed ih ihfailed =>
    have hinv := ih h₀
    exact hinv.applyFailedUpdate (ihfailed hinv) hfailed.log_extends clearLogs

/-- A run of `StackExecutor::transact_call` from a caller that cannot fund the value it sends:
the intrinsic gas of a call is charged and the caller's nonce increased, then the transfer fails
with `OutOfFund` and the substate of the call is reverted. -/
def outOfFundCallRun : EvmRun := fun b call =>
  let basic := ExecutorContext.basic ⟨b⟩ call.caller
  let updates := [Apply.modify call.caller { basic with nonce := basic.nonce + 1 } none [] false]
  ⟨.error, 21000, 21000 * call.gasPrice, updates, some updates, []⟩

theorem swap_after_lookalike_unsigned_tx_panics (h : TxHashes) :
    ∃ ex₁ result,
      transactionExecuteUnsinged h outOfFundCallRun testing 1 ⟨0, 0, 0, .call 2, 5, []⟩ false =
        some (ex₁, .ok result) ∧
      registerSwapTxInEvm h ex₁ EvmLoader.ethToVlxAddr 2 5 = none := by
  refine ⟨_, _, rfl, ?_⟩
  rw [registerSwapTxInEvm_eq_none_iff]
  -- the log holds the signing hash of the first transaction; the run moved only its caller, so
  -- the swap reads nonce zero and, with `unsigned_tx_fix` off, builds the same signing hash
  simp [Incomming.getExecutedTransactions, (ExecutorContext.apply_executedTransactions _ _ _).1,
    testing, UnsignedTransactionWithCaller.txIdHash, TransactionInReceipt.txIdHash]
  congr 1

end Executor

end VelasChain.Evm
