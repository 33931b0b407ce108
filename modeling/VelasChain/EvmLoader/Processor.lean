import VelasChain.Evm.State
import VelasChain.Evm.Precompiles
import VelasChain.EvmLoader.TxChunks

/-!
# The EVM loader

`EvmProcessor::process_instruction` runs one instruction of the EVM loader against the native
accounts it is given and the EVM executor of the block. Four instructions move value between
the two chains: `SwapNativeToEther` locks lamports in the `evm_state` account and deposits
their value to an EVM address; `ExecuteTransaction` runs an EVM transaction, charges its fee in
the EVM or in lamports, and pays out the swaps to native accounts that the transaction requested
from the `ETH_TO_VLX` precompile; `EvmBigTransaction` writes a transaction into a storage
account; `FreeOwnership` hands an account back to the system program.

The native side is a map from keys to lamports, owners and data; a `KeyedAccount` is a key
with its signer and writable flags. Two keyed accounts with one key share one `RefCell`, so a
second mutable borrow of an account is a borrow of the same key, and fails. The EVM side is the
balance of each address. What the executor computes beyond balances (SputnikVM's run, signature
recovery, the checks of chain id, nonce and duplicates, deserialization) is a parameter of the
environment.

Lamports are `u64` in the code: `saturating_*` and `checked_*` are written out against
`u64Max`. EVM balances are `U256`, which no sum of lamports' worth can reach.
-/

namespace VelasChain.EvmLoader

open Evm

/-- `LAMPORTS_TO_GWEI_PRICE`. -/
def lamportsToGweiPrice : ℕ := 1000000000

/-- `lamports_to_gwei`. -/
def lamportsToGwei (lamports : ℕ) : ℕ := lamports * lamportsToGweiPrice

/-- `gweis_to_lamports`: the lamports and the change. `as_u64` would panic above `u64::MAX`;
every path that uses the lamports moves them with checked arithmetic on `u64` balances first. -/
def gweisToLamports (gweis : ℕ) : ℕ × ℕ :=
  (gweis / lamportsToGweiPrice, gweis % lamportsToGweiPrice)

/-- `BURN_GAS_PRICE`. -/
def burnGasPrice : ℕ := 2000000000

/-- `ETH_TO_VLX_ADDR`: "VELAS-CHAIN", spaces, "SWAP". -/
def ethToVlxAddr : H160 := 0x56454c41532d434841494e000000000053574150#160

/-- `BURN_ADDR`. -/
def burnAddr : H160 := 0

/-- The features `process_instruction` and the executor read. -/
structure Features where
  evmCrossExecution : Bool
  nativeSwapInEvmHistory : Bool
  ignoreResetOnCleared : Bool
  freeOwnershipRequireSigner : Bool
  burnFee : Bool
  unsignedTxFix : Bool
  clearLogsOnError : Bool
  acceptZeroGasPriceWithNativeFee : Bool
  deriving DecidableEq, Repr

/-- `FeatureSet::all_enabled()`. -/
def Features.full : Features := ⟨true, true, true, true, true, true, true, true⟩

/-- `EvmConfig::burn_gas_price`. -/
def Features.burnGasPrice (fs : Features) : ℕ := if fs.burnFee then EvmLoader.burnGasPrice else 0

/-- `EvmError`. -/
inductive EvmError where
  | crossExecutionNotEnabled
  | evmExecutorNotFound
  | recursiveCrossExecution
  | internalExecutorError
  | internalTransactionError
  | missingAccount
  | missingRequiredSignature
  | authorizedTransactionIncorrectAddress
  | authorizedTransactionIncorrectOwner
  | freeNotEvmAccount
  | swapInsufficient
  | borrowingFailed
  | allocateStorageFailed
  | writeStorageFailed
  | deserializationError
  | revertTransaction
  | instructionNotSupportedYet
  | overflowInRefund
  | nativeAccountInsufficientFunds
  | precompileError
  deriving DecidableEq, Repr

/-- The errors of `process_instruction` under `evm_new_error_handling`: an `EvmError` becomes
`InstructionError::Custom`. -/
inductive InstructionError where
  | missingAccount
  | custom (e : EvmError)
  deriving DecidableEq, Repr

inductive TransactionAction where
  | call (addr : H160)
  | create
  deriving DecidableEq, Repr

structure UnsignedTransaction where
  nonce : ℕ
  gasPrice : ℕ
  gasLimit : ℕ
  action : TransactionAction
  value : ℕ
  input : List UInt8
  deriving DecidableEq, Repr

/-- A signed transaction: the unsigned fields and the signature `(v, r, s)`. -/
structure Transaction where
  unsigned : UnsignedTransaction
  signature : ℕ × H256 × H256
  deriving DecidableEq, Repr

inductive FeePayerType where
  | evm
  | native
  deriving DecidableEq, Repr

inductive ExecuteTransaction where
  | signed (tx : Option Transaction)
  | programAuthorized (tx : Option UnsignedTransaction) («from» : H160)
  deriving DecidableEq, Repr

/-- `ExecuteTransaction::is_big`: the transaction is read from a storage account. -/
def ExecuteTransaction.isBig : ExecuteTransaction → Bool
  | .signed none => true
  | .programAuthorized none _ => true
  | _ => false

inductive EvmBigTransaction where
  | evmTransactionAllocate (size : ℕ)
  | evmTransactionWrite (offset : ℕ) (data : List UInt8)
  deriving DecidableEq, Repr

inductive EvmInstruction where
  | evmBigTransaction (bigTx : EvmBigTransaction)
  | freeOwnership
  | swapNativeToEther (lamports : ℕ) (evmAddress : H160)
  | executeTransaction (tx : ExecuteTransaction) (feeType : FeePayerType)
  deriving DecidableEq, Repr

variable {Key : Type} [DecidableEq Key]

structure KeyedAccount (Key : Type) where
  key : Key
  isSigner : Bool
  isWritable : Bool
  deriving DecidableEq, Repr

/-- `AccountStructure`: the `evm_state` account and the accounts after it. -/
structure AccountStructure (Key : Type) where
  evm : KeyedAccount Key
  users : List (KeyedAccount Key)

/-- `AccountStructure::first`. -/
def AccountStructure.first (accounts : AccountStructure Key) : Option (KeyedAccount Key) :=
  accounts.users.head?

/-- `AccountStructure::find_user`. -/
def AccountStructure.findUser (accounts : AccountStructure Key) (key : Key) :
    Option (KeyedAccount Key) :=
  accounts.users.find? fun keyed => keyed.key = key

/-- What an instruction reads and writes: lamports, owner and data of the native accounts, and
the EVM balance of each address. -/
structure BridgeState (Key : Type) where
  lamports : Key → ℕ
  owner : Key → Key
  data : Key → List UInt8
  balances : H160 → ℕ

namespace BridgeState

def setLamports (s : BridgeState Key) (key : Key) (lamports : ℕ) : BridgeState Key :=
  { s with lamports := Function.update s.lamports key lamports }

def setBalances (s : BridgeState Key) (balances : H160 → ℕ) : BridgeState Key :=
  { s with balances }

@[simp] lemma setLamports_lamports (s : BridgeState Key) (key : Key) (lamports : ℕ) :
    (s.setLamports key lamports).lamports = Function.update s.lamports key lamports := rfl

@[simp] lemma setLamports_balances (s : BridgeState Key) (key : Key) (lamports : ℕ) :
    (s.setLamports key lamports).balances = s.balances := rfl

omit [DecidableEq Key] in
@[simp] lemma setBalances_lamports (s : BridgeState Key) (balances : H160 → ℕ) :
    (s.setBalances balances).lamports = s.lamports := rfl

omit [DecidableEq Key] in
@[simp] lemma setBalances_balances (s : BridgeState Key) (balances : H160 → ℕ) :
    (s.setBalances balances).balances = balances := rfl

end BridgeState

/-- `MemoryStackState::deposit`. -/
def deposit (balances : H160 → ℕ) (recipient : H160) (amount : ℕ) : H160 → ℕ :=
  Function.update balances recipient (balances recipient + amount)

/-- `Executor::reset_balance`: with `ignore_reset_on_cleared`, a zero balance is left alone. -/
def resetBalance (balances : H160 → ℕ) (swapAddr : H160) (ignoreResetOnCleared : Bool) :
    H160 → ℕ :=
  if !ignoreResetOnCleared || balances swapAddr ≠ 0 then Function.update balances swapAddr 0
  else balances

/-- What SputnikVM's `transact_call` or `transact_create` leaves: the exit reason, the gas used,
the balances, and the swaps the `ETH_TO_VLX` precompile logged, as `(pubkey, lamports)`. -/
structure StackRun (Key : Type) where
  exitReason : ExitReason
  usedGas : ℕ
  balances : H160 → ℕ
  promises : List (Key × ℕ)

/-- `ExecutionResult`, with the logs of native contracts decoded to swaps. -/
structure ExecutionResult (Key : Type) where
  exitReason : ExitReason
  usedGas : ℕ
  promises : List (Key × ℕ)

/-- The invocation, and what the executor computes beyond balances. -/
structure Env (Key : Type) where
  evmStateId : Key
  evmLoaderId : Key
  systemProgramId : Key
  /-- `get_parent_caller().copied().unwrap_or_default()`. -/
  parentCaller : Key
  stackHeight : ℕ
  /-- `Keccak256` of a key's bytes. -/
  keccak256 : Key → H256
  /-- `Transaction::caller`: the address recovered from the signature. -/
  recoverCaller : Transaction → Option H160
  /-- Decoding the data of a storage account; the flag selects `borsh` over `bincode`. -/
  decodeTransaction : Bool → List UInt8 → Option Transaction
  decodeUnsignedTransaction : Bool → List UInt8 → Option UnsignedTransaction
  /-- The checks of `transaction_execute_raw` on what is not modelled: chain id, a duplicate
  transaction, the nonce and the block's gas. -/
  admissible : H160 → UnsignedTransaction → Bool
  blockGasLimitLeft : ℕ
  /-- The run of SputnikVM from a caller, at a gas price, over the balances. -/
  stackExecute : H160 → UnsignedTransaction → ℕ → (H160 → ℕ) → StackRun Key

/-- `evm_address_for_program`: the low 20 bytes of the key's hash, the first two replaced by
`0xAC 0xC0`. -/
def evmAddressForProgram (keccak256 : Key → H256) (programAccount : Key) : H160 :=
  (0xACC0#16 ++ (keccak256 programAccount).setWidth 144 : BitVec 160)

/-! ### The executor -/

section Executor

variable (env : Env Key) (fs : Features)

/-- The gas price a transaction runs at: a zero price of a natively paid transaction is raised
to `burn_gas_price`, any other price must reach it. -/
def runGasPrice (withdrawFee : Bool) (gasPrice : ℕ) : Option ℕ :=
  if fs.acceptZeroGasPriceWithNativeFee && !withdrawFee && gasPrice = 0 then some fs.burnGasPrice
  else if gasPrice ≥ fs.burnGasPrice then some gasPrice else none

/-- `MemoryStackState::withdraw`. -/
def withdraw (balances : H160 → ℕ) (source : H160) (value : ℕ) : Option (H160 → ℕ) :=
  if value ≤ balances source then some (Function.update balances source (balances source - value))
  else none

/-- `Executor::transaction_execute_raw`, on balances: `none` is an `evm_state::error::Error`,
before which nothing is written. -/
def transactionExecuteRaw (caller : H160) (tx : UnsignedTransaction) (withdrawFee : Bool)
    (balances : H160 → ℕ) : Option (ExecutionResult Key × (H160 → ℕ)) :=
  if !env.admissible caller tx || tx.gasPrice > u64Max then none else
  (runGasPrice fs withdrawFee tx.gasPrice).bind fun gasPrice =>
  if tx.gasLimit > u64Max then none else
  if withdrawFee && tx.gasLimit * gasPrice + tx.value > balances caller then none else
  let run := env.stackExecute caller tx gasPrice balances
  -- the fee, `Executor::fee(gas_price)`, is withdrawn from the caller only when the
  -- transaction succeeded
  let balances? :=
    if withdrawFee && run.exitReason = .succeed then
      withdraw run.balances caller (run.usedGas * gasPrice)
    else some run.balances
  balances?.bind fun balances =>
  if run.usedGas ≥ env.blockGasLimitLeft then none else
  let promises := if fs.clearLogsOnError && run.exitReason ≠ .succeed then [] else run.promises
  some (⟨run.exitReason, run.usedGas, promises⟩, balances)

end Executor

/-! ### Native accounts -/

section Native

variable (accounts : AccountStructure Key)

/-- `handle_promise` of `ETH_TO_VLX`: the evm account pays the lamports to the user. -/
def handlePromise (s : BridgeState Key) (promise : Key × ℕ) : Except EvmError (BridgeState Key) :=
  match accounts.findUser promise.1 with
  | none => .error .precompileError
  | some user =>
    -- the user is borrowed while the evm account is
    if user.key = accounts.evm.key then .error .precompileError
    else if promise.2 > s.lamports accounts.evm.key then .error .precompileError
    else
      let s := s.setLamports accounts.evm.key (s.lamports accounts.evm.key - promise.2)
      .ok (s.setLamports user.key (min (s.lamports user.key + promise.2) u64Max))

/-- `filter_native_logs`: each swap logged by the precompile is paid in order. -/
def filterNativeLogs (promises : List (Key × ℕ)) (s : BridgeState Key) :
    Except EvmError (BridgeState Key) :=
  promises.foldlM (handlePromise accounts) s

/-- `AccountStructure::refund_fee`. -/
def refundFee (user : KeyedAccount Key) (fee : ℕ) (s : BridgeState Key) :
    Except EvmError (BridgeState Key) :=
  if fee > s.lamports accounts.evm.key then .error .overflowInRefund else
  let s := s.setLamports accounts.evm.key (s.lamports accounts.evm.key - fee)
  if user.key = accounts.evm.key then .error .borrowingFailed
  else if s.lamports user.key + fee > u64Max then .error .overflowInRefund
  else .ok (s.setLamports user.key (s.lamports user.key + fee))

/-- `charge_native_account`: on success the fee, in lamports, moves from the native account to
the evm account. -/
def chargeNativeAccount (result : ExecutionResult Key) (fee : ℕ) (nativeAccount evmAccount : KeyedAccount Key)
    (s : BridgeState Key) : Except EvmError (BridgeState Key) :=
  if result.exitReason = .succeed then
    let fee := (gweisToLamports fee).1
    if fee > s.lamports nativeAccount.key then .error .nativeAccountInsufficientFunds else
    let s := s.setLamports nativeAccount.key (s.lamports nativeAccount.key - fee)
    if evmAccount.key = nativeAccount.key then .error .borrowingFailed
    else if s.lamports evmAccount.key + fee > u64Max then .error .overflowInRefund
    else .ok (s.setLamports evmAccount.key (s.lamports evmAccount.key + fee))
  else .ok s

/-- `get_big_transaction_storage`: the first user account, which must sign. -/
def getBigTransactionStorage : Except EvmError (KeyedAccount Key) :=
  match accounts.first with
  | none => .error .missingAccount
  | some storage => if storage.isSigner then .ok storage else .error .missingRequiredSignature

/-- `cleanup_storage`: the storage's lamports go to the user. -/
def cleanupStorage (storage user : KeyedAccount Key) (s : BridgeState Key) :
    Except EvmError (BridgeState Key) :=
  let balance := s.lamports storage.key
  let s := s.setLamports storage.key 0
  if user.key = storage.key then .error .borrowingFailed
  else .ok (s.setLamports user.key (min (s.lamports user.key + balance) u64Max))

end Native

/-! ### The instructions -/

section Instructions

variable (env : Env Key) (fs : Features) (accounts : AccountStructure Key)

/-- `process_swap_to_evm`. -/
def processSwapToEvm (lamports : ℕ) (evmAddress : H160) (s : BridgeState Key) :
    Except EvmError (BridgeState Key) :=
  let gweis := lamportsToGwei lamports
  match accounts.first with
  | none => .error .missingAccount
  | some user =>
    if lamports = 0 then .ok s
    else if !user.isSigner then .error .missingRequiredSignature
    else if lamports > s.lamports user.key then .error .swapInsufficient
    else
      let s := s.setLamports user.key (s.lamports user.key - lamports)
      if accounts.evm.key = user.key then .error .borrowingFailed
      else
        let s := s.setLamports accounts.evm.key (min (s.lamports accounts.evm.key + lamports) u64Max)
        -- `register_swap_tx_in_evm` records a receipt and a nonce, no balance
        .ok (s.setBalances (deposit s.balances evmAddress gweis))

/-- `process_free_ownership`. -/
def processFreeOwnership (s : BridgeState Key) : Except EvmError (BridgeState Key) :=
  match accounts.first with
  | none => .error .missingAccount
  | some user =>
    if fs.freeOwnershipRequireSigner && !user.isSigner then .error .missingRequiredSignature
    else if s.owner user.key ≠ env.evmLoaderId ∨ user.key = env.evmStateId then
      .error .freeNotEvmAccount
    else .ok { s with owner := Function.update s.owner user.key env.systemProgramId }

/-- `process_big_tx`. -/
def processBigTx (bigTx : EvmBigTransaction) (s : BridgeState Key) :
    Except EvmError (BridgeState Key) := do
  let storage ← getBigTransactionStorage accounts
  let bytes := s.data storage.key
  let bytes ← match bigTx with
    | .evmTransactionAllocate size =>
      (TxChunks.init bytes size).mapError fun _ => .allocateStorageFailed
    | .evmTransactionWrite offset data =>
      (TxChunks.push bytes offset data).mapError fun _ => .writeStorageFailed
  pure { s with data := Function.update s.data storage.key bytes }

/-- `get_tx_from_storage`. -/
def getTxFromStorage {T : Type} (decode : Bool → List UInt8 → Option T) (borshUsed : Bool)
    (s : BridgeState Key) : Except EvmError T := do
  let storage ← getBigTransactionStorage accounts
  match decode borshUsed (s.data storage.key) with
  | some tx => pure tx
  | none => throw .deserializationError

/-- `check_program_account`. -/
def checkProgramAccount (programAccount : KeyedAccount Key) («from» : H160)
    (s : BridgeState Key) : Except EvmError Unit :=
  if !programAccount.isSigner then .error .missingRequiredSignature
  else if evmAddressForProgram env.keccak256 programAccount.key ≠ «from» then
    .error .authorizedTransactionIncorrectAddress
  else if fs.unsignedTxFix && s.owner programAccount.key ≠ env.parentCaller then
    .error .authorizedTransactionIncorrectOwner
  else .ok ()

/-- `handle_transaction_result`. -/
def handleTransactionResult (sender : Option (KeyedAccount Key)) (txGasPrice : ℕ)
    (result : Option (ExecutionResult Key)) (withdrawFeeFromEvm : Bool) (s : BridgeState Key) :
    Except EvmError (BridgeState Key) :=
  match result with
  | none => .error .internalExecutorError
  | some result =>
    (filterNativeLogs accounts result.promises s).bind fun s =>
    if result.exitReason = .fatal ∨ result.exitReason = .error then .error .internalTransactionError
    else if result.exitReason = .revert then .error .revertTransaction
    else
      let fullFee := txGasPrice * result.usedGas
      let burnFee := fs.burnGasPrice * result.usedGas
      if fullFee < burnFee then .error .overflowInRefund
      else
        let refundNativeFee := (gweisToLamports (fullFee - burnFee)).1
        -- 1. a native fee is charged here; an EVM fee was withdrawn by the executor
        let charged :=
          if !withdrawFeeFromEvm then
            match sender with
            | some sender => chargeNativeAccount result fullFee sender accounts.evm s
            | none => .error .missingRequiredSignature
          else .ok s
        charged.bind fun s =>
        -- 2. the burnt part goes to `BURN_ADDR`
        let s := if burnFee > 0 then s.setBalances (deposit s.balances burnAddr burnFee) else s
        -- 3. the rest is refunded in lamports from the evm account
        match sender with
        | some payer => refundFee accounts payer refundNativeFee s
        | none => .ok s

/-- The transaction `process_execute_tx` runs, with its caller: the signer recovered from a
signed transaction (`none` if the signature does not recover), or the checked `from` of a
program-authorized one. -/
def prepareTransaction (tx : ExecuteTransaction) (sender : Option (KeyedAccount Key))
    (borshUsed : Bool) (s : BridgeState Key) :
    Except EvmError (Option H160 × UnsignedTransaction) :=
  match tx with
  | .signed tx => do
    let tx ← match tx with
      | some tx => pure tx
      | none => getTxFromStorage accounts env.decodeTransaction borshUsed s
    pure (env.recoverCaller tx, tx.unsigned)
  | .programAuthorized tx «from» => do
    let programAccount ← match sender with
      | some programAccount => pure programAccount
      | none => throw .missingAccount
    checkProgramAccount env fs programAccount «from» s
    let tx ← match tx with
      | some tx => pure tx
      | none => getTxFromStorage accounts env.decodeUnsignedTransaction borshUsed s
    pure (some «from», tx)

/-- `process_execute_tx`. -/
def processExecuteTx (tx : ExecuteTransaction) (feeType : FeePayerType) (borshUsed : Bool)
    (s : BridgeState Key) : Except EvmError (BridgeState Key) :=
  let isBig := tx.isBig
  let sender := if isBig then accounts.users[1]? else accounts.first
  if feeType = .native ∧ sender.isNone then .error .missingRequiredSignature
  else
    let withdrawFeeFromEvm := feeType = .evm
    (prepareTransaction env fs accounts tx sender borshUsed s).bind fun (caller, utx) =>
    let executed := caller.bind fun caller =>
      transactionExecuteRaw env fs caller utx withdrawFeeFromEvm s.balances
    let s := match executed with
      | some (_, balances) => s.setBalances balances
      | none => s
    let cleaned :=
      if fs.unsignedTxFix && isBig then
        (getBigTransactionStorage accounts).bind fun storage =>
          cleanupStorage storage (sender.getD accounts.evm) s
      else .ok s
    cleaned.bind fun s =>
    let txGasPrice :=
      if fs.acceptZeroGasPriceWithNativeFee && feeType = .native && utx.gasPrice = 0 then
        fs.burnGasPrice
      else utx.gasPrice
    handleTransactionResult fs accounts sender txGasPrice (executed.map (·.1)) withdrawFeeFromEvm s

/-- The handler `process_instruction` runs for an instruction. -/
def dispatchInstruction (ix : EvmInstruction) (borshUsed : Bool) (s : BridgeState Key) :
    Except EvmError (BridgeState Key) :=
  match ix with
  | .evmBigTransaction bigTx => processBigTx accounts bigTx s
  | .freeOwnership => processFreeOwnership env fs accounts s
  | .swapNativeToEther lamports evmAddress => processSwapToEvm accounts lamports evmAddress s
  | .executeTransaction tx feeType => processExecuteTx env fs accounts tx feeType borshUsed s

/-- `EvmProcessor::process_instruction`, under `evm_new_error_handling`. The executor is the
block's; an invocation without one, or with one already borrowed, is not modelled. -/
def processInstruction (ix : EvmInstruction) (borshUsed : Bool) (s : BridgeState Key) :
    Except InstructionError (BridgeState Key) :=
  -- `check_evm_account`
  if accounts.evm.key ≠ env.evmStateId ∨ !accounts.evm.isWritable then .error .missingAccount
  else if env.stackHeight ≠ 1 && !fs.evmCrossExecution then
    .error (.custom .crossExecutionNotEnabled)
  else
    match dispatchInstruction env fs accounts ix borshUsed s with
    | .ok s =>
      .ok (if fs.nativeSwapInEvmHistory then
          s.setBalances (resetBalance s.balances ethToVlxAddr fs.ignoreResetOnCleared)
        else s)
    | .error e => .error (.custom e)

end Instructions

end VelasChain.EvmLoader
