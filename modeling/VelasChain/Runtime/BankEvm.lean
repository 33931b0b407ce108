import VelasChain.Evm.State

/-!
# The EVM patch of a batch of native transactions

`Bank::load_and_execute_transactions` threads one EVM patch, `evm_patch`, through the
transactions of a batch. `Bank::execute_loaded_transaction` hands a transaction that writes
the EVM state an executor over the patch, runs `MessageProcessor::process_message`, and then
either takes the executor's state as the new patch or, when the message failed with an
`InstructionError` under `evm_new_error_handling`, keeps only `apply_failed_update` of it.
The transaction's final status is computed after that choice: a successful message can
still fail `verify_transaction_account_state_changes`. `Bank::commit_transactions` installs
the patch into the bank.

What the programs of a message do is arbitrary here: a transaction carries its message
processing as a function of the executor's starting patch.
-/

namespace VelasChain.Runtime

open VelasChain.Evm

/-! ### Rent states -/

/-- `RentState` of a writable account. -/
inductive RentState where
  | uninitialized
  | rentPaying (lamports : Nat) (dataSize : Nat)
  | rentExempt
  deriving DecidableEq

/-- `RentState::transition_allowed_from`. -/
def RentState.transitionAllowedFrom (post pre : RentState)
    (doSupportRealloc preventCreditingAccountsThatEndRentPaying : Bool) : Bool :=
  match post, pre with
  | .uninitialized, _ | .rentExempt, _ => true
  | .rentPaying _ _, .uninitialized | .rentPaying _ _, .rentExempt => false
  | .rentPaying postLamports postDataSize, .rentPaying preLamports preDataSize =>
    if doSupportRealloc && postDataSize != preDataSize then false
    else if preventCreditingAccountsThatEndRentPaying then postLamports ≤ preLamports
    else true

/-- `TransactionError`, by the variants the bank tells apart. -/
inductive TransactionError where
  | instructionError (index : Nat)
  | invalidRentPayingAccount
  | insufficientFundsForRent (accountIndex : Nat)
  | other
  deriving DecidableEq

/-- The features read on this path. -/
structure FeatureSet where
  requireRentExemptAccounts : Bool
  doSupportRealloc : Bool
  includeAccountIndexInRentError : Bool
  preventCreditingAccountsThatEndRentPaying : Bool
  evmNewErrorHandling : Bool
  clearLogsOnNativeError : Bool

/-- `TransactionAccountStateInfo`: the rent state of an account, `None` when read-only. -/
structure TransactionAccountStateInfo where
  rentState : Option RentState

/-- `check_rent_state` (through `check_rent_state_with_account`) for the account at `index`;
the incinerator is exempt. -/
def checkRentState (fs : FeatureSet) (pre post : Option RentState) (isIncinerator : Bool)
    (index : Nat) : Except TransactionError Unit :=
  match pre, post with
  | some pre, some post =>
    if !isIncinerator && !post.transitionAllowedFrom pre fs.doSupportRealloc
        fs.preventCreditingAccountsThatEndRentPaying then
      .error (if fs.includeAccountIndexInRentError then .insufficientFundsForRent (index % 256)
        else .invalidRentPayingAccount)
    else .ok ()
  | _, _ => .ok ()

/-- The loop of `Bank::verify_transaction_account_state_changes` from account `index` on: a
failed check is returned only under `require_rent_exempt_accounts`. -/
def verifyFrom (fs : FeatureSet) (isIncinerator : Nat → Bool) :
    Nat → List (TransactionAccountStateInfo × TransactionAccountStateInfo) →
      Except TransactionError Unit
  | _, [] => .ok ()
  | index, (pre, post) :: rest =>
    match checkRentState fs pre.rentState post.rentState (isIncinerator index) index with
    | .error err =>
      if fs.requireRentExemptAccounts then .error err else verifyFrom fs isIncinerator (index + 1) rest
    | .ok () => verifyFrom fs isIncinerator (index + 1) rest

/-- `Bank::verify_transaction_account_state_changes`. -/
def verifyTransactionAccountStateChanges (fs : FeatureSet) (isIncinerator : Nat → Bool)
    (pre post : List TransactionAccountStateInfo) : Except TransactionError Unit :=
  verifyFrom fs isIncinerator 0 (pre.zip post)

/-! ### Executing a batch -/

/-- What `MessageProcessor::process_message` produced: its result, the executor's state
afterwards (`executor.deconstruct()`, meaningful when there was an executor), and the rent
states of the accounts after the message. -/
structure ProcessedMessage where
  result : Except TransactionError Unit
  newPatch : Incomming
  postAccountStateInfo : List TransactionAccountStateInfo

/-- A loaded transaction: whether it writes the EVM state account (`is_modify_evm_state`),
which account indices hold the incinerator, the rent states before execution, and its
message processing as a function of the executor's starting patch (`None`: no executor). -/
structure LoadedTransaction where
  modifyEvmState : Bool
  isIncinerator : Nat → Bool
  preAccountStateInfo : List TransactionAccountStateInfo
  processMessage : Option Incomming → ProcessedMessage

/-- The status `execute_loaded_transaction` reports: the message result, then the rent check. -/
def finalStatus (fs : FeatureSet) (tx : LoadedTransaction) (pm : ProcessedMessage) :
    Except TransactionError Unit :=
  pm.result.bind fun _ =>
    verifyTransactionAccountStateChanges fs tx.isIncinerator tx.preAccountStateInfo
      pm.postAccountStateInfo

/-- Whether a message result is an `InstructionError`. -/
def isInstructionError : Except TransactionError Unit → Bool
  | .error (.instructionError _) => true
  | _ => false

/-- The EVM part of `Bank::execute_loaded_transaction`: the patch after the transaction,
chosen from the message result alone, and the transaction's final status. -/
def executeLoadedTransaction (fs : FeatureSet) (evmStateGetter : Option Incomming)
    (evmPatch : Option Incomming) (tx : LoadedTransaction) :
    Option Incomming × Except TransactionError Unit :=
  if tx.modifyEvmState then
    match evmPatch.orElse fun _ => evmStateGetter with
    | some patch =>
      let pm := tx.processMessage (some patch)
      let patch' :=
        if isInstructionError pm.result && fs.evmNewErrorHandling then
          patch.applyFailedUpdate pm.newPatch fs.clearLogsOnNativeError
        else pm.newPatch
      (some patch', finalStatus fs tx pm)
    | none => (none, finalStatus fs tx (tx.processMessage none))
  else (evmPatch, finalStatus fs tx (tx.processMessage none))

/-- `Bank::load_and_execute_transactions` over the executed transactions of a batch: the
patch threaded through them, and their statuses. -/
def loadAndExecuteTransactions (fs : FeatureSet) (evmStateGetter : Option Incomming)
    (txs : List LoadedTransaction) : Option Incomming × List (Except TransactionError Unit) :=
  txs.foldl
    (fun acc tx =>
      let (patch, status) := executeLoadedTransaction fs evmStateGetter acc.1 tx
      (patch, acc.2 ++ [status]))
    (none, [])

/-- `Bank::commit_transactions`: the patch, if any, becomes the bank's EVM state. -/
def commitTransactions (evmState : Incomming) (evmPatch : Option Incomming) : Incomming :=
  evmPatch.getD evmState

/-- One step of the fold the claim asks for: a transaction whose final status is `Ok`
contributes the executor's new patch, one whose final status is an error only
`apply_failed_update` of it. -/
def committedPatchSpecStep (fs : FeatureSet) (evmStateGetter : Option Incomming)
    (evmPatch : Option Incomming) (tx : LoadedTransaction) : Option Incomming :=
  if tx.modifyEvmState then
    match evmPatch.orElse fun _ => evmStateGetter with
    | some patch =>
      let pm := tx.processMessage (some patch)
      match finalStatus fs tx pm with
      | .ok () => some pm.newPatch
      | .error _ => some (patch.applyFailedUpdate pm.newPatch fs.clearLogsOnNativeError)
    | none => none
  else evmPatch

/-- The patch the claim asks the bank to install after a batch. -/
def committedPatchSpec (fs : FeatureSet) (evmStateGetter : Option Incomming)
    (txs : List LoadedTransaction) : Option Incomming :=
  txs.foldl (committedPatchSpecStep fs evmStateGetter) none

/-! ### Where the code and the claim agree -/

/-- A transaction whose message result decides its final status, and whose failures are
`InstructionError`s: under `evm_new_error_handling` the code picks the patch the claim does. -/
def StatusFollowsMessage (fs : FeatureSet) (tx : LoadedTransaction) : Prop :=
  ∀ patch, let pm := tx.processMessage (some patch)
    (pm.result = .ok () → finalStatus fs tx pm = .ok ()) ∧
      ∀ e, pm.result = .error e → isInstructionError (.error e) = true

lemma executeLoadedTransaction_fst (fs : FeatureSet) (evmStateGetter : Option Incomming)
    (evmPatch : Option Incomming) (tx : LoadedTransaction)
    (hfs : fs.evmNewErrorHandling = true) (htx : StatusFollowsMessage fs tx) :
    (executeLoadedTransaction fs evmStateGetter evmPatch tx).1 =
      committedPatchSpecStep fs evmStateGetter evmPatch tx := by
  unfold executeLoadedTransaction committedPatchSpecStep
  split
  · split
    · rename_i patch _
      obtain ⟨hok, herr⟩ := htx patch
      cases hr : (tx.processMessage (some patch)).result with
      | ok u =>
        have hfin := hok hr
        simp only [hfin, hr, isInstructionError, Bool.false_and, Bool.false_eq_true, if_false]
      | error e =>
        have hfin : finalStatus fs tx (tx.processMessage (some patch)) = .error e := by
          simp only [finalStatus, hr]; rfl
        simp only [hfin, hr, herr e hr, hfs, Bool.and_self, if_true]
    · rfl
  · rfl

/-- Over a batch of such transactions the code installs the patch the claim describes. -/
theorem loadAndExecuteTransactions_fst_eq_spec (fs : FeatureSet)
    (evmStateGetter : Option Incomming) (txs : List LoadedTransaction)
    (hfs : fs.evmNewErrorHandling = true) (htxs : ∀ tx ∈ txs, StatusFollowsMessage fs tx) :
    (loadAndExecuteTransactions fs evmStateGetter txs).1 =
      committedPatchSpec fs evmStateGetter txs := by
  unfold loadAndExecuteTransactions committedPatchSpec
  -- the code's accumulator carries the statuses too; only its patch is compared
  suffices h : ∀ (acc : Option Incomming × List (Except TransactionError Unit)),
      (txs.foldl (fun acc tx =>
          let (patch, status) := executeLoadedTransaction fs evmStateGetter acc.1 tx
          (patch, acc.2 ++ [status])) acc).1 =
        txs.foldl (committedPatchSpecStep fs evmStateGetter) acc.1 from h (none, [])
  induction txs with
  | nil => intro acc; rfl
  | cons tx rest ih =>
    intro acc
    simp only [List.foldl_cons]
    rw [ih (fun t ht => htxs t (List.mem_cons_of_mem tx ht)),
      executeLoadedTransaction_fst fs evmStateGetter acc.1 tx hfs (htxs tx List.mem_cons_self)]

/-- Every feature read on this path, active. -/
def FeatureSet.all : FeatureSet := ⟨true, true, true, true, true, true⟩

/-- A transaction whose message succeeds and credits `10^9` to address `1` in the EVM, as a
swap does, but leaves its rent-exempt fee payer rent-paying, ends with an error status; the
bank still installs the credited patch, where the claim's fold keeps only the failed update. -/
theorem rent_failed_transaction_keeps_evm_credit :
    let empty : Incomming := ⟨fun _ => none, fun _ => none, 0, []⟩
    let swap : LoadedTransaction :=
      { modifyEvmState := true, isIncinerator := fun _ => false,
        preAccountStateInfo := [⟨some .rentExempt⟩],
        processMessage := fun executor =>
          ⟨.ok (), (executor.getD empty).setAccountState 1 ⟨0, 1000000000, []⟩,
            [⟨some (.rentPaying 1 0)⟩]⟩ }
    let result := loadAndExecuteTransactions FeatureSet.all (some empty) [swap]
    result.2 = [.error (.insufficientFundsForRent 0)] ∧
      ((commitTransactions empty result.1).getAccountState 1).map (·.balance) =
        some 1000000000 ∧
      (commitTransactions empty
        (committedPatchSpec FeatureSet.all (some empty) [swap])).getAccountState 1 = none := by
  refine ⟨rfl, ?_, ?_⟩ <;> decide

end VelasChain.Runtime
