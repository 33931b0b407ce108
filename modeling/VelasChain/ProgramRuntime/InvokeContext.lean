import VelasChain.ProgramRuntime.PreAccount
import VelasChain.Lib.Fallible

/-!
# The invoke context

How the runtime runs an instruction and the instructions programs invoke from it
(`program-runtime/src/invoke_context.rs`, `sdk/src/transaction_context.rs`).

`processInstruction` pushes an instruction context, runs the program and checks the accounts
after it. For the top-level instruction, `push` snapshots the instruction's accounts into the
pre-accounts and `verify` compares the final state with them. For a nested instruction,
`verifyAndUpdate` first checks the caller's changes and moves the snapshots to them, and checks
the callee's changes the same way when it returns. `nativeInvoke` is the entry through which a
program invokes another one: `prepareInstruction` resolves the callee's accounts in the caller's
instruction and refuses privileges the caller does not hold.

Every method changes the state in place and keeps its changes when it returns an error, so each
is a function to the state reached and the result (`Fallible`). A program is a `Program`: it
writes the accounts of its instruction, invokes other programs and goes on according to the
result of each call, and returns.

Borrows of accounts always succeed here, and compute units, timings, logs, return data and the
instruction trace are left out: none of them changes an account.
-/

namespace VelasChain.ProgramRuntime

open Except (failIf okOr)
open Fallible

/-- `InstructionAccount`. -/
structure InstructionAccount where
  indexInTransaction : ℕ
  indexInCaller : ℕ
  isSigner : Bool
  isWritable : Bool
  deriving DecidableEq, Repr

/-- `InstructionContext`, without the nesting level and the instruction data. -/
structure InstructionContext where
  programAccounts : List ℕ
  instructionAccounts : List InstructionAccount
  deriving DecidableEq, Repr

/-- `AccountMeta`. -/
structure AccountMeta (Key : Type) where
  pubkey : Key
  isSigner : Bool
  isWritable : Bool
  deriving DecidableEq, Repr

/-- `Instruction`, without its data, which only the callee reads. -/
structure Instruction (Key : Type) where
  programId : Key
  accounts : List (AccountMeta Key)
  deriving DecidableEq, Repr

/-- `AccountsDataMeter`. The current size saturates at zero; no sum of account sizes reaches
`u64::MAX`. -/
structure AccountsDataMeter where
  maximum : ℕ
  initial : ℕ
  delta : ℤ
  deriving DecidableEq, Repr

namespace AccountsDataMeter

/-- `AccountsDataMeter::current`. -/
def current (m : AccountsDataMeter) : ℕ := (m.initial + m.delta).toNat

/-- `AccountsDataMeter::remaining`. -/
def remaining (m : AccountsDataMeter) : ℕ := m.maximum - m.current

/-- `AccountsDataMeter::adjust_delta_unchecked`. -/
def adjustDeltaUnchecked (m : AccountsDataMeter) (amount : ℤ) : AccountsDataMeter :=
  { m with delta := m.delta + amount }

/-- `AccountsDataMeter::adjust_delta`. -/
def adjustDelta (m : AccountsDataMeter) (amount : ℤ) : Except InstructionError AccountsDataMeter :=
  if amount > m.remaining then .error .maxAccountsDataSizeExceeded
  else .ok (m.adjustDeltaUnchecked amount)

end AccountsDataMeter

/-- The features the invoke context consults. -/
structure FeatureSet where
  doSupportRealloc : Bool
  capAccountsDataLen : Bool
  recordInstructionInTransactionContextPush : Bool
  rejectEmptyInstructionWithoutProgram : Bool
  deriving DecidableEq, Repr

/-- What no instruction of the transaction changes: the account keys of the
`TransactionContext`, its capacity, and the configuration of the `InvokeContext`. -/
structure InvokeEnv (Key : Type) where
  accountKeys : ℕ → Key
  numberOfAccounts : ℕ
  instructionContextCapacity : ℕ
  maxInvokeDepth : ℕ
  featureSet : FeatureSet
  rent : Rent
  systemProgramId : Key
  bpfLoaderUpgradeableId : Key
  /-- `get_state::<UpgradeableLoaderState>` of a program account's data: the programdata
  address of a `Program`, `none` for another state. -/
  programdataAddress : List UInt8 → Except InstructionError (Option Key)

/-- What instructions change: the accounts of the `TransactionContext`, its stack of instruction
contexts (the current one first), and the pre-accounts and data meter of the `InvokeContext`. -/
structure InvokeState (Key : Type) where
  accounts : ℕ → Account Key
  instructionStack : List InstructionContext
  preAccounts : List (PreAccount Key)
  accountsDataMeter : AccountsDataMeter

variable {Key : Type} [DecidableEq Key]

section TransactionContext

variable (env : InvokeEnv Key)

/-- `TransactionContext::get_key_of_account_at_index`. -/
def InvokeEnv.getKeyOfAccountAtIndex (indexInTransaction : ℕ) : Except InstructionError Key :=
  if indexInTransaction < env.numberOfAccounts then .ok (env.accountKeys indexInTransaction)
  else .error .notEnoughAccountKeys

/-- `TransactionContext::find_index_of_account`: the first account with the key. -/
def InvokeEnv.findIndexOfAccount (pubkey : Key) : Option ℕ :=
  (List.range env.numberOfAccounts).find? fun i => env.accountKeys i = pubkey

/-- `TransactionContext::find_index_of_program_account`: the last account with the key. -/
def InvokeEnv.findIndexOfProgramAccount (pubkey : Key) : Option ℕ :=
  (List.range env.numberOfAccounts).reverse.find? fun i => env.accountKeys i = pubkey

/-- `TransactionContext::get_current_instruction_context`. -/
def InvokeState.getCurrentInstructionContext (st : InvokeState Key) :
    Except InstructionError InstructionContext :=
  match st.instructionStack with
  | ctx :: _ => .ok ctx
  | [] => .error .callDepth

/-- `TransactionContext::pop` through `InvokeContext::pop`. The error of an empty stack is
dropped by every caller. -/
def InvokeState.pop (st : InvokeState Key) : InvokeState Key :=
  { st with instructionStack := st.instructionStack.tail }

end TransactionContext

namespace InstructionContext

variable (ctx : InstructionContext) (env : InvokeEnv Key)

/-- `InstructionContext::get_index_in_transaction`: program accounts come first. -/
def getIndexInTransaction (indexInInstruction : ℕ) : Except InstructionError ℕ :=
  if indexInInstruction < ctx.programAccounts.length then
    .ok (ctx.programAccounts.getD indexInInstruction 0)
  else
    match ctx.instructionAccounts[indexInInstruction - ctx.programAccounts.length]? with
    | some instructionAccount => .ok instructionAccount.indexInTransaction
    | none => .error .notEnoughAccountKeys

/-- `InstructionContext::get_program_key`. -/
def getProgramKey : Except InstructionError Key :=
  ctx.getIndexInTransaction (ctx.programAccounts.length - 1) >>= env.getKeyOfAccountAtIndex

/-- `InstructionContext::try_borrow_account`, to the transaction index of the account. -/
def tryBorrowAccount (indexInInstruction : ℕ) : Except InstructionError ℕ :=
  ctx.getIndexInTransaction indexInInstruction >>= fun indexInTransaction =>
    if indexInTransaction < env.numberOfAccounts then .ok indexInTransaction
    else .error .missingAccount

/-- `BorrowedAccount::is_writable`: `InstructionContext::is_writable` or `false`. -/
def isWritable (indexInInstruction : ℕ) : Bool :=
  if indexInInstruction < ctx.programAccounts.length then false
  else (ctx.instructionAccounts[indexInInstruction - ctx.programAccounts.length]?.map
    InstructionAccount.isWritable).getD false

/-- `BorrowedAccount::is_signer`: `InstructionContext::is_signer` or `false`. -/
def isSigner (indexInInstruction : ℕ) : Bool :=
  if indexInInstruction < ctx.programAccounts.length then false
  else (ctx.instructionAccounts[indexInInstruction - ctx.programAccounts.length]?.map
    InstructionAccount.isSigner).getD false

/-- `InstructionContext::find_index_of_account`: searched among the instruction accounts and
offset past the program accounts. -/
def findIndexOfAccount (pubkey : Key) : Option ℕ :=
  (ctx.instructionAccounts.findIdx? fun instructionAccount =>
    env.accountKeys instructionAccount.indexInTransaction = pubkey).map
    (· + ctx.programAccounts.length)

end InstructionContext

/-- `visit_each_account_once`: the work runs once per transaction account, on its first
instruction account. The `None` arm of the source cannot be taken: a prefix of the slice always
exists. -/
def visitEachAccountOnce {σ : Type} (instructionAccounts : List InstructionAccount)
    (work : σ → InstructionAccount → σ × Except InstructionError Unit) (s : σ) :
    σ × Except InstructionError Unit :=
  visitOnce InstructionAccount.indexInTransaction work instructionAccounts s

/-- The fields and locals the work of `verify` and `verify_and_update` changes. -/
structure VerifyState (Key : Type) where
  preAccounts : List (PreAccount Key)
  accountsDataMeter : AccountsDataMeter
  preSum : ℕ
  postSum : ℕ
  preAccountIndex : ℕ

/-- `u128::checked_add` of the lamport sums, failing as the source does. -/
def checkedAddSum (sum lamports : ℕ) : Except InstructionError ℕ :=
  if sum + lamports < 2 ^ 128 then .ok (sum + lamports) else .error .unbalancedInstruction

/-- The data meter's adjustment, checked under `cap_accounts_data_len`. -/
def adjustAccountsDataMeter (env : InvokeEnv Key) (meter : AccountsDataMeter) (dataLenDelta : ℤ) :
    Except InstructionError AccountsDataMeter :=
  if env.featureSet.capAccountsDataLen then meter.adjustDelta dataLenDelta
  else .ok (meter.adjustDeltaUnchecked dataLenDelta)

/-- The data length change from a snapshot to an account. -/
def dataLenDelta (preAccount : PreAccount Key) (account : Account Key) : ℤ :=
  (account.data.length : ℤ) - preAccount.account.data.length

section Verify

variable (env : InvokeEnv Key)

/-- The work of `InvokeContext::verify` on one account: the next snapshot in order is checked
against it, both sums grow and the meter is adjusted. -/
def verifyWork (programId : Key) (accounts : ℕ → Account Key) (vs : VerifyState Key)
    (instructionAccount : InstructionAccount) : VerifyState Key × Except InstructionError Unit :=
  if instructionAccount.indexInTransaction < env.numberOfAccounts then
    match vs.preAccounts[vs.preAccountIndex]? with
    | none => (vs, .error .notEnoughAccountKeys)
    | some preAccount =>
      let account := accounts instructionAccount.indexInTransaction
      let checked := do
        preAccount.verify programId instructionAccount.isWritable env.rent env.systemProgramId
          account env.featureSet.doSupportRealloc
        let preSum ← checkedAddSum vs.preSum preAccount.account.lamports
        let postSum ← checkedAddSum vs.postSum account.lamports
        let meter ← adjustAccountsDataMeter env vs.accountsDataMeter (dataLenDelta preAccount account)
        pure (preSum, postSum, meter)
      match checked with
      | .ok (preSum, postSum, meter) =>
        ({ vs with
            preSum := preSum, postSum := postSum, accountsDataMeter := meter
            preAccountIndex := vs.preAccountIndex + 1 }, .ok ())
      | .error e => (vs, .error e)
  else (vs, .error .notEnoughAccountKeys)

/-- `InvokeContext::verify`: the top-level check, of each account against its snapshot, under
the top-level program. -/
def verify (st : InvokeState Key) (instructionAccounts : List InstructionAccount)
    (programIndices : List ℕ) : InvokeState Key × Except InstructionError Unit :=
  match st.getCurrentInstructionContext >>= fun ctx => ctx.getProgramKey env with
  | .error _ => (st, .error .callDepth)
  | .ok programId =>
    if programIndices.all (· < env.numberOfAccounts) then
      let (vs, result) := visitEachAccountOnce instructionAccounts
        (verifyWork env programId st.accounts) ⟨st.preAccounts, st.accountsDataMeter, 0, 0, 0⟩
      let st := { st with accountsDataMeter := vs.accountsDataMeter }
      match result with
      | .error e => (st, .error e)
      | .ok () => if vs.preSum = vs.postSum then (st, .ok ()) else (st, .error .unbalancedInstruction)
    else (st, .error .notEnoughAccountKeys)

/-- The body of the loop over the snapshots in `verify_and_update`, on the one with the
account's key: it is checked, both sums grow, it moves to the account if the account is writable
and not executable, and the meter is adjusted by what is left of the size change. -/
def checkPreAccount (programId : Key) (isWritable : Bool) (account : Account Key)
    (vs : VerifyState Key) (preAccount : PreAccount Key) :
    PreAccount Key × Except InstructionError (ℕ × ℕ × AccountsDataMeter) :=
  let checked := do
    preAccount.verify programId isWritable env.rent env.systemProgramId account
      env.featureSet.doSupportRealloc
    let preSum ← checkedAddSum vs.preSum preAccount.account.lamports
    let postSum ← checkedAddSum vs.postSum account.lamports
    pure (preSum, postSum)
  match checked with
  | .error e => (preAccount, .error e)
  | .ok (preSum, postSum) =>
    let preAccount :=
      if isWritable = true ∧ preAccount.account.executable = false then preAccount.update account
      else preAccount
    (preAccount, (adjustAccountsDataMeter env vs.accountsDataMeter
      (dataLenDelta preAccount account)).map fun meter => (preSum, postSum, meter))

/-- The writability `verify_and_update` checks an account under: before the callee is pushed,
the caller's, read through the account's index in the caller; after it returns, the callee's. -/
def verifyAndUpdateIsWritable (ctx : InstructionContext) (beforeInstructionContextPush : Bool)
    (instructionAccount : InstructionAccount) : Except InstructionError Bool :=
  if beforeInstructionContextPush then
    (ctx.tryBorrowAccount env instructionAccount.indexInCaller).map fun _ =>
      ctx.isWritable instructionAccount.indexInCaller
  else .ok instructionAccount.isWritable

/-- The work of `InvokeContext::verify_and_update` on one account. -/
def verifyAndUpdateWork (accounts : ℕ → Account Key) (ctx : InstructionContext) (programId : Key)
    (beforeInstructionContextPush : Bool) (vs : VerifyState Key)
    (instructionAccount : InstructionAccount) : VerifyState Key × Except InstructionError Unit :=
  if instructionAccount.indexInTransaction < env.numberOfAccounts then
    let key := env.accountKeys instructionAccount.indexInTransaction
    let account := accounts instructionAccount.indexInTransaction
    match verifyAndUpdateIsWritable env ctx beforeInstructionContextPush instructionAccount with
    | .error e => (vs, .error e)
    | .ok isWritable =>
      let (preAccounts, result) := modifyFirst (fun preAccount => decide (key = preAccount.key))
        (checkPreAccount env programId isWritable account vs) .missingAccount vs.preAccounts
      match result with
      | .ok (preSum, postSum, meter) =>
        ({ vs with
            preAccounts := preAccounts, preSum := preSum, postSum := postSum
            accountsDataMeter := meter }, .ok ())
      | .error e => ({ vs with preAccounts := preAccounts }, .error e)
  else (vs, .error .missingAccount)

/-- `InvokeContext::verify_and_update`. The snapshots it moved stay moved when it fails. -/
def verifyAndUpdate (st : InvokeState Key) (instructionAccounts : List InstructionAccount)
    (beforeInstructionContextPush : Bool) : InvokeState Key × Except InstructionError Unit :=
  match st.getCurrentInstructionContext with
  | .error e => (st, .error e)
  | .ok ctx =>
    match ctx.getProgramKey env with
    | .error _ => (st, .error .callDepth)
    | .ok programId =>
      let (vs, result) := visitEachAccountOnce instructionAccounts
        (verifyAndUpdateWork env st.accounts ctx programId beforeInstructionContextPush)
        ⟨st.preAccounts, st.accountsDataMeter, 0, 0, 0⟩
      let st := { st with preAccounts := vs.preAccounts, accountsDataMeter := vs.accountsDataMeter }
      match result with
      | .error e => (st, .error e)
      | .ok () => if vs.preSum = vs.postSum then (st, .ok ()) else (st, .error .unbalancedInstruction)

end Verify

section Push

variable (env : InvokeEnv Key)

/-- The work of the top-level `push` on one account: its snapshot. -/
def snapshotWork (accounts : ℕ → Account Key) (preAccounts : List (PreAccount Key))
    (instructionAccount : InstructionAccount) : List (PreAccount Key) × Except InstructionError Unit :=
  if instructionAccount.indexInTransaction < env.numberOfAccounts then
    (preAccounts ++ [⟨env.accountKeys instructionAccount.indexInTransaction,
      accounts instructionAccount.indexInTransaction⟩], .ok ())
  else (preAccounts, .error .missingAccount)

/-- The program id of an instruction, `program_indices.last()` resolved to its key: `none`
without a program account. -/
def InvokeEnv.programIdOf (programIndices : List ℕ) : Except InstructionError (Option Key) :=
  match programIndices.getLast? with
  | some accountIndex => (env.getKeyOfAccountAtIndex accountIndex).map some
  | none => .ok none

/-- Whether a context's program is the given one, as the reentrancy check of `push` asks it: a
context whose program account cannot be borrowed matches a missing program. -/
def InstructionContext.hasProgram (ctx : InstructionContext) (programId : Option Key) : Bool :=
  match ctx.tryBorrowAccount env (ctx.programAccounts.length - 1) with
  | .ok indexInTransaction => some (env.accountKeys indexInTransaction) = programId
  | .error _ => programId.isNone

/-- The reentrancy check of a nested `push`: a program already on the stack may be entered
again only by itself. -/
def checkReentrancy (instructionStack : List InstructionContext) (programId : Option Key) :
    Except InstructionError Unit :=
  let contains := instructionStack.any fun ctx => ctx.hasProgram env programId
  let isLast := match instructionStack with
    | ctx :: _ => ctx.hasProgram env programId
    | [] => programId.isNone
  if contains = true ∧ isLast = false then .error .reentrancyNotAllowed else .ok ()

/-- The end of `push`: the keyed accounts, which need every account of the instruction, and
`TransactionContext::push`, which needs room on the stack. -/
def pushInstructionContext (st : InvokeState Key) (instructionAccounts : List InstructionAccount)
    (programIndices : List ℕ) : InvokeState Key × Except InstructionError Unit :=
  if programIndices.all (· < env.numberOfAccounts) ∧
      instructionAccounts.all (·.indexInTransaction < env.numberOfAccounts) then
    if st.instructionStack.length ≥ env.instructionContextCapacity then (st, .error .callDepth)
    else
      ({ st with instructionStack := ⟨programIndices, instructionAccounts⟩ :: st.instructionStack },
        .ok ())
  else (st, .error .notEnoughAccountKeys)

/-- `InvokeContext::push`: the top level snapshots its accounts, a nested instruction is checked
for reentrancy. -/
def push (st : InvokeState Key) (instructionAccounts : List InstructionAccount)
    (programIndices : List ℕ) : InvokeState Key × Except InstructionError Unit :=
  if env.featureSet.recordInstructionInTransactionContextPush = false ∧
      st.instructionStack.length > env.maxInvokeDepth then (st, .error .callDepth)
  else
    match env.programIdOf programIndices with
    | .error e => (st, .error e)
    | .ok programId =>
      if programId = none ∧ env.featureSet.rejectEmptyInstructionWithoutProgram = true then
        (st, .error .unsupportedProgramId)
      else
        let entered : InvokeState Key × Except InstructionError Unit :=
          if st.instructionStack = [] then
            let (preAccounts, result) := visitEachAccountOnce instructionAccounts
              (snapshotWork env st.accounts) []
            ({ st with preAccounts := preAccounts }, result)
          else (st, checkReentrancy env st.instructionStack programId)
        andThen entered fun st () => pushInstructionContext env st instructionAccounts programIndices

end Push

section Prepare

variable (env : InvokeEnv Key) (ctx : InstructionContext)

/-- One account of the callee in `prepare_instruction`: found by key in the transaction; a
duplicate takes the union of the privileges, a new one is found in the caller. The first list
holds the deduplicated accounts, the second, for each account of the instruction, its position
there. -/
def deduplicateAccount (acc : List InstructionAccount × List ℕ) (accountMeta : AccountMeta Key) :
    Except InstructionError (List InstructionAccount × List ℕ) :=
  let (deduplicated, duplicateIndices) := acc
  match env.findIndexOfAccount accountMeta.pubkey with
  | none => .error .missingAccount
  | some indexInTransaction =>
    match deduplicated.findIdx? (·.indexInTransaction = indexInTransaction) with
    | some duplicateIndex =>
      .ok (deduplicated.modify duplicateIndex (fun instructionAccount =>
          { instructionAccount with
            isSigner := instructionAccount.isSigner || accountMeta.isSigner
            isWritable := instructionAccount.isWritable || accountMeta.isWritable }),
        duplicateIndices ++ [duplicateIndex])
    | none =>
      match ctx.findIndexOfAccount env accountMeta.pubkey with
      | none => .error .missingAccount
      | some indexInCaller =>
        .ok (deduplicated ++ [⟨indexInTransaction, indexInCaller, accountMeta.isSigner,
            accountMeta.isWritable⟩],
          duplicateIndices ++ [deduplicated.length])

/-- The privilege checks of `prepare_instruction` on one deduplicated account. -/
def checkPrivileges (signers : List Key) (instructionAccount : InstructionAccount) :
    Except InstructionError Unit := do
  let indexInTransaction ← ctx.tryBorrowAccount env instructionAccount.indexInCaller
  -- readonly in the caller cannot become writable in the callee
  failIf (instructionAccount.isWritable = true ∧
    ctx.isWritable instructionAccount.indexInCaller = false) .privilegeEscalation
  -- a signer in the callee is a signer in the caller or signed for by the program
  failIf (instructionAccount.isSigner = true ∧ ¬(ctx.isSigner instructionAccount.indexInCaller = true ∨
    env.accountKeys indexInTransaction ∈ signers)) .privilegeEscalation

/-- The program accounts `prepare_instruction` gives an upgradeable program: its programdata
account. -/
def programdataIndices (programAccount : Account Key) : Except InstructionError (List ℕ) :=
  if programAccount.owner = env.bpfLoaderUpgradeableId then
    env.programdataAddress programAccount.data >>= fun state =>
      match state with
      | some programdataAddress =>
        match env.findIndexOfProgramAccount programdataAddress with
        | some programdataAccountIndex => .ok [programdataAccountIndex]
        | none => .error .missingAccount
      | none => .error .missingAccount
  else .ok []

/-- `InvokeContext::prepare_instruction`: the callee's instruction accounts and program
accounts, from the caller's current instruction. -/
def prepareInstruction (st : InvokeState Key) (instruction : Instruction Key) (signers : List Key) :
    Except InstructionError (List InstructionAccount × List ℕ) := do
  let ctx ← st.getCurrentInstructionContext
  let (deduplicated, duplicateIndices) ←
    instruction.accounts.foldlM (deduplicateAccount env ctx) ([], [])
  deduplicated.forM (checkPrivileges env ctx signers)
  let instructionAccounts ← duplicateIndices.mapM fun duplicateIndex =>
    okOr .notEnoughAccountKeys deduplicated[duplicateIndex]?
  -- the callee's program is an account of the caller's instruction, and executable
  let programAccountIndex ← okOr .missingAccount (ctx.findIndexOfAccount env instruction.programId)
  let programIndex ← ctx.tryBorrowAccount env programAccountIndex
  let programAccount := st.accounts programIndex
  failIf (programAccount.executable = false) .accountNotExecutable
  let programdata ← programdataIndices env programAccount
  pure (instructionAccounts, programdata ++ [programIndex])

end Prepare

section Process

variable (env : InvokeEnv Key)

/-- `InvokeContext::process_instruction`, with `execute` for `process_executable_chain`. The
context is popped whatever happened after `verify_and_update` of the caller, also when the push
itself failed. -/
def processInstruction (instructionAccounts : List InstructionAccount) (programIndices : List ℕ)
    (execute : InvokeState Key → InvokeState Key × Except InstructionError Unit)
    (st : InvokeState Key) : InvokeState Key × Except InstructionError Unit :=
  -- the program id, for the return data only; a bad index still fails the call
  match env.programIdOf programIndices with
  | .error e => (st, .error e)
  | .ok _ =>
    let isTopLevelInstruction := st.instructionStack = []
    let verifiedCaller := if isTopLevelInstruction then (st, .ok ())
      else verifyAndUpdate env st instructionAccounts true
    andThen verifiedCaller fun st () =>
      let (st, result) := andThen (push env st instructionAccounts programIndices) fun st () =>
        andThen (execute st) fun st () =>
          if isTopLevelInstruction then verify env st instructionAccounts programIndices
          else verifyAndUpdate env st instructionAccounts false
      (st.pop, result)

/-- `InvokeContext::native_invoke`: a program's call of another one. Without realloc support an
account may change its size in the callee only from empty. -/
def nativeInvoke (instruction : Instruction Key) (signers : List Key)
    (execute : InvokeState Key → InvokeState Key × Except InstructionError Unit)
    (st : InvokeState Key) : InvokeState Key × Except InstructionError Unit :=
  match prepareInstruction env st instruction signers with
  | .error e => (st, .error e)
  | .ok (instructionAccounts, programIndices) =>
    let prevAccountSizes := instructionAccounts.map fun instructionAccount =>
      (instructionAccount.indexInTransaction,
        (st.accounts instructionAccount.indexInTransaction).data.length)
    andThen (processInstruction env instructionAccounts programIndices execute st) fun st () =>
      if env.featureSet.doSupportRealloc = false ∧ prevAccountSizes.any (fun (index, prevSize) =>
          prevSize ≠ (st.accounts index).data.length ∧ prevSize ≠ 0) then
        (st, .error .invalidRealloc)
      else (st, .ok ())

end Process

/-- A program: it writes an account of its instruction, invokes another program through
`native_invoke` and goes on according to the result, or returns. -/
inductive Program (Key : Type) where
  | ret (result : Except InstructionError Unit)
  | write (index : ℕ) (account : Account Key) (next : Program Key)
  | invoke (instruction : Instruction Key) (signers : List Key) (callee : Program Key)
      (next : Except InstructionError Unit → Program Key)

/-- A program's write of the account at an index of the current instruction. -/
def InvokeState.writeInstructionAccount (st : InvokeState Key) (index : ℕ)
    (account : Account Key) : InvokeState Key :=
  match st.instructionStack with
  | ctx :: _ =>
    match ctx.instructionAccounts[index]? with
    | some instructionAccount =>
      { st with accounts := Function.update st.accounts instructionAccount.indexInTransaction account }
    | none => st
  | [] => st

/-- Running a program; a call runs the callee under `nativeInvoke`. -/
def Program.run (env : InvokeEnv Key) :
    Program Key → InvokeState Key → InvokeState Key × Except InstructionError Unit
  | .ret result, st => (st, result)
  | .write index account next, st => next.run env (st.writeInstructionAccount index account)
  | .invoke instruction signers callee next, st =>
    let (st, result) := nativeInvoke env instruction signers (callee.run env) st
    (next result).run env st

end VelasChain.ProgramRuntime
