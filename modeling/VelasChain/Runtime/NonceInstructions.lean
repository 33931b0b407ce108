import VelasChain.Runtime.NonceState
import VelasChain.Lib.Except

/-!
# The nonce instructions and the execution of a message

The system program's nonce instructions (`nonce_keyed_account.rs` and their dispatch in
`system_instruction_processor.rs`), checked after they ran as `InvokeContext::verify` checks a
top-level instruction, and the execution of a message, instruction after instruction
(`MessageProcessor::process_message`).

Every other instruction, of the system program or of any other program, is an `OtherEffect`:
a function on the transaction's accounts that may fail and that, as the runtime's checks
ensure (only an account's owner changes its data, and an account handed to a new owner has
zeroed data), leaves the durable nonce of a system-owned account as it was or drops it.

What a message does to durable nonces is then one statement, `processMessage_nonceRun`: each
account's nonce moves by `NonceStep`s towards the durable nonce of the blockhash the message
ran under.
-/

namespace VelasChain.Runtime.Nonce

open Except (failIf okOr)
open Relation

/-- `InstructionError`, by the variants the nonce instructions and the checks after them
raise; `other` stands for the errors of the other instructions. -/
inductive InstructionError where
  | invalidArgument
  | missingRequiredSignature
  | insufficientFunds
  | arithmeticOverflow
  | invalidAccountData
  | accountDataTooSmall
  | invalidAccountOwner
  | invalidInstructionData
  | notEnoughAccountKeys
  | custom (code : ℕ)
  | externalAccountLamportSpend
  | readonlyLamportChange
  | externalAccountDataModified
  | readonlyDataModified
  | other
  deriving DecidableEq, Repr

/-- `system_instruction::NonceError`. -/
inductive NonceError where
  | noRecentBlockhashes
  | notExpired
  | unexpectedValue
  | badAccountState
  deriving DecidableEq, Repr

/-- `nonce_to_instruction_error`: the codes of `SystemError`, or of `NonceError`. -/
def nonceToInstructionError (error : NonceError) (useSystemVariant : Bool) : InstructionError :=
  if useSystemVariant then
    match error with
    | .noRecentBlockhashes => .custom 6
    | .notExpired => .custom 7
    | .unexpectedValue => .custom 8
    | .badAccountState => .invalidAccountData
  else
    match error with
    | .noRecentBlockhashes => .custom 0
    | .notExpired => .custom 1
    | .unexpectedValue => .custom 2
    | .badAccountState => .custom 3

/-- `u64::MAX + 1`. -/
def u64Bound : ℕ := 2 ^ 64

/-- `instruction::checked_add`. -/
def checkedAdd (a b : ℕ) : Except InstructionError ℕ :=
  if a + b < u64Bound then .ok (a + b) else .error .insufficientFunds

variable {Key : Type} [DecidableEq Key]

/-- What the nonce instructions read of the invoke context, the features and the sysvars. -/
structure InvokeContext (Key : Type) where
  recentBlockhashesId : Key
  rentId : Key
  blockhash : Hash
  lamportsPerSignature : ℕ
  separateNonceFromBlockhash : Bool
  nonceMustBeWritable : Bool
  mergeNonceErrorIntoSystemError : Bool
  hashDurableNonce : Hash → Hash
  /-- `Rent::minimum_balance`. -/
  minimumBalance : ℕ → ℕ
  recentBlockhashesEmpty : Bool

namespace InvokeContext

variable (ctx : InvokeContext Key)

/-- `get_durable_nonce` of `nonce_keyed_account.rs`: the durable nonce of the blockhash, and
whether the domains are separate. -/
def getDurableNonce : Hash × Bool :=
  (durableNonceFromBlockhash ctx.hashDurableNonce ctx.blockhash ctx.separateNonceFromBlockhash,
    ctx.separateNonceFromBlockhash)

/-- The durable nonce advancing writes, with its domain, as `storedNonce` reads it. -/
def nextNonce : Bool × Hash := (ctx.getDurableNonce.2, ctx.getDurableNonce.1)

/-- The moves of durable nonces the instructions run under the context can make. -/
abbrev Step : Option (Bool × Hash) → Option (Bool × Hash) → Prop :=
  NonceStep ctx.hashDurableNonce ctx.nextNonce

end InvokeContext

/-- `StateMut::state` of the versions. -/
def state (account : Account Key) : Except InstructionError (Versions Key) :=
  okOr .invalidAccountData account.data

/-- `StateMut::set_state`: the versions must fit in the account's data. -/
def setState (account : Account Key) (versions : Versions Key) :
    Except InstructionError (Account Key) :=
  if account.dataLen < stateSize then .error .accountDataTooSmall
  else .ok { account with data := some versions }

section Instructions

variable (ctx : InvokeContext Key)

/-- `advance_nonce_account`. -/
def advanceNonceAccount (signers : List Key) (isWritable : Bool) (account : Account Key) :
    Except InstructionError (Account Key) := do
  failIf (ctx.nonceMustBeWritable = true ∧ isWritable = false) .invalidArgument
  let versions ← state account
  match versions.state with
  | .initialized data =>
    failIf (data.authority ∉ signers) .missingRequiredSignature
    failIf (data.durableNonce = ctx.getDurableNonce.1)
      (nonceToInstructionError .notExpired ctx.mergeNonceErrorIntoSystemError)
    setState account (Versions.new
      (.initialized ⟨data.authority, ctx.getDurableNonce.1, ctx.lamportsPerSignature⟩)
      ctx.getDurableNonce.2)
  | .uninitialized =>
    .error (nonceToInstructionError .badAccountState ctx.mergeNonceErrorIntoSystemError)

/-- The part of `withdraw_nonce_account` that reads the state: an initialized account emptied
becomes uninitialized, one left with lamports keeps its rent-exempt minimum. Returns the key
that must sign and the account. -/
def withdrawState (lamports : ℕ) (key : Key) (account : Account Key) :
    Except InstructionError (Key × Account Key) := do
  let versions ← state account
  match versions.state with
  | .uninitialized =>
    failIf (lamports > account.lamports) .insufficientFunds
    pure (key, account)
  | .initialized data =>
    if lamports = account.lamports then do
      failIf (data.durableNonce = ctx.getDurableNonce.1)
        (nonceToInstructionError .notExpired ctx.mergeNonceErrorIntoSystemError)
      let account ← setState account (Versions.new .uninitialized ctx.getDurableNonce.2)
      pure (data.authority, account)
    else do
      let amount ← checkedAdd lamports (ctx.minimumBalance account.dataLen)
      failIf (amount > account.lamports) .insufficientFunds
      pure (data.authority, account)

/-- `withdraw_nonce_account`, from the account at `me` to the one at `toIndex` of the
transaction; the two may be one account. -/
def withdrawNonceAccount (lamports : ℕ) (signers : List Key) (key : Key) (isWritable : Bool)
    (me toIndex : ℕ) (accounts : List (Account Key)) : Except InstructionError (List (Account Key)) := do
  failIf (ctx.nonceMustBeWritable = true ∧ isWritable = false) .invalidArgument
  let account ← okOr .notEnoughAccountKeys accounts[me]?
  let (signer, account) ← withdrawState ctx lamports key account
  failIf (signer ∉ signers) .missingRequiredSignature
  failIf (account.lamports < lamports) .arithmeticOverflow
  let accounts := accounts.set me { account with lamports := account.lamports - lamports }
  let toAccount ← okOr .notEnoughAccountKeys accounts[toIndex]?
  failIf (toAccount.lamports + lamports ≥ u64Bound) .arithmeticOverflow
  pure (accounts.set toIndex { toAccount with lamports := toAccount.lamports + lamports })

/-- `initialize_nonce_account`. -/
def initializeNonceAccount (nonceAuthority : Key) (isWritable : Bool) (account : Account Key) :
    Except InstructionError (Account Key) := do
  failIf (ctx.nonceMustBeWritable = true ∧ isWritable = false) .invalidArgument
  let versions ← state account
  match versions.state with
  | .uninitialized =>
    failIf (account.lamports < ctx.minimumBalance account.dataLen) .insufficientFunds
    setState account (Versions.new
      (.initialized ⟨nonceAuthority, ctx.getDurableNonce.1, ctx.lamportsPerSignature⟩)
      ctx.getDurableNonce.2)
  | .initialized _ =>
    .error (nonceToInstructionError .badAccountState ctx.mergeNonceErrorIntoSystemError)

/-- `authorize_nonce_account`: a new authority, in the same domain. -/
def authorizeNonceAccount (nonceAuthority : Key) (signers : List Key) (isWritable : Bool)
    (account : Account Key) : Except InstructionError (Account Key) := do
  failIf (ctx.nonceMustBeWritable = true ∧ isWritable = false) .invalidArgument
  let versions ← state account
  match versions.state with
  | .initialized data =>
    failIf (data.authority ∉ signers) .missingRequiredSignature
    setState account (Versions.new
      (.initialized ⟨nonceAuthority, data.durableNonce, data.lamportsPerSignature⟩)
      versions.separateDomains)
  | .uninitialized =>
    .error (nonceToInstructionError .badAccountState ctx.mergeNonceErrorIntoSystemError)

/-- `SystemInstruction::UpgradeNonceAccount`. -/
def upgradeNonceAccount (systemProgramId : Key) (isWritable : Bool) (account : Account Key) :
    Except InstructionError (Account Key) := do
  failIf (ctx.separateNonceFromBlockhash = false) .invalidInstructionData
  failIf (account.owner ≠ systemProgramId) .invalidAccountOwner
  failIf (isWritable = false) .invalidArgument
  let versions ← state account
  let upgraded ← okOr .invalidArgument (versions.upgrade ctx.hashDurableNonce)
  setState account upgraded

end Instructions

/-- The nonce instructions of `SystemInstruction`. -/
inductive NonceInstruction (Key : Type) where
  | advanceNonceAccount
  | withdrawNonceAccount (lamports : ℕ)
  | initializeNonceAccount (authority : Key)
  | authorizeNonceAccount (authority : Key)
  | upgradeNonceAccount
  deriving DecidableEq, Repr

/-- What an instruction other than a nonce instruction of the system program does to the
accounts of its transaction: it may fail, and otherwise it keeps the number of accounts and
leaves the durable nonce of every system-owned account as it was or drops it. -/
structure OtherEffect (Key : Type) [DecidableEq Key] (systemProgramId : Key) where
  run : List (Account Key) → Except InstructionError (List (Account Key))
  keeps_nonces : ∀ accounts accounts', run accounts = .ok accounts' →
    accounts'.length = accounts.length ∧ ∀ i, nonceAt systemProgramId accounts' i =
      nonceAt systemProgramId accounts i ∨ nonceAt systemProgramId accounts' i = none

/-- `CompiledInstruction`: the program and the accounts by their index in the message, and the
data, read as a nonce instruction where it is one and as the effect of the instruction
otherwise. -/
structure CompiledInstruction (Key : Type) [DecidableEq Key] (systemProgramId : Key) where
  programIdIndex : ℕ
  accounts : List ℕ
  nonceInstruction : Option (NonceInstruction Key)
  effect : OtherEffect Key systemProgramId

/-- `SanitizedMessage`, by what the runtime reads of it. -/
structure SanitizedMessage (Key : Type) [DecidableEq Key] (systemProgramId : Key) where
  accountKeys : List Key
  /-- A sanitized message names each account once. -/
  nodup : accountKeys.Nodup
  isSigner : ℕ → Bool
  isWritable : ℕ → Bool
  recentBlockhash : Hash
  instructions : List (CompiledInstruction Key systemProgramId)

namespace SanitizedMessage

variable {systemProgramId : Key} (message : SanitizedMessage Key systemProgramId)

/-- `is_invoked`: the account is the program of an instruction. -/
def isInvoked (i : ℕ) : Bool := message.instructions.any fun ix => ix.programIdIndex = i

/-- `is_key_passed_to_program`. -/
def isKeyPassedToProgram (i : ℕ) : Bool := message.instructions.any fun ix => i ∈ ix.accounts

/-- `is_non_loader_key`. -/
def isNonLoaderKey (i : ℕ) : Bool := !message.isInvoked i || message.isKeyPassedToProgram i

/-- `get_ix_signers`: the signing accounts of an instruction. -/
def getIxSigners (index : ℕ) : List Key :=
  match message.instructions[index]? with
  | some ix => (ix.accounts.filter message.isSigner).filterMap fun i => message.accountKeys[i]?
  | none => []

/-- `get_durable_nonce`: the account the first instruction advances, if it is the system
program's `AdvanceNonceAccount`. -/
def getDurableNonce (nonceMustBeWritable : Bool) : Option Key := do
  let ix ← message.instructions[0]?
  if message.accountKeys[ix.programIdIndex]? = some systemProgramId ∧
      ix.nonceInstruction = some .advanceNonceAccount then
    let index ← ix.accounts[0]?
    if nonceMustBeWritable = true ∧ message.isWritable index = false then none
    else message.accountKeys[index]?
  else none

end SanitizedMessage

section Process

variable {systemProgramId : Key} (ctx : InvokeContext Key)
  (message : SanitizedMessage Key systemProgramId)

/-- The signers of an instruction, `InstructionContext::get_signers`. -/
def signersOf (instructionAccounts : List ℕ) : List Key :=
  (instructionAccounts.filter message.isSigner).filterMap fun i => message.accountKeys[i]?

/-- `keyed_account_at_index`, to the account's index in the transaction. -/
def keyedAccountAt (instructionAccounts : List ℕ) (index : ℕ) : Except InstructionError ℕ :=
  okOr .notEnoughAccountKeys instructionAccounts[index]?

/-- `check_sysvar_keyed_account`: the account passed must be the sysvar. -/
def checkSysvar (index : ℕ) (sysvarId : Key) : Except InstructionError Unit :=
  failIf (message.accountKeys[index]? ≠ some sysvarId) .invalidArgument

/-- Rewriting the account at a transaction index with what an instruction made of it. -/
def updateAccount (index : ℕ) (f : Account Key → Except InstructionError (Account Key))
    (accounts : List (Account Key)) : Except InstructionError (List (Account Key)) := do
  let account ← okOr .notEnoughAccountKeys accounts[index]?
  let account ← f account
  pure (accounts.set index account)

/-- The nonce instructions of `system_instruction_processor::process_instruction`. -/
def processNonceInstruction (instructionAccounts : List ℕ) (instruction : NonceInstruction Key)
    (accounts : List (Account Key)) : Except InstructionError (List (Account Key)) :=
  let signers := signersOf message instructionAccounts
  match instruction with
  | .advanceNonceAccount => do
    let me ← keyedAccountAt instructionAccounts 0
    let sysvar ← keyedAccountAt instructionAccounts 1
    checkSysvar message sysvar ctx.recentBlockhashesId
    failIf (ctx.recentBlockhashesEmpty = true) (.custom 0)
    updateAccount me (advanceNonceAccount ctx signers (message.isWritable me)) accounts
  | .withdrawNonceAccount lamports => do
    let me ← keyedAccountAt instructionAccounts 0
    let toIndex ← keyedAccountAt instructionAccounts 1
    let recentBlockhashes ← keyedAccountAt instructionAccounts 2
    checkSysvar message recentBlockhashes ctx.recentBlockhashesId
    let rent ← keyedAccountAt instructionAccounts 3
    checkSysvar message rent ctx.rentId
    let key ← okOr .notEnoughAccountKeys message.accountKeys[me]?
    withdrawNonceAccount ctx lamports signers key (message.isWritable me) me toIndex accounts
  | .initializeNonceAccount authority => do
    let me ← keyedAccountAt instructionAccounts 0
    let recentBlockhashes ← keyedAccountAt instructionAccounts 1
    checkSysvar message recentBlockhashes ctx.recentBlockhashesId
    failIf (ctx.recentBlockhashesEmpty = true) (.custom 0)
    let rent ← keyedAccountAt instructionAccounts 2
    checkSysvar message rent ctx.rentId
    updateAccount me (initializeNonceAccount ctx authority (message.isWritable me)) accounts
  | .authorizeNonceAccount authority => do
    let me ← keyedAccountAt instructionAccounts 0
    updateAccount me (authorizeNonceAccount ctx authority signers (message.isWritable me)) accounts
  | .upgradeNonceAccount => do
    let me ← keyedAccountAt instructionAccounts 0
    updateAccount me (upgradeNonceAccount ctx systemProgramId (message.isWritable me)) accounts

/-- The part of `PreAccount::verify` a nonce instruction can fail: the system program debits
and rewrites only accounts it owns, and changes only writable accounts. -/
def verifySystemWrite (systemProgramId : Key) (isWritable : Bool) (pre post : Account Key) :
    Except InstructionError Unit := do
  failIf (systemProgramId ≠ pre.owner ∧ post.lamports < pre.lamports)
    .externalAccountLamportSpend
  failIf (pre.lamports ≠ post.lamports ∧ isWritable = false) .readonlyLamportChange
  failIf (¬(systemProgramId = pre.owner ∧ isWritable = true) ∧ pre.data ≠ post.data)
    (if isWritable then .externalAccountDataModified else .readonlyDataModified)

/-- `InvokeContext::verify` after a nonce instruction, over the transaction's accounts. -/
def verifySystemWrites (pre post : List (Account Key)) : Except InstructionError Unit :=
  (pre.zip post).zipIdx.forM fun ((account, account'), i) =>
    verifySystemWrite systemProgramId (message.isWritable i) account account'

/-- One instruction of a message: a nonce instruction of the system program, checked after it
ran, or the instruction's effect. -/
def processInstruction (instruction : CompiledInstruction Key systemProgramId)
    (accounts : List (Account Key)) : Except InstructionError (List (Account Key)) :=
  match instruction.nonceInstruction with
  | some nonceInstruction =>
    if message.accountKeys[instruction.programIdIndex]? = some systemProgramId then do
      let accounts' ← processNonceInstruction ctx message instruction.accounts nonceInstruction
        accounts
      verifySystemWrites message accounts accounts'
      pure accounts'
    else instruction.effect.run accounts
  | none => instruction.effect.run accounts

/-- The instructions of a message from the one at `index` on; an error names its
instruction. -/
def processInstructions : ℕ → List (CompiledInstruction Key systemProgramId) →
    List (Account Key) → Except (ℕ × InstructionError) (List (Account Key))
  | _, [], accounts => .ok accounts
  | index, instruction :: rest, accounts =>
    match processInstruction ctx message instruction accounts with
    | .error e => .error (index, e)
    | .ok accounts => processInstructions (index + 1) rest accounts

/-- `MessageProcessor::process_message`. -/
def processMessage (accounts : List (Account Key)) :
    Except (ℕ × InstructionError) (List (Account Key)) :=
  processInstructions ctx message 0 message.instructions accounts

end Process

/-! ### What the instructions do to durable nonces -/

section Nonces

variable {systemProgramId : Key} {ctx : InvokeContext Key}

@[simp] lemma storedNonce_with_lamports (account : Account Key) (lamports : ℕ) :
    ({ account with lamports } : Account Key).storedNonce systemProgramId =
      account.storedNonce systemProgramId := rfl

lemma storedNonce_of_state {account : Account Key} {versions : Versions Key}
    (h : state account = .ok versions) :
    account.storedNonce systemProgramId =
      if account.owner = systemProgramId then versions.durableNonce else none := by
  unfold state at h
  rw [Except.okOr_eq_ok] at h
  simp [Account.storedNonce, h]

lemma storedNonce_setState {account account' : Account Key} {versions : Versions Key}
    (h : setState account versions = .ok account') :
    account'.storedNonce systemProgramId =
      if account.owner = systemProgramId then versions.durableNonce else none := by
  unfold setState at h
  split_ifs at h
  cases h
  simp [Account.storedNonce]

/-- A write of versions that hold the next durable nonce, or none, is a step. -/
lemma step_of_setState {account account' : Account Key} {versions : Versions Key}
    (h : setState account versions = .ok account')
    (hv : versions.durableNonce = none ∨ versions.durableNonce = some ctx.nextNonce) :
    ReflTransGen ctx.Step (account.storedNonce systemProgramId)
      (account'.storedNonce systemProgramId) := by
  rw [storedNonce_setState h]
  split_ifs
  · rcases hv with hv | hv <;> rw [hv]
    · exact .single (.drop _)
    · exact .single (.advance _)
  · exact .single (.drop _)

/-- Advancing writes the durable nonce of the blockhash. -/
lemma storedNonce_advanceNonceAccount {signers : List Key} {isWritable : Bool}
    {account account' : Account Key}
    (h : advanceNonceAccount ctx signers isWritable account = .ok account') :
    account'.storedNonce systemProgramId =
      if account.owner = systemProgramId then some ctx.nextNonce else none := by
  unfold advanceNonceAccount at h
  simp only [Except.failIf_bind_eq_ok] at h
  obtain ⟨versions, -, h⟩ := Except.bind_eq_ok_iff.mp h.2
  split at h
  · simp only [Except.failIf_bind_eq_ok] at h
    rw [storedNonce_setState h.2.2]
    simp [InvokeContext.nextNonce]
  · cases h

lemma step_advanceNonceAccount {signers : List Key} {isWritable : Bool}
    {account account' : Account Key}
    (h : advanceNonceAccount ctx signers isWritable account = .ok account') :
    ReflTransGen ctx.Step (account.storedNonce systemProgramId)
      (account'.storedNonce systemProgramId) := by
  rw [storedNonce_advanceNonceAccount h]
  split_ifs
  · exact .single (.advance _)
  · exact .single (.drop _)

lemma step_initializeNonceAccount {authority : Key} {isWritable : Bool}
    {account account' : Account Key}
    (h : initializeNonceAccount ctx authority isWritable account = .ok account') :
    ReflTransGen ctx.Step (account.storedNonce systemProgramId)
      (account'.storedNonce systemProgramId) := by
  unfold initializeNonceAccount at h
  simp only [Except.failIf_bind_eq_ok] at h
  obtain ⟨versions, -, h⟩ := Except.bind_eq_ok_iff.mp h.2
  split at h
  · simp only [Except.failIf_bind_eq_ok] at h
    exact step_of_setState h.2 (.inr (by simp [InvokeContext.nextNonce]))
  · cases h

/-- A new authority keeps the durable nonce. -/
lemma storedNonce_authorizeNonceAccount {authority : Key} {signers : List Key}
    {isWritable : Bool} {account account' : Account Key}
    (h : authorizeNonceAccount ctx authority signers isWritable account = .ok account') :
    account'.storedNonce systemProgramId = account.storedNonce systemProgramId := by
  unfold authorizeNonceAccount at h
  simp only [Except.failIf_bind_eq_ok] at h
  obtain ⟨versions, hstate, h⟩ := Except.bind_eq_ok_iff.mp h.2
  split at h
  · rename_i data hdata
    simp only [Except.failIf_bind_eq_ok] at h
    rw [storedNonce_setState h.2, storedNonce_of_state hstate,
      Versions.durableNonce_of_state hdata]
    simp
  · cases h

lemma step_upgradeNonceAccount {isWritable : Bool} {account account' : Account Key}
    (h : upgradeNonceAccount ctx systemProgramId isWritable account = .ok account') :
    ReflTransGen ctx.Step (account.storedNonce systemProgramId)
      (account'.storedNonce systemProgramId) := by
  unfold upgradeNonceAccount at h
  simp only [Except.failIf_bind_eq_ok, not_not] at h
  obtain ⟨-, howner, -, h⟩ := h
  obtain ⟨versions, hstate, h⟩ := Except.bind_eq_ok_iff.mp h
  obtain ⟨upgraded, hupgrade, h⟩ := Except.bind_eq_ok_iff.mp h
  obtain ⟨d, hold, hnew⟩ := Versions.durableNonce_upgrade (Except.okOr_eq_ok.mp hupgrade)
  rw [storedNonce_setState h, storedNonce_of_state hstate, if_pos howner, if_pos howner, hold,
    hnew]
  exact .single (.upgrade d)

lemma step_withdrawState {lamports : ℕ} {key signer : Key} {account account' : Account Key}
    (h : withdrawState ctx lamports key account = .ok (signer, account')) :
    ReflTransGen ctx.Step (account.storedNonce systemProgramId)
      (account'.storedNonce systemProgramId) := by
  unfold withdrawState at h
  obtain ⟨versions, -, h⟩ := Except.bind_eq_ok_iff.mp h
  split at h
  · simp only [Except.failIf_bind_eq_ok, pure, Except.pure, Except.ok.injEq,
      Prod.mk.injEq] at h
    rw [h.2.2]
  · split_ifs at h
    · simp only [Except.failIf_bind_eq_ok] at h
      obtain ⟨cleared, hset, hpure⟩ := Except.bind_eq_ok_iff.mp h.2
      simp only [pure, Except.pure, Except.ok.injEq, Prod.mk.injEq] at hpure
      rw [← hpure.2]
      exact step_of_setState hset (.inl (by simp))
    · obtain ⟨amount, -, h⟩ := Except.bind_eq_ok_iff.mp h
      simp only [Except.failIf_bind_eq_ok, pure, Except.pure, Except.ok.injEq,
        Prod.mk.injEq] at h
      rw [h.2.2]

lemma nonceRun_withdrawNonceAccount {lamports : ℕ} {signers : List Key} {key : Key}
    {isWritable : Bool} {me toIndex : ℕ} {accounts accounts' : List (Account Key)}
    (h : withdrawNonceAccount ctx lamports signers key isWritable me toIndex accounts =
      .ok accounts') :
    NonceRun systemProgramId ctx.Step accounts accounts' := by
  unfold withdrawNonceAccount at h
  simp only [Except.failIf_bind_eq_ok] at h
  obtain ⟨account, hme, h⟩ := Except.bind_eq_ok_iff.mp h.2
  obtain ⟨⟨signer, withdrawn⟩, hstate, h⟩ := Except.bind_eq_ok_iff.mp h
  simp only [Except.failIf_bind_eq_ok] at h
  obtain ⟨toAccount, hto, h⟩ := Except.bind_eq_ok_iff.mp h.2.2
  simp only [Except.failIf_bind_eq_ok, pure, Except.pure, Except.ok.injEq] at h
  rw [← h.2]
  -- the debit changes the nonce account's state, the credit only lamports
  have hdebit : NonceRun systemProgramId ctx.Step accounts
      (accounts.set me { withdrawn with lamports := withdrawn.lamports - lamports }) := by
    refine NonceRun.set ?_
    rw [storedNonce_with_lamports, nonceAt, Except.okOr_eq_ok.mp hme]
    exact step_withdrawState hstate
  refine hdebit.trans (NonceRun.set ?_)
  rw [storedNonce_with_lamports, nonceAt, Except.okOr_eq_ok.mp hto]
  exact .refl

lemma nonceRun_updateAccount {index : ℕ} {f : Account Key → Except InstructionError (Account Key)}
    {accounts accounts' : List (Account Key)}
    (hf : ∀ account account', f account = .ok account' →
      ReflTransGen ctx.Step (account.storedNonce systemProgramId)
        (account'.storedNonce systemProgramId))
    (h : updateAccount index f accounts = .ok accounts') :
    NonceRun systemProgramId ctx.Step accounts accounts' := by
  unfold updateAccount at h
  obtain ⟨account, haccount, h⟩ := Except.bind_eq_ok_iff.mp h
  obtain ⟨account', hf', h⟩ := Except.bind_eq_ok_iff.mp h
  simp only [pure, Except.pure, Except.ok.injEq] at h
  rw [← h]
  refine NonceRun.set ?_
  rw [nonceAt, Except.okOr_eq_ok.mp haccount]
  exact hf account account' hf'

variable {message : SanitizedMessage Key systemProgramId}

/-- A nonce instruction moves durable nonces only by steps. -/
lemma nonceRun_processNonceInstruction {instructionAccounts : List ℕ}
    {instruction : NonceInstruction Key} {accounts accounts' : List (Account Key)}
    (h : processNonceInstruction ctx message instructionAccounts instruction accounts =
      .ok accounts') :
    NonceRun systemProgramId ctx.Step accounts accounts' := by
  unfold processNonceInstruction at h
  cases instruction with
  | advanceNonceAccount =>
    obtain ⟨me, -, h⟩ := Except.bind_eq_ok_iff.mp h
    obtain ⟨sysvar, -, h⟩ := Except.bind_eq_ok_iff.mp h
    obtain ⟨⟨⟩, -, h⟩ := Except.bind_eq_ok_iff.mp h
    simp only [Except.failIf_bind_eq_ok] at h
    exact nonceRun_updateAccount (fun _ _ => step_advanceNonceAccount) h.2
  | withdrawNonceAccount lamports =>
    obtain ⟨me, -, h⟩ := Except.bind_eq_ok_iff.mp h
    obtain ⟨toIndex, -, h⟩ := Except.bind_eq_ok_iff.mp h
    obtain ⟨recentBlockhashes, -, h⟩ := Except.bind_eq_ok_iff.mp h
    obtain ⟨⟨⟩, -, h⟩ := Except.bind_eq_ok_iff.mp h
    obtain ⟨rent, -, h⟩ := Except.bind_eq_ok_iff.mp h
    obtain ⟨⟨⟩, -, h⟩ := Except.bind_eq_ok_iff.mp h
    obtain ⟨key, -, h⟩ := Except.bind_eq_ok_iff.mp h
    exact nonceRun_withdrawNonceAccount h
  | initializeNonceAccount authority =>
    obtain ⟨me, -, h⟩ := Except.bind_eq_ok_iff.mp h
    obtain ⟨recentBlockhashes, -, h⟩ := Except.bind_eq_ok_iff.mp h
    obtain ⟨⟨⟩, -, h⟩ := Except.bind_eq_ok_iff.mp h
    simp only [Except.failIf_bind_eq_ok] at h
    obtain ⟨rent, -, h⟩ := Except.bind_eq_ok_iff.mp h.2
    obtain ⟨⟨⟩, -, h⟩ := Except.bind_eq_ok_iff.mp h
    exact nonceRun_updateAccount (fun _ _ => step_initializeNonceAccount) h
  | authorizeNonceAccount authority =>
    obtain ⟨me, -, h⟩ := Except.bind_eq_ok_iff.mp h
    refine nonceRun_updateAccount (fun _ _ hf => ?_) h
    rw [storedNonce_authorizeNonceAccount hf]
  | upgradeNonceAccount =>
    obtain ⟨me, -, h⟩ := Except.bind_eq_ok_iff.mp h
    exact nonceRun_updateAccount (fun _ _ => step_upgradeNonceAccount) h

/-- Any other instruction keeps or drops durable nonces. -/
lemma OtherEffect.nonceRun (effect : OtherEffect Key systemProgramId)
    {accounts accounts' : List (Account Key)} (h : effect.run accounts = .ok accounts') :
    NonceRun systemProgramId ctx.Step accounts accounts' := by
  obtain ⟨hlen, hnonces⟩ := effect.keeps_nonces _ _ h
  refine ⟨hlen, fun i => ?_⟩
  rcases hnonces i with heq | hnone
  · rw [heq]
  · rw [hnone]
    exact .single (.drop _)

lemma nonceRun_processInstruction {instruction : CompiledInstruction Key systemProgramId}
    {accounts accounts' : List (Account Key)}
    (h : processInstruction ctx message instruction accounts = .ok accounts') :
    NonceRun systemProgramId ctx.Step accounts accounts' := by
  unfold processInstruction at h
  split at h
  · split_ifs at h
    · obtain ⟨processed, hprocess, h⟩ := Except.bind_eq_ok_iff.mp h
      obtain ⟨⟨⟩, -, h⟩ := Except.bind_eq_ok_iff.mp h
      simp only [pure, Except.pure, Except.ok.injEq] at h
      rw [← h]
      exact nonceRun_processNonceInstruction hprocess
    · exact instruction.effect.nonceRun h
  · exact instruction.effect.nonceRun h

lemma nonceRun_processInstructions :
    ∀ {index : ℕ} {instructions : List (CompiledInstruction Key systemProgramId)}
      {accounts accounts' : List (Account Key)},
      processInstructions ctx message index instructions accounts = .ok accounts' →
      NonceRun systemProgramId ctx.Step accounts accounts'
  | _, [], accounts, accounts', h => by
    simp only [processInstructions, Except.ok.injEq] at h
    rw [h]
    exact NonceRun.refl _
  | index, instruction :: rest, accounts, accounts', h => by
    simp only [processInstructions] at h
    split at h
    · cases h
    · rename_i processed hprocess
      exact (nonceRun_processInstruction hprocess).trans (nonceRun_processInstructions h)

/-- A message that ran moved every account's durable nonce by steps towards the durable nonce
of the blockhash it ran under. -/
theorem processMessage_nonceRun {accounts accounts' : List (Account Key)}
    (h : processMessage ctx message accounts = .ok accounts') :
    NonceRun systemProgramId ctx.Step accounts accounts' :=
  nonceRun_processInstructions h

/-- An `AdvanceNonceAccount` of the system program writes the durable nonce of the blockhash
into the system-owned account it names. -/
lemma nonceAt_processInstruction_advance {instruction : CompiledInstruction Key systemProgramId}
    {accounts accounts' : List (Account Key)} {index : ℕ} {account : Account Key}
    (hadvance : instruction.nonceInstruction = some .advanceNonceAccount)
    (hprogram : message.accountKeys[instruction.programIdIndex]? = some systemProgramId)
    (hindex : instruction.accounts[0]? = some index) (haccount : accounts[index]? = some account)
    (howner : account.owner = systemProgramId)
    (h : processInstruction ctx message instruction accounts = .ok accounts') :
    nonceAt systemProgramId accounts' index = some ctx.nextNonce := by
  unfold processInstruction at h
  rw [hadvance] at h
  dsimp only at h
  rw [if_pos hprogram] at h
  obtain ⟨processed, hprocess, h⟩ := Except.bind_eq_ok_iff.mp h
  obtain ⟨⟨⟩, -, h⟩ := Except.bind_eq_ok_iff.mp h
  simp only [pure, Except.pure, Except.ok.injEq] at h
  rw [← h]
  unfold processNonceInstruction at hprocess
  obtain ⟨me, hme, hprocess⟩ := Except.bind_eq_ok_iff.mp hprocess
  rw [keyedAccountAt, Except.okOr_eq_ok, hindex, Option.some.injEq] at hme
  subst hme
  obtain ⟨sysvar, -, hprocess⟩ := Except.bind_eq_ok_iff.mp hprocess
  obtain ⟨⟨⟩, -, hprocess⟩ := Except.bind_eq_ok_iff.mp hprocess
  simp only [Except.failIf_bind_eq_ok] at hprocess
  unfold updateAccount at hprocess
  obtain ⟨account₀, haccount₀, hprocess⟩ := Except.bind_eq_ok_iff.mp hprocess.2
  rw [Except.okOr_eq_ok, haccount, Option.some.injEq] at haccount₀
  subst haccount₀
  obtain ⟨advanced, hadvanced, hprocess⟩ := Except.bind_eq_ok_iff.mp hprocess
  simp only [pure, Except.pure, Except.ok.injEq] at hprocess
  rw [← hprocess, nonceAt_set, if_pos ⟨rfl, (List.getElem?_eq_some_iff.mp haccount).1⟩,
    storedNonce_advanceNonceAccount hadvanced, if_pos howner]

end Nonces

end VelasChain.Runtime.Nonce
