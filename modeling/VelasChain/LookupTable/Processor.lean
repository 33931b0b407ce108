import VelasChain.LookupTable.State

/-!
# The address lookup table program

The instructions of the address lookup table program (`programs/address-lookup-table/src/
processor.rs`) over the accounts an instruction sees, with the calls to the system program that
`create_lookup_table` and `extend_lookup_table` make (`system_instruction_processor.rs`). An
account's data is what `AddressLookupTable::deserialize` reads from it: nothing, the serialized
`ProgramState::Uninitialized`, a lookup table, or bytes that are neither.

Each instruction is followed by what it can do to the accounts (`process_cases`): it changes the
owner and data of its first account only, and the lamports of the others; a table is created
empty at an address derived from a slot of the slot hashes, extended by appending, frozen or
deactivated in place, and closed, once fully deactivated, into an empty account of no lamports.
-/

namespace VelasChain.LookupTable

open Except (okOr failIf bind_eq_ok_iff failIf_bind_eq_ok)

/-- `LOOKUP_TABLE_META_SIZE`. -/
def lookupTableMetaSize : ℕ := 56

/-- `u64::MAX + 1`: lamports at or past it overflow. -/
def u64Bound : ℕ := 2 ^ 64

/-- `SystemError::AccountAlreadyInUse as u32`. -/
def accountAlreadyInUse : ℕ := 0

/-- `SystemError::ResultWithNegativeLamports as u32`. -/
def resultWithNegativeLamports : ℕ := 1

/-- `InstructionError`, by the variants this program and the system calls it makes raise; a
system error is `custom` with its code. -/
inductive InstructionError where
  | notEnoughAccountKeys
  | accountAlreadyInitialized
  | missingRequiredSignature
  | invalidInstructionData
  | invalidArgument
  | invalidAccountOwner
  | invalidAccountData
  | uninitializedAccount
  | immutable
  | incorrectAuthority
  | invalidSeeds
  | arithmeticOverflow
  | custom (code : ℕ)
  deriving DecidableEq, Repr

/-- The data of an account, as `AddressLookupTable::deserialize` reads it. -/
inductive TableData (Key : Type) where
  | empty
  | uninitialized
  | lookupTable (table : AddressLookupTable Key)
  | other
  deriving DecidableEq, Repr

/-- An account: its lamports, its owner and its data. -/
structure Account (Key : Type) where
  lamports : ℕ
  owner : Key
  data : TableData Key
  deriving DecidableEq, Repr

/-- `ProgramInstruction`. -/
inductive ProgramInstruction (Key : Type) where
  | createLookupTable (recentSlot : Slot) (bumpSeed : ℕ)
  | freezeLookupTable
  | extendLookupTable (newAddresses : List Key)
  | deactivateLookupTable
  | closeLookupTable
  deriving DecidableEq, Repr

/-- An account of an instruction: its key, and whether it signed. -/
structure InstructionAccount (Key : Type) where
  key : Key
  isSigner : Bool
  deriving DecidableEq, Repr

/-- What an instruction reads besides its accounts: the two programs, `Rent::minimum_balance`,
and `Pubkey::create_program_address` for the seeds of a table (an authority, a slot and a bump
seed) under this program, `none` where the seeds give a point on the curve. -/
structure Env (Key : Type) where
  programId : Key
  systemProgramId : Key
  minimumBalance : ℕ → ℕ
  createProgramAddress : Key → Slot → ℕ → Option Key

/-- The accounts an instruction sees, by key. -/
abbrev Accounts (Key : Type) := Key → Account Key

variable {Key H : Type} [DecidableEq Key]

namespace TableData

/-- `AddressLookupTable::deserialize`. -/
def deserialize : TableData Key → Except InstructionError (AddressLookupTable Key)
  | .lookupTable table => .ok table
  | .uninitialized => .error .uninitializedAccount
  | .empty => .error .invalidAccountData
  | .other => .error .invalidAccountData

omit [DecidableEq Key] in
@[simp] lemma deserialize_eq_ok {data : TableData Key} {table : AddressLookupTable Key} :
    data.deserialize = .ok table ↔ data = .lookupTable table := by
  cases data <;> simp [deserialize]

end TableData

/-- `InstructionAccount::signer_key`. -/
def InstructionAccount.signerKey (account : InstructionAccount Key) : Option Key :=
  if account.isSigner then some account.key else none

/-- `keyed_account_at_index`. -/
def keyedAccountAt (instructionAccounts : List (InstructionAccount Key)) (index : ℕ) :
    Except InstructionError (InstructionAccount Key) :=
  okOr .notEnoughAccountKeys instructionAccounts[index]?

namespace Accounts

/-- Write one account. -/
def set (accounts : Accounts Key) (key : Key) (account : Account Key) : Accounts Key :=
  Function.update accounts key account

@[simp] lemma set_self (accounts : Accounts Key) (key : Key) (account : Account Key) :
    accounts.set key account key = account := Function.update_self ..

@[simp] lemma set_of_ne (accounts : Accounts Key) {key key' : Key} (account : Account Key)
    (h : key' ≠ key) : accounts.set key account key' = accounts key' :=
  Function.update_of_ne h ..

/-- `checked_add_lamports`. -/
def addLamports (accounts : Accounts Key) (key : Key) (lamports : ℕ) :
    Except InstructionError (Accounts Key) := do
  failIf ((accounts key).lamports + lamports ≥ u64Bound) .arithmeticOverflow
  pure (accounts.set key { accounts key with lamports := (accounts key).lamports + lamports })

/-- The system program's `transfer` of lamports from a signer without data. -/
def transfer (accounts : Accounts Key) (fromKey toKey : Key) (lamports : ℕ) :
    Except InstructionError (Accounts Key) := do
  failIf ((accounts fromKey).data ≠ .empty) .invalidArgument
  failIf (lamports > (accounts fromKey).lamports) (.custom resultWithNegativeLamports)
  let accounts := accounts.set fromKey
    { accounts fromKey with lamports := (accounts fromKey).lamports - lamports }
  accounts.addLamports toKey lamports

/-- The system program's `allocate` of zeroed data, which reads as an uninitialized state. -/
def allocate (env : Env Key) (accounts : Accounts Key) (key : Key) :
    Except InstructionError (Accounts Key) := do
  failIf ((accounts key).data ≠ .empty ∨ (accounts key).owner ≠ env.systemProgramId)
    (.custom accountAlreadyInUse)
  pure (accounts.set key { accounts key with data := .uninitialized })

/-- The system program's `assign`. -/
def assign (accounts : Accounts Key) (key owner : Key) : Accounts Key :=
  accounts.set key { accounts key with owner }

/-- `AddressLookupTable::overwrite_meta_data` and the addresses written after it. -/
def setTable (accounts : Accounts Key) (key : Key) (table : AddressLookupTable Key) :
    Accounts Key :=
  accounts.set key { accounts key with data := .lookupTable table }

end Accounts

/-! ### The instructions -/

section Instructions

variable (env : Env Key) (clockSlot : Slot) (slotHashes : List (Slot × H))
  (instructionAccounts : List (InstructionAccount Key)) (accounts : Accounts Key)

/-- `SlotHashes::get`, as far as the program reads it: whether the slot has a hash. -/
def slotHashesContains (slot : Slot) : Bool := (SlotHashes.position slotHashes slot).isSome

/-- The rent-exempt balance still missing for data of a length. -/
def requiredLamports (dataLen : ℕ) (key : Key) : ℕ :=
  max (env.minimumBalance dataLen) 1 - (accounts key).lamports

/-- `Processor::create_lookup_table`. -/
def createLookupTable (untrustedRecentSlot : Slot) (bumpSeed : ℕ) :
    Except InstructionError (Accounts Key) := do
  let lookupTableAccount ← keyedAccountAt instructionAccounts 0
  failIf ((accounts lookupTableAccount.key).data ≠ .empty) .accountAlreadyInitialized
  let authorityAccount ← keyedAccountAt instructionAccounts 1
  let authorityKey ← okOr .missingRequiredSignature authorityAccount.signerKey
  let payerAccount ← keyedAccountAt instructionAccounts 2
  let payerKey ← okOr .missingRequiredSignature payerAccount.signerKey
  failIf (!slotHashesContains slotHashes untrustedRecentSlot) .invalidInstructionData
  let derivedTableKey ← okOr .invalidSeeds
    (env.createProgramAddress authorityKey untrustedRecentSlot bumpSeed)
  let tableKey := lookupTableAccount.key
  failIf (tableKey ≠ derivedTableKey) .invalidArgument
  let required := requiredLamports env accounts lookupTableMetaSize tableKey
  let accounts ← if required > 0 then accounts.transfer payerKey tableKey required else pure accounts
  let accounts ← accounts.allocate env tableKey
  let accounts := accounts.assign tableKey env.programId
  pure (accounts.setTable tableKey ⟨LookupTableMeta.new authorityKey, []⟩)

/-- The checks `freeze`, `extend`, `deactivate` and `close` share: the table account is the
program's, the authority signed, and the table deserializes and is not frozen and its authority
is the signer. -/
def authorizedTable : Except InstructionError (Key × AddressLookupTable Key) := do
  let lookupTableAccount ← keyedAccountAt instructionAccounts 0
  failIf ((accounts lookupTableAccount.key).owner ≠ env.programId) .invalidAccountOwner
  let authorityAccount ← keyedAccountAt instructionAccounts 1
  failIf authorityAccount.signerKey.isNone .missingRequiredSignature
  let lookupTable ← (accounts lookupTableAccount.key).data.deserialize
  failIf lookupTable.lookupTableMeta.authority.isNone .immutable
  failIf (lookupTable.lookupTableMeta.authority ≠ some authorityAccount.key) .incorrectAuthority
  pure (lookupTableAccount.key, lookupTable)

/-- `Processor::freeze_lookup_table`. -/
def freezeLookupTable : Except InstructionError (Accounts Key) := do
  let (tableKey, lookupTable) ← authorizedTable env instructionAccounts accounts
  failIf (lookupTable.lookupTableMeta.deactivationSlot ≠ slotMax) .invalidArgument
  failIf lookupTable.addresses.isEmpty .invalidInstructionData
  pure (accounts.setTable tableKey
    { lookupTable with lookupTableMeta := { lookupTable.lookupTableMeta with authority := none } })

/-- The metadata after an extension in `clockSlot` of a table of `len` addresses: the first
extension in a slot records it and where it starts. -/
def extendedMeta (tableMeta : LookupTableMeta Key) (len : ℕ) : LookupTableMeta Key :=
  if clockSlot ≠ tableMeta.lastExtendedSlot then
    { tableMeta with lastExtendedSlot := clockSlot, lastExtendedSlotStartIndex := len }
  else tableMeta

omit [DecidableEq Key] in
@[simp] lemma deactivationSlot_extendedMeta (tableMeta : LookupTableMeta Key) (len : ℕ) :
    (extendedMeta clockSlot tableMeta len).deactivationSlot = tableMeta.deactivationSlot := by
  unfold extendedMeta
  split_ifs <;> rfl

/-- `Processor::extend_lookup_table`. -/
def extendLookupTable (newAddresses : List Key) : Except InstructionError (Accounts Key) := do
  let (tableKey, lookupTable) ← authorizedTable env instructionAccounts accounts
  failIf (lookupTable.lookupTableMeta.deactivationSlot ≠ slotMax) .invalidArgument
  failIf (lookupTable.addresses.length ≥ lookupTableMaxAddresses) .invalidArgument
  failIf newAddresses.isEmpty .invalidInstructionData
  let newTableAddressesLen := lookupTable.addresses.length + newAddresses.length
  failIf (newTableAddressesLen > lookupTableMaxAddresses) .invalidInstructionData
  -- `u8::try_from` of the length cannot fail below `LOOKUP_TABLE_MAX_ADDRESSES`
  let lookupTableMeta := extendedMeta clockSlot lookupTable.lookupTableMeta
    lookupTable.addresses.length
  let accounts := accounts.setTable tableKey ⟨lookupTableMeta, lookupTable.addresses ++ newAddresses⟩
  let required := requiredLamports env accounts
    (lookupTableMetaSize + newTableAddressesLen * 32) tableKey
  if required > 0 then
    let payerAccount ← keyedAccountAt instructionAccounts 2
    let payerKey ← okOr .missingRequiredSignature payerAccount.signerKey
    accounts.transfer payerKey tableKey required
  else pure accounts

/-- `Processor::deactivate_lookup_table`. -/
def deactivateLookupTable : Except InstructionError (Accounts Key) := do
  let (tableKey, lookupTable) ← authorizedTable env instructionAccounts accounts
  failIf (lookupTable.lookupTableMeta.deactivationSlot ≠ slotMax) .invalidArgument
  pure (accounts.setTable tableKey { lookupTable with
    lookupTableMeta := { lookupTable.lookupTableMeta with deactivationSlot := clockSlot } })

/-- `Processor::close_lookup_table`. -/
def closeLookupTable : Except InstructionError (Accounts Key) := do
  let lookupTableAccount ← keyedAccountAt instructionAccounts 0
  failIf ((accounts lookupTableAccount.key).owner ≠ env.programId) .invalidAccountOwner
  let authorityAccount ← keyedAccountAt instructionAccounts 1
  failIf authorityAccount.signerKey.isNone .missingRequiredSignature
  let recipientAccount ← keyedAccountAt instructionAccounts 2
  failIf (recipientAccount.key = lookupTableAccount.key) .invalidArgument
  let lookupTable ← (accounts lookupTableAccount.key).data.deserialize
  failIf lookupTable.lookupTableMeta.authority.isNone .immutable
  failIf (lookupTable.lookupTableMeta.authority ≠ some authorityAccount.key) .incorrectAuthority
  failIf (lookupTable.lookupTableMeta.status clockSlot slotHashes ≠ .deactivated) .invalidArgument
  let tableKey := lookupTableAccount.key
  let accounts ← accounts.addLamports recipientAccount.key (accounts tableKey).lamports
  pure (accounts.set tableKey { accounts tableKey with data := .empty, lamports := 0 })

/-- `process_instruction`. -/
def processInstruction : ProgramInstruction Key → Except InstructionError (Accounts Key)
  | .createLookupTable recentSlot bumpSeed =>
    createLookupTable env slotHashes instructionAccounts accounts recentSlot bumpSeed
  | .freezeLookupTable => freezeLookupTable env instructionAccounts accounts
  | .extendLookupTable newAddresses =>
    extendLookupTable env clockSlot instructionAccounts accounts newAddresses
  | .deactivateLookupTable => deactivateLookupTable env clockSlot instructionAccounts accounts
  | .closeLookupTable => closeLookupTable env clockSlot slotHashes instructionAccounts accounts

end Instructions

/-! ### What an instruction does -/

/-- `account'` differs from `account` at most in its lamports, and an account with data only
gains lamports. -/
def Account.LamportsOnly (account account' : Account Key) : Prop :=
  account'.owner = account.owner ∧ account'.data = account.data ∧
    (account.data ≠ .empty → account.lamports ≤ account'.lamports)

namespace Account.LamportsOnly

omit [DecidableEq Key] in
lemma refl (account : Account Key) : account.LamportsOnly account :=
  ⟨rfl, rfl, fun _ => le_rfl⟩

omit [DecidableEq Key] in
lemma trans {account account' account'' : Account Key} (h : account.LamportsOnly account')
    (h' : account'.LamportsOnly account'') : account.LamportsOnly account'' := by
  refine ⟨h'.1.trans h.1, h'.2.1.trans h.2.1, fun hdata => ?_⟩
  have hdata' : account'.data ≠ .empty := by rw [h.2.1]; exact hdata
  exact (h.2.2 hdata).trans (h'.2.2 hdata')

end Account.LamportsOnly

/-- What a table operation that succeeded did to the table: froze it, extended it at the clock's
slot, or deactivated it at the clock's slot. -/
inductive TableUpdate (clockSlot : Slot) : AddressLookupTable Key → AddressLookupTable Key → Prop
  | freeze (table : AddressLookupTable Key) :
      TableUpdate clockSlot table { table with
        lookupTableMeta := { table.lookupTableMeta with authority := none } }
  | extend (table : AddressLookupTable Key) (newAddresses : List Key) :
      table.lookupTableMeta.deactivationSlot = slotMax →
      TableUpdate clockSlot table
        ⟨extendedMeta clockSlot table.lookupTableMeta table.addresses.length,
          table.addresses ++ newAddresses⟩
  | deactivate (table : AddressLookupTable Key) :
      table.lookupTableMeta.deactivationSlot = slotMax →
      TableUpdate clockSlot table { table with
        lookupTableMeta := { table.lookupTableMeta with deactivationSlot := clockSlot } }

/-- What an instruction that succeeded did to its first account: created an empty table there,
at an address derived from a slot of the slot hashes; updated the table there; or closed the
table, fully deactivated, into an account without data or lamports. -/
inductive TableStep (env : Env Key) (clockSlot : Slot) (slotHashes : List (Slot × H))
    (tableKey : Key) : Account Key → Account Key → Prop
  | create {account account' : Account Key} (authority : Key) (recentSlot : Slot)
      (bumpSeed : ℕ) :
      account.data = .empty →
      env.createProgramAddress authority recentSlot bumpSeed = some tableKey →
      slotHashesContains slotHashes recentSlot = true →
      account'.owner = env.programId →
      account'.data = .lookupTable ⟨LookupTableMeta.new authority, []⟩ →
      0 < account'.lamports →
      TableStep env clockSlot slotHashes tableKey account account'
  | update {account account' : Account Key} (table table' : AddressLookupTable Key) :
      account.owner = env.programId → account.data = .lookupTable table →
      TableUpdate clockSlot table table' →
      account'.owner = account.owner → account'.data = .lookupTable table' →
      account.lamports ≤ account'.lamports →
      TableStep env clockSlot slotHashes tableKey account account'
  | close {account account' : Account Key} (table : AddressLookupTable Key) :
      account.owner = env.programId → account.data = .lookupTable table →
      table.lookupTableMeta.status clockSlot slotHashes = .deactivated →
      account'.owner = account.owner → account'.data = .empty → account'.lamports = 0 →
      TableStep env clockSlot slotHashes tableKey account account'

/-- What an instruction that succeeded did: a step of its first account, and at most a change
of lamports of every other account. -/
def InstructionEffect (env : Env Key) (clockSlot : Slot) (slotHashes : List (Slot × H))
    (instructionAccounts : List (InstructionAccount Key)) (accounts accounts' : Accounts Key) :
    Prop :=
  ∃ tableAccount ∈ instructionAccounts[0]?,
    TableStep env clockSlot slotHashes tableAccount.key (accounts tableAccount.key)
      (accounts' tableAccount.key) ∧
    ∀ j ≠ tableAccount.key, (accounts j).LamportsOnly (accounts' j)

namespace Accounts

variable {accounts accounts' : Accounts Key}

lemma lamportsOnly_set {key : Key} {account : Account Key}
    (h : (accounts key).LamportsOnly account) (j : Key) :
    (accounts j).LamportsOnly (accounts.set key account j) := by
  by_cases hj : j = key
  · subst hj
    simpa using h
  · rw [set_of_ne _ _ hj]
    exact .refl _

lemma addLamports_eq_ok {key : Key} {lamports : ℕ}
    (h : accounts.addLamports key lamports = .ok accounts') :
    accounts' = accounts.set key { accounts key with lamports := (accounts key).lamports + lamports } := by
  simp only [addLamports, failIf_bind_eq_ok, pure, Except.pure, Except.ok.injEq] at h
  exact h.2.symm

lemma lamportsOnly_addLamports {key : Key} {lamports : ℕ}
    (h : accounts.addLamports key lamports = .ok accounts') (j : Key) :
    (accounts j).LamportsOnly (accounts' j) := by
  have hstep : (accounts key).LamportsOnly
      { accounts key with lamports := (accounts key).lamports + lamports } :=
    ⟨rfl, rfl, fun _ => Nat.le_add_right _ _⟩
  rw [addLamports_eq_ok h]
  exact lamportsOnly_set hstep j

/-- A transfer moves lamports out of an account without data and into another. -/
lemma lamportsOnly_transfer {fromKey toKey : Key} {lamports : ℕ}
    (h : accounts.transfer fromKey toKey lamports = .ok accounts') (j : Key) :
    (accounts j).LamportsOnly (accounts' j) := by
  simp only [transfer, failIf_bind_eq_ok] at h
  obtain ⟨hempty, -, h⟩ := h
  -- the payer has no data, so it may lose lamports
  have hdebit : (accounts fromKey).LamportsOnly
      { accounts fromKey with lamports := (accounts fromKey).lamports - lamports } :=
    ⟨rfl, rfl, fun hdata => absurd (not_not.mp hempty) hdata⟩
  exact (lamportsOnly_set hdebit j).trans (lamportsOnly_addLamports h j)

/-- A transfer leaves at least the amount in the account it pays. -/
lemma le_lamports_of_transfer {fromKey toKey : Key} {lamports : ℕ}
    (h : accounts.transfer fromKey toKey lamports = .ok accounts') :
    lamports ≤ (accounts' toKey).lamports := by
  simp only [transfer, failIf_bind_eq_ok] at h
  rw [addLamports_eq_ok h.2.2, set_self]
  exact Nat.le_add_left _ _

lemma allocate_eq_ok {env : Env Key} {key : Key} (h : accounts.allocate env key = .ok accounts') :
    accounts' = accounts.set key { accounts key with data := .uninitialized } := by
  simp only [allocate, failIf_bind_eq_ok, pure, Except.pure, Except.ok.injEq] at h
  exact h.2.symm

end Accounts

section Inversion

variable {env : Env Key} {clockSlot : Slot} {slotHashes : List (Slot × H)}
  {instructionAccounts : List (InstructionAccount Key)} {accounts accounts' : Accounts Key}

/-- The shared checks passed: the first account is the program's, holds a table, and its
authority signed. -/
lemma authorizedTable_eq_ok {tableKey : Key} {table : AddressLookupTable Key}
    (h : authorizedTable env instructionAccounts accounts = .ok (tableKey, table)) :
    ∃ tableAccount ∈ instructionAccounts[0]?, tableAccount.key = tableKey ∧
      (accounts tableKey).owner = env.programId ∧ (accounts tableKey).data = .lookupTable table := by
  simp only [authorizedTable] at h
  obtain ⟨tableAccount, htable, h⟩ := bind_eq_ok_iff.mp h
  simp only [failIf_bind_eq_ok] at h
  obtain ⟨howner, h⟩ := h
  obtain ⟨authorityAccount, -, h⟩ := bind_eq_ok_iff.mp h
  simp only [failIf_bind_eq_ok] at h
  obtain ⟨-, h⟩ := h
  obtain ⟨table', hdata, h⟩ := bind_eq_ok_iff.mp h
  simp only [failIf_bind_eq_ok, pure, Except.pure, Except.ok.injEq, Prod.mk.injEq] at h
  obtain ⟨-, -, rfl, rfl⟩ := h
  exact ⟨tableAccount, Except.okOr_eq_ok.mp htable, rfl, not_not.mp howner,
    TableData.deserialize_eq_ok.mp hdata⟩

/-- An update that passed the shared checks writes the updated table into the table account, and
at most adds lamports to it. -/
lemma process_of_update {tableKey : Key} {table table' : AddressLookupTable Key}
    (hauth : authorizedTable env instructionAccounts accounts = .ok (tableKey, table))
    (hupdate : TableUpdate clockSlot table table')
    (h : ∃ accounts₁, accounts₁ = accounts.setTable tableKey table' ∧
      ∀ j, (accounts₁ j).LamportsOnly (accounts' j)) :
    InstructionEffect env clockSlot slotHashes instructionAccounts accounts accounts' := by
  obtain ⟨tableAccount, htableAccount, rfl, howner, hdata⟩ := authorizedTable_eq_ok hauth
  obtain ⟨accounts₁, rfl, hlater⟩ := h
  refine ⟨tableAccount, htableAccount, ?_, fun j hj => ?_⟩
  · obtain ⟨hown, hdat, hlam⟩ := hlater tableAccount.key
    simp only [Accounts.setTable, Accounts.set_self] at hown hdat hlam
    exact .update table table' howner hdata hupdate hown hdat (hlam (by simp))
  · have hj' := hlater j
    simp only [Accounts.setTable, Accounts.set_of_ne _ _ hj] at hj'
    exact hj'

lemma process_freeze (h : freezeLookupTable env instructionAccounts accounts = .ok accounts') :
    InstructionEffect env clockSlot slotHashes instructionAccounts accounts accounts' := by
  simp only [freezeLookupTable] at h
  obtain ⟨⟨tableKey, table⟩, hauth, h⟩ := bind_eq_ok_iff.mp h
  simp only [failIf_bind_eq_ok, pure, Except.pure, Except.ok.injEq] at h
  obtain ⟨-, -, rfl⟩ := h
  exact process_of_update hauth (.freeze table) ⟨_, rfl, fun j => .refl _⟩

lemma process_extend {newAddresses : List Key}
    (h : extendLookupTable env clockSlot instructionAccounts accounts newAddresses = .ok accounts') :
    InstructionEffect env clockSlot slotHashes instructionAccounts accounts accounts' := by
  simp only [extendLookupTable] at h
  obtain ⟨⟨tableKey, table⟩, hauth, h⟩ := bind_eq_ok_iff.mp h
  simp only [failIf_bind_eq_ok] at h
  obtain ⟨hactive, -, -, -, h⟩ := h
  refine process_of_update hauth (.extend table newAddresses (not_not.mp hactive))
    ⟨_, rfl, fun j => ?_⟩
  -- the rent still missing is paid by the payer
  split at h
  · obtain ⟨payerAccount, -, h⟩ := bind_eq_ok_iff.mp h
    obtain ⟨payerKey, -, h⟩ := bind_eq_ok_iff.mp h
    exact Accounts.lamportsOnly_transfer h j
  · simp only [pure, Except.pure, Except.ok.injEq] at h
    rw [h]
    exact .refl _

lemma process_deactivate
    (h : deactivateLookupTable env clockSlot instructionAccounts accounts = .ok accounts') :
    InstructionEffect env clockSlot slotHashes instructionAccounts accounts accounts' := by
  simp only [deactivateLookupTable] at h
  obtain ⟨⟨tableKey, table⟩, hauth, h⟩ := bind_eq_ok_iff.mp h
  simp only [failIf_bind_eq_ok, pure, Except.pure, Except.ok.injEq] at h
  obtain ⟨hactive, rfl⟩ := h
  exact process_of_update hauth (.deactivate table (not_not.mp hactive)) ⟨_, rfl, fun j => .refl _⟩

lemma process_close
    (h : closeLookupTable env clockSlot slotHashes instructionAccounts accounts = .ok accounts') :
    InstructionEffect env clockSlot slotHashes instructionAccounts accounts accounts' := by
  simp only [closeLookupTable] at h
  obtain ⟨tableAccount, htable, h⟩ := bind_eq_ok_iff.mp h
  simp only [failIf_bind_eq_ok] at h
  obtain ⟨howner, h⟩ := h
  obtain ⟨authorityAccount, -, h⟩ := bind_eq_ok_iff.mp h
  simp only [failIf_bind_eq_ok] at h
  obtain ⟨-, h⟩ := h
  obtain ⟨recipientAccount, -, h⟩ := bind_eq_ok_iff.mp h
  simp only [failIf_bind_eq_ok] at h
  obtain ⟨hrecipient, h⟩ := h
  obtain ⟨table, hdata, h⟩ := bind_eq_ok_iff.mp h
  simp only [failIf_bind_eq_ok] at h
  obtain ⟨-, -, hstatus, h⟩ := h
  obtain ⟨accounts₁, hadd, h⟩ := bind_eq_ok_iff.mp h
  simp only [pure, Except.pure, Except.ok.injEq] at h
  subst h
  -- the lamports go to another account, and the table account is emptied
  have hsame : accounts₁ tableAccount.key = accounts tableAccount.key := by
    rw [Accounts.addLamports_eq_ok hadd, Accounts.set_of_ne _ _ (Ne.symm hrecipient)]
  refine ⟨tableAccount, Except.okOr_eq_ok.mp htable, ?_, fun j hj => ?_⟩
  · simp only [Accounts.set_self]
    exact .close table (not_not.mp howner) (TableData.deserialize_eq_ok.mp hdata)
      (not_not.mp hstatus) (by rw [hsame]) rfl rfl
  · rw [Accounts.set_of_ne _ _ hj]
    exact Accounts.lamportsOnly_addLamports hadd j

/-- The end of `create_lookup_table`, once the table account is funded: allocated, assigned to
the program, and written with an empty table. -/
lemma process_create_of_funded {tableAccount : InstructionAccount Key} {authorityKey : Key}
    {recentSlot : Slot} {bumpSeed : ℕ} {accounts₁ : Accounts Key}
    (htable : instructionAccounts[0]? = some tableAccount)
    (hempty : (accounts tableAccount.key).data = .empty)
    (hderived : env.createProgramAddress authorityKey recentSlot bumpSeed = some tableAccount.key)
    (hrecent : slotHashesContains slotHashes recentSlot = true)
    (hfund : ∀ j, (accounts j).LamportsOnly (accounts₁ j))
    (hpos : 0 < (accounts₁ tableAccount.key).lamports)
    (h : (do
      let accounts ← accounts₁.allocate env tableAccount.key
      pure ((accounts.assign tableAccount.key env.programId).setTable tableAccount.key
        ⟨LookupTableMeta.new authorityKey, []⟩)) = .ok accounts') :
    InstructionEffect env clockSlot slotHashes instructionAccounts accounts accounts' := by
  obtain ⟨accounts₂, halloc, h⟩ := bind_eq_ok_iff.mp h
  simp only [pure, Except.pure, Except.ok.injEq] at h
  subst h
  rw [Accounts.allocate_eq_ok halloc]
  refine ⟨tableAccount, htable, ?_, fun j hj => ?_⟩
  · simp only [Accounts.setTable, Accounts.assign, Accounts.set_self]
    exact .create authorityKey recentSlot bumpSeed hempty hderived hrecent rfl rfl hpos
  · simp only [Accounts.setTable, Accounts.assign, Accounts.set_of_ne _ _ hj]
    exact hfund j

lemma process_create {recentSlot : Slot} {bumpSeed : ℕ}
    (h : createLookupTable env slotHashes instructionAccounts accounts recentSlot bumpSeed =
      .ok accounts') :
    InstructionEffect env clockSlot slotHashes instructionAccounts accounts accounts' := by
  simp only [createLookupTable] at h
  obtain ⟨tableAccount, htable, h⟩ := bind_eq_ok_iff.mp h
  simp only [failIf_bind_eq_ok] at h
  obtain ⟨hempty, h⟩ := h
  obtain ⟨authorityAccount, -, h⟩ := bind_eq_ok_iff.mp h
  obtain ⟨authorityKey, -, h⟩ := bind_eq_ok_iff.mp h
  obtain ⟨payerAccount, -, h⟩ := bind_eq_ok_iff.mp h
  obtain ⟨payerKey, -, h⟩ := bind_eq_ok_iff.mp h
  simp only [failIf_bind_eq_ok] at h
  obtain ⟨hrecent, h⟩ := h
  obtain ⟨derivedKey, hderived, h⟩ := bind_eq_ok_iff.mp h
  simp only [failIf_bind_eq_ok] at h
  obtain ⟨hkey, h⟩ := h
  rw [Except.okOr_eq_ok, ← not_not.mp hkey] at hderived
  have hrecent' : slotHashesContains slotHashes recentSlot = true := by simpa using hrecent
  have htable' := Except.okOr_eq_ok.mp htable
  -- the rent still missing is paid by the payer, which leaves the table account some lamports
  split at h
  · rename_i hrequired
    obtain ⟨accounts₁, hfund, h⟩ := bind_eq_ok_iff.mp h
    exact process_create_of_funded htable' (not_not.mp hempty) hderived hrecent'
      (Accounts.lamportsOnly_transfer hfund)
      (hrequired.trans_le (Accounts.le_lamports_of_transfer hfund)) h
  · rename_i hrequired
    have hmax := le_max_right (env.minimumBalance lookupTableMetaSize) 1
    simp only [requiredLamports] at hrequired
    simp only [pure_bind] at h
    exact process_create_of_funded htable' (not_not.mp hempty) hderived hrecent'
      (fun j => .refl _) (by omega) h

/-- Every instruction that succeeded is one of the steps of its table account, and at most
changes the lamports of the other accounts. -/
theorem process_cases {instruction : ProgramInstruction Key}
    (h : processInstruction env clockSlot slotHashes instructionAccounts accounts instruction =
      .ok accounts') :
    InstructionEffect env clockSlot slotHashes instructionAccounts accounts accounts' := by
  cases instruction with
  | createLookupTable recentSlot bumpSeed => exact process_create h
  | freezeLookupTable => exact process_freeze h
  | extendLookupTable newAddresses => exact process_extend h
  | deactivateLookupTable => exact process_deactivate h
  | closeLookupTable => exact process_close h

end Inversion

/-! ### When a close succeeds -/

section Close

variable {env : Env Key} {clockSlot : Slot} {slotHashes : List (Slot × H)} {accounts : Accounts Key}

/-- The close of a fully deactivated table by its authority, into another account, succeeds: the
recipient gets the table's lamports and the table account is emptied. -/
lemma closeLookupTable_eq_ok {tableKey authorityKey recipientKey : Key}
    {tableSigner recipientSigner : Bool} {rest : List (InstructionAccount Key)}
    {table : AddressLookupTable Key}
    (howner : (accounts tableKey).owner = env.programId)
    (hrecipient : recipientKey ≠ tableKey)
    (hdata : (accounts tableKey).data = .lookupTable table)
    (hauthority : table.lookupTableMeta.authority = some authorityKey)
    (hstatus : table.lookupTableMeta.status clockSlot slotHashes = .deactivated)
    (hbound : (accounts recipientKey).lamports + (accounts tableKey).lamports < u64Bound) :
    closeLookupTable env clockSlot slotHashes
        (⟨tableKey, tableSigner⟩ :: ⟨authorityKey, true⟩ :: ⟨recipientKey, recipientSigner⟩ :: rest)
        accounts =
      .ok ((accounts.set recipientKey { accounts recipientKey with
          lamports := (accounts recipientKey).lamports + (accounts tableKey).lamports }).set
        tableKey { accounts tableKey with data := .empty, lamports := 0 }) := by
  have hfits : ¬(accounts recipientKey).lamports + (accounts tableKey).lamports ≥ u64Bound :=
    not_le.mpr hbound
  simp [closeLookupTable, keyedAccountAt, okOr, howner, InstructionAccount.signerKey, hrecipient,
    hdata, TableData.deserialize, hauthority, hstatus, Accounts.addLamports, failIf, hfits, bind,
    Except.bind, pure, Except.pure, Accounts.set_of_ne _ _ (Ne.symm hrecipient)]

end Close

end VelasChain.LookupTable
