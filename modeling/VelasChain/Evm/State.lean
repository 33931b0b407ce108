import Mathlib

/-!
# EVM state: the pending overlay and the committed trie

`EvmBackend<Incomming>` keeps the changes of the current block in an overlay, the
`state_updates` map, above the account trie at `state_root`. `commit_block` flushes the
overlay into the trie (`Storage::flush_changes`) and returns an `EvmBackend<Committed>`,
which reads the trie alone.

The trie database is modelled by what the code relies on: a persistent finite map for each
root. A root is represented by the map it denotes, an account's `storage_root` by its
storage map, and its `code_hash` by the code that the `Codes` column holds under it. The
storage trie keeps `U256::from_big_endian(value)` and reads convert it back, a round trip,
so it holds the `H256` value itself here.
-/

namespace VelasChain.Evm

/-- `H160`: an EVM address. -/
abbrev H160 := BitVec 160

/-- `H256`: a storage index or a storage value. -/
abbrev H256 := BitVec 256

/-- `U256`: a nonce or a balance. -/
abbrev U256 := BitVec 256

/-- `Code`: contract bytecode. -/
abbrev Code := List UInt8

/-- `AccountState`: what the executor reads and writes for an address. -/
structure AccountState where
  nonce : U256
  balance : U256
  code : Code
  deriving DecidableEq

/-- `AccountState::default()`. -/
def AccountState.default : AccountState := ⟨0, 0, []⟩

/-- `AccountState::is_empty`. -/
def AccountState.isEmpty (s : AccountState) : Bool :=
  s.nonce == 0 && s.balance == 0 && s.code.isEmpty

/-- `Maybe<T>`: an overlay entry either sets the account (`Just`) or removes it (`Nothing`). -/
inductive Maybe (α : Type) where
  | just (a : α)
  | nothing
  deriving DecidableEq

/-- `From<Maybe<T>> for Option<T>`. -/
def Maybe.toOption {α : Type} : Maybe α → Option α
  | .just a => some a
  | .nothing => none

/-- A storage map, or a storage delta (`HashMap<H256, H256>`). -/
abbrev StorageMap := H256 → Option H256

/-- The empty storage map. -/
def StorageMap.empty : StorageMap := fun _ => none

/-- `Account` as stored in the account trie, with `storage_root` resolved to the storage map
it denotes and `code_hash` to the code stored under it. -/
structure Account where
  nonce : U256
  balance : U256
  storage : StorageMap
  code : Code

/-- `Account::default()`: the empty storage root and the hash of the empty code. -/
def Account.default : Account := ⟨0, 0, StorageMap.empty, []⟩

/-- The account trie at a state root. -/
abbrev Trie := H160 → Option Account

/-- `ChangedState`: for each touched address, the new account state and a storage delta. -/
abbrev ChangedState := H160 → Option (Maybe AccountState × StorageMap)

/-- `ExitReason`, by its kind. -/
inductive ExitReason where
  | succeed
  | error
  | revert
  | fatal
  deriving DecidableEq

/-- `Log`: an EVM log entry. -/
structure Log where
  address : H160
  topics : List H256
  data : List UInt8

/-- `Bloom`: the 2048-bit bloom of a set of logs. -/
abbrev Bloom := BitVec 2048

/-- `TransactionReceipt`, with its signed or unsigned transaction reduced to the caller
`TransactionReceipt::caller` recovers from it. Block number and gas are read by no function
modelled here. -/
structure TransactionReceipt where
  caller : Option H160
  status : ExitReason
  logs : List Log
  logsBloom : Bloom
  index : Nat

/-- `TransactionReceipt::to_failed`. -/
def TransactionReceipt.toFailed (tx : TransactionReceipt) (clearLogs : Bool) :
    TransactionReceipt :=
  { tx with status := .revert, logs := if clearLogs then [] else tx.logs,
            logsBloom := if clearLogs then 0 else tx.logsBloom }

/-- `Incomming`: the state of the block being built. Its other fields (block number,
timestamp, hashes, version) are read by no function modelled here. -/
structure Incomming where
  stateRoot : Trie
  stateUpdates : ChangedState
  usedGas : Nat
  executedTransactions : List (H256 × TransactionReceipt)

/-- `Committed`: a closed block; reads go to the trie at `block.state_root`. -/
structure Committed where
  stateRoot : Trie

/-! ### Reads from the trie -/

/-- `EvmBackend::get_account_state_from_kvs`. -/
def getAccountStateFromKvs (root : Trie) (address : H160) : Option AccountState :=
  (root address).map fun a => ⟨a.nonce, a.balance, a.code⟩

/-- `EvmBackend::get_storage_from_kvs`. -/
def getStorageFromKvs (root : Trie) (address : H160) (index : H256) : Option H256 :=
  (root address).bind fun a => a.storage index

/-! ### The overlay -/

/-- `HashMap::extend` on a storage delta: entries are inserted in order, later ones win. -/
def StorageMap.extend (m : StorageMap) : List (H256 × H256) → StorageMap
  | [] => m
  | (k, v) :: rest => StorageMap.extend (Function.update m k (some v)) rest

namespace Incomming

/-- The storage delta of an overlay entry, empty when the address has none. -/
def deltaOf (b : Incomming) (address : H160) : StorageMap :=
  ((b.stateUpdates address).map Prod.snd).getD StorageMap.empty

/-- `EvmBackend<Incomming>::set_account_state`: replace the account state of the entry and
keep its storage delta. -/
def setAccountState (b : Incomming) (address : H160) (accountState : AccountState) :
    Incomming :=
  { b with stateUpdates :=
      Function.update b.stateUpdates address (some (.just accountState, b.deltaOf address)) }

/-- `EvmBackend<Incomming>::remove_account`: mark the entry `Nothing` and keep its storage
delta. -/
def removeAccount (b : Incomming) (address : H160) : Incomming :=
  { b with stateUpdates :=
      Function.update b.stateUpdates address (some (.nothing, b.deltaOf address)) }

/-- `EvmBackend<Incomming>::ext_storage`: extend the storage delta of the entry; an address
without an entry first gets `(Just(AccountState::default()), {})`. -/
def extStorage (b : Incomming) (address : H160) (indexedValues : List (H256 × H256)) :
    Incomming :=
  let (state, storage) := (b.stateUpdates address).getD (.just AccountState.default, StorageMap.empty)
  { b with stateUpdates :=
      Function.update b.stateUpdates address (some (state, storage.extend indexedValues)) }

/-- `AccountProvider for EvmBackend<Incomming>::get_account_state`: the overlay entry if
there is one, else the trie. -/
def getAccountState (b : Incomming) (address : H160) : Option AccountState :=
  match b.stateUpdates address with
  | some (state, _) => state.toOption
  | none => getAccountStateFromKvs b.stateRoot address

/-- `AccountProvider for EvmBackend<Incomming>::get_storage`: the overlay delta if it holds
the index, else the trie. -/
def getStorage (b : Incomming) (address : H160) (index : H256) : Option H256 :=
  match (b.stateUpdates address).bind fun entry => entry.2 index with
  | some value => some value
  | none => getStorageFromKvs b.stateRoot address index

/-- `EvmBackend<Incomming>::increase_nonce`. -/
def increaseNonce (b : Incomming) (address : H160) : Incomming :=
  let s := (b.getAccountState address).getD AccountState.default
  b.setAccountState address { s with nonce := s.nonce + 1 }

/-- One iteration of `apply_failed_update`: a succeeded receipt is turned into a failed one,
then its caller's nonce is increased and the receipt recorded; a receipt without a caller is
dropped. -/
def recordFailed (clearLogs : Bool) (b : Incomming) (entry : H256 × TransactionReceipt) :
    Incomming :=
  let tx := if entry.2.status = .succeed then entry.2.toFailed clearLogs else entry.2
  match tx.caller with
  | some caller =>
    let b := b.increaseNonce caller
    { b with executedTransactions := b.executedTransactions ++ [(entry.1, tx)] }
  | none => b

/-- `EvmBackend<Incomming>::apply_failed_update`: of a failed execution's state keep only
the receipts it added, as failed ones, and the nonce increases of their callers. -/
def applyFailedUpdate (b failed : Incomming) (clearLogs : Bool) : Incomming :=
  (failed.executedTransactions.drop b.executedTransactions.length).foldl (recordFailed clearLogs) b

end Incomming

/-! ### Flushing the overlay -/

/-- The storage loop of `Storage::flush_changes`: a non-zero value is inserted, a zero value
deletes the index. -/
def flushStorage (storage : StorageMap) (storages : StorageMap) : StorageMap :=
  fun index => match storages index with
    | some value => if value ≠ 0 then some value else none
    | none => storage index

/-- The body of the loop of `Storage::flush_changes` for one address: a `Just` state is
written over the account already in the trie (or `Account::default()`), keeping its code
when the new code is empty; `Nothing` deletes the account. -/
def flushAccount (old : Option Account) : Maybe AccountState × StorageMap → Option Account
  | (.just st, storages) =>
    let account := old.getD Account.default
    some { nonce := st.nonce, balance := st.balance,
           code := if st.code.isEmpty then account.code else st.code,
           storage := flushStorage account.storage storages }
  | (.nothing, _) => none

/-- `Storage::flush_changes`: each address of the overlay is written independently, so the
new trie is the old one with every entry flushed. -/
def flushChanges (stateRoot : Trie) (stateUpdates : ChangedState) : Trie :=
  fun address => match stateUpdates address with
    | some entry => flushAccount (stateRoot address) entry
    | none => stateRoot address

/-- `EvmBackend<Incomming>::commit_block`: flush, then close the block at the new root. -/
def Incomming.commitBlock (b : Incomming) : Committed :=
  ⟨flushChanges b.stateRoot b.stateUpdates⟩

/-- `AccountProvider for EvmBackend<Committed>::get_account_state`. -/
def Committed.getAccountState (c : Committed) (address : H160) : Option AccountState :=
  getAccountStateFromKvs c.stateRoot address

/-- `AccountProvider for EvmBackend<Committed>::get_storage`. -/
def Committed.getStorage (c : Committed) (address : H160) (index : H256) : Option H256 :=
  getStorageFromKvs c.stateRoot address index

/-- `Committed::next_incomming`: a new block over the committed root, with no changes. -/
def Committed.nextIncomming (c : Committed) : Incomming :=
  ⟨c.stateRoot, fun _ => none, 0, []⟩

/-! ### Frame lemmas of the overlay operations -/

namespace Incomming

variable (b : Incomming) (address : H160)

@[simp] lemma setAccountState_stateRoot (s : AccountState) :
    (b.setAccountState address s).stateRoot = b.stateRoot := rfl

@[simp] lemma setAccountState_stateUpdates (s : AccountState) :
    (b.setAccountState address s).stateUpdates =
      Function.update b.stateUpdates address (some (.just s, b.deltaOf address)) := rfl

@[simp] lemma removeAccount_stateRoot : (b.removeAccount address).stateRoot = b.stateRoot := rfl

@[simp] lemma removeAccount_stateUpdates :
    (b.removeAccount address).stateUpdates =
      Function.update b.stateUpdates address (some (.nothing, b.deltaOf address)) := rfl

@[simp] lemma extStorage_stateRoot (values : List (H256 × H256)) :
    (b.extStorage address values).stateRoot = b.stateRoot := rfl

/-- A removed address keeps its storage delta, and no read of the trie changes, so
`remove_account` leaves every storage read of the overlay as it was. -/
lemma getStorage_removeAccount (address' : H160) (index : H256) :
    (b.removeAccount address).getStorage address' index = b.getStorage address' index := by
  by_cases h : address' = address
  · subst h
    cases hb : b.stateUpdates address' with
    | none => simp [getStorage, deltaOf, hb, StorageMap.empty]
    | some entry => simp [getStorage, deltaOf, hb]
  · simp [getStorage, Function.update_of_ne h]

/-- `set_account_state` keeps the storage delta of the entry, so every storage read stays. -/
lemma getStorage_setAccountState (s : AccountState) (address' : H160) (index : H256) :
    (b.setAccountState address s).getStorage address' index = b.getStorage address' index := by
  by_cases h : address' = address
  · subst h
    cases hb : b.stateUpdates address' with
    | none => simp [getStorage, deltaOf, hb, StorageMap.empty]
    | some entry => simp [getStorage, deltaOf, hb]
  · simp [getStorage, Function.update_of_ne h]

/-- `ext_storage` with no entries changes no storage read, even where it creates an entry. -/
lemma getStorage_extStorage_nil (address' : H160) (index : H256) :
    (b.extStorage address []).getStorage address' index = b.getStorage address' index := by
  by_cases h : address' = address
  · subst h
    cases hb : b.stateUpdates address' with
    | none => simp [extStorage, getStorage, hb, StorageMap.extend, StorageMap.empty]
    | some entry => simp [extStorage, getStorage, hb, StorageMap.extend]
  · simp [extStorage, getStorage, Function.update_of_ne h]

/-- After `remove_account` the overlay reads the address as absent. -/
lemma getAccountState_removeAccount :
    (b.removeAccount address).getAccountState address = none := by
  simp [getAccountState, Maybe.toOption]

end Incomming

/-! ### What a committed block reads -/

/-- The committed account of an address, by the overlay entry that was flushed. -/
lemma commitBlock_getAccountState (b : Incomming) (address : H160) :
    b.commitBlock.getAccountState address =
      match b.stateUpdates address with
      | some (.just st, _) =>
        some ⟨st.nonce, st.balance,
          if st.code.isEmpty then ((b.stateRoot address).getD Account.default).code else st.code⟩
      | some (.nothing, _) => none
      | none => getAccountStateFromKvs b.stateRoot address := by
  simp only [Incomming.commitBlock, Committed.getAccountState, getAccountStateFromKvs,
    flushChanges]
  rcases b.stateUpdates address with _ | ⟨_ | _, _⟩ <;> rfl

/-- The committed storage of an address, by the overlay entry that was flushed. -/
lemma commitBlock_getStorage (b : Incomming) (address : H160) (index : H256) :
    b.commitBlock.getStorage address index =
      match b.stateUpdates address with
      | some (.just _, storages) =>
        flushStorage ((b.stateRoot address).getD Account.default).storage storages index
      | some (.nothing, _) => none
      | none => getStorageFromKvs b.stateRoot address index := by
  simp only [Incomming.commitBlock, Committed.getStorage, getStorageFromKvs, flushChanges]
  rcases b.stateUpdates address with _ | ⟨_ | _, _⟩ <;> rfl

/-- Committing keeps the storage reads, up to `unwrap_or_default`, of every address whose
overlay entry is not a removal: a zero written to the delta reads as zero on both sides. -/
theorem commitBlock_getStorage_of_not_removed (b : Incomming) (address : H160) (index : H256)
    (h : ∀ storages, b.stateUpdates address ≠ some (.nothing, storages)) :
    (b.commitBlock.getStorage address index).getD 0 = (b.getStorage address index).getD 0 := by
  rw [commitBlock_getStorage]
  rcases hb : b.stateUpdates address with _ | ⟨_ | _, storages⟩
  · simp [Incomming.getStorage, hb]
  · cases hv : storages index with
    | none =>
      simp [Incomming.getStorage, hb, hv, flushStorage, getStorageFromKvs]
      cases b.stateRoot address <;> rfl
    | some v =>
      simp only [Incomming.getStorage, hb, hv, flushStorage, Option.bind_some]
      split
      · rfl
      · rename_i hz
        rw [not_not.mp hz]
        rfl
  · exact absurd hb (h storages)

/-- A removed address has no storage once committed. -/
lemma commitBlock_getStorage_removeAccount (b : Incomming) (address : H160) (index : H256) :
    (b.removeAccount address).commitBlock.getStorage address index = none := by
  simp [commitBlock_getStorage]

/-- The overlay of a removed account still reads the slot the trie holds for it, and the
committed block reads nothing there. -/
theorem commitBlock_drops_removed_storage :
    let b : Incomming := ⟨fun a =>
      if a = 1 then some ⟨1, 0, fun i => if i = 1 then some 7 else none, []⟩ else none,
      fun _ => none, 0, []⟩
    ((b.removeAccount 1).getStorage 1 1).getD 0 = 7 ∧
      ((b.removeAccount 1).commitBlock.getStorage 1 1).getD 0 = 0 := by
  decide

/-- Committing keeps the account reads of every address whose overlay entry is not a `Just`
with empty code over a trie account that has code. -/
theorem commitBlock_getAccountState_of_code (b : Incomming) (address : H160)
    (h : ∀ st storages, b.stateUpdates address = some (.just st, storages) →
      st.code.isEmpty → ((b.stateRoot address).getD Account.default).code = []) :
    b.commitBlock.getAccountState address = b.getAccountState address := by
  rw [commitBlock_getAccountState]
  rcases hb : b.stateUpdates address with _ | ⟨st | _, storages⟩
  · simp [Incomming.getAccountState, hb]
  · simp only [Incomming.getAccountState, hb, Maybe.toOption]
    by_cases he : st.code.isEmpty
    · rw [if_pos he, h st storages hb he]
      simp only [List.isEmpty_iff] at he
      rw [← he]
    · rw [if_neg he]
  · simp [Incomming.getAccountState, hb, Maybe.toOption]

end VelasChain.Evm
