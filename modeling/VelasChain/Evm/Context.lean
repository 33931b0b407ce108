import VelasChain.Evm.State

/-!
# `ExecutorContext::apply` and the backend view of the executor

After an EVM execution the executor hands its account changes, a list of `Apply` values,
to `ExecutorContext::apply`, which writes them into the overlay of `EvmBackend<Incomming>`.
The executor reads accounts back through the `Backend` implementation of the context:
`exists`, `basic`, `code` and `storage`.

Next to the code stands a reference map model of `Apply` semantics (`RefState`): `Delete`
removes an account with its storage and code, `Modify` with `reset_storage` clears the old
storage first, and a `Modify` that leaves the account empty removes it.
-/

namespace VelasChain.Evm

/-- `Basic`: the balance and nonce of an account. -/
structure Basic where
  balance : U256
  nonce : U256

/-- `Apply<I>`: one account change of an EVM execution. -/
inductive Apply where
  | modify (address : H160) (basic : Basic) (code : Option Code)
      (storage : List (H256 × H256)) (resetStorage : Bool)
  | delete (address : H160)

/-- `ExecutorContext`: the executor's handle on the backend. The chain context,
transaction context and config are read by no function modelled here. -/
structure ExecutorContext where
  backend : Incomming

namespace ExecutorContext

/-- One iteration of the loop of `ExecutorContext::apply`. The `reset_storage` field of
`Apply::Modify` is matched as `_`. -/
def applyOne (b : Incomming) : Apply → Incomming
  | .modify address basic code storage _ =>
    let old := (b.getAccountState address).getD AccountState.default
    let accountState : AccountState :=
      { nonce := basic.nonce, balance := basic.balance, code := code.getD old.code }
    let b := b.extStorage address storage
    if !accountState.isEmpty then b.setAccountState address accountState
    else b.removeAccount address
  | .delete address => b.removeAccount address

/-- `ExecutorContext::apply`: write every change, then account for the gas used. -/
def apply (cx : ExecutorContext) (values : List Apply) (usedGas : Nat) : Incomming :=
  let b := values.foldl applyOne cx.backend
  { b with usedGas := b.usedGas + usedGas }

/-- `Backend::exists`. -/
def accountExists (cx : ExecutorContext) (address : H160) : Bool :=
  (cx.backend.getAccountState address).isSome

/-- `Backend::basic`. -/
def basic (cx : ExecutorContext) (address : H160) : Basic :=
  let s := (cx.backend.getAccountState address).getD AccountState.default
  ⟨s.balance, s.nonce⟩

/-- `Backend::code`. -/
def code (cx : ExecutorContext) (address : H160) : Code :=
  ((cx.backend.getAccountState address).map (·.code)).getD []

/-- `Backend::storage`. -/
def storage (cx : ExecutorContext) (address : H160) (index : H256) : H256 :=
  (cx.backend.getStorage address index).getD 0

end ExecutorContext

/-! ### Runs across transactions and blocks -/

/-- What happens to the EVM state between reads: a batch of changes from one transaction,
or the end of the block (`commit_block` followed by `next_incomming`). -/
inductive BlockStep where
  | batch (values : List Apply) (usedGas : Nat)
  | commit

/-- The code's state after one step. -/
def BlockStep.run (b : Incomming) : BlockStep → Incomming
  | .batch values usedGas => ExecutorContext.apply ⟨b⟩ values usedGas
  | .commit => b.commitBlock.nextIncomming

/-! ### The reference model -/

/-- An account of the reference model: storage is a total map, absent slots read zero. -/
structure RefAccount where
  nonce : U256
  balance : U256
  code : Code
  storage : H256 → H256

/-- The reference state: a map from addresses to accounts. -/
abbrev RefState := H160 → Option RefAccount

/-- The reference reading of a trie. -/
def RefState.ofTrie (t : Trie) : RefState :=
  fun address => (t address).map fun a => ⟨a.nonce, a.balance, a.code, fun i => (a.storage i).getD 0⟩

/-- Write storage entries in order. -/
def RefState.writeAll (s : H256 → H256) : List (H256 × H256) → H256 → H256
  | [] => s
  | (k, v) :: rest => RefState.writeAll (Function.update s k v) rest

/-- `Apply` semantics on the reference state. -/
def RefState.applyOne (m : RefState) : Apply → RefState
  | .modify address basic code storage resetStorage =>
    let prev := m address
    let base : H256 → H256 :=
      if resetStorage then fun _ => 0 else (prev.map (·.storage)).getD fun _ => 0
    let account : RefAccount :=
      { nonce := basic.nonce, balance := basic.balance,
        code := code.getD ((prev.map (·.code)).getD []),
        storage := RefState.writeAll base storage }
    if account.nonce = 0 ∧ account.balance = 0 ∧ account.code = [] then
      Function.update m address none
    else Function.update m address (some account)
  | .delete address => Function.update m address none

/-- The reference state after one step; a commit changes nothing. -/
def RefState.step (m : RefState) : BlockStep → RefState
  | .batch values _ => values.foldl RefState.applyOne m
  | .commit => m

/-- The reference `Backend::storage`. -/
def RefState.storage (m : RefState) (address : H160) (index : H256) : H256 :=
  ((m address).map fun a => a.storage index).getD 0

/-! ### What `apply` does to storage reads -/

/-- `Apply::Delete` leaves every storage read of the overlay as it was: the removed entry
keeps its delta and the trie below still holds the account. -/
lemma applyOne_delete_getStorage (b : Incomming) (address address' : H160) (index : H256) :
    (ExecutorContext.applyOne b (.delete address)).getStorage address' index =
      b.getStorage address' index :=
  Incomming.getStorage_removeAccount b address address' index

/-- An `Apply::Modify` without storage entries leaves every storage read as it was, whatever
its `reset_storage` flag says. -/
theorem applyOne_modify_nil_getStorage (b : Incomming) (address : H160) (basic : Basic)
    (code : Option Code) (resetStorage : Bool) (address' : H160) (index : H256) :
    (ExecutorContext.applyOne b (.modify address basic code [] resetStorage)).getStorage
      address' index = b.getStorage address' index := by
  simp only [ExecutorContext.applyOne]
  split
  · rw [Incomming.getStorage_setAccountState, Incomming.getStorage_extStorage_nil]
  · rw [Incomming.getStorage_removeAccount, Incomming.getStorage_extStorage_nil]

/-- An account deleted by one transaction and re-created by the next, with `reset_storage`
set, still holds after the block is committed the slot it held before the deletion, where
the reference model reads zero. -/
theorem recreated_account_keeps_deleted_storage :
    let base : Trie := fun a =>
      if a = 1 then some ⟨1, 0, fun i => if i = 1 then some 7 else none, []⟩ else none
    let steps := [BlockStep.batch [.delete 1] 0, .batch [.modify 1 ⟨0, 1⟩ none [] true] 0, .commit]
    ExecutorContext.storage ⟨steps.foldl BlockStep.run ⟨base, fun _ => none, 0, []⟩⟩ 1 1 = 7 ∧
      (steps.foldl RefState.step (RefState.ofTrie base)).storage 1 1 = 0 := by
  decide

end VelasChain.Evm
