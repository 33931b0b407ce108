import VelasChain.Evm.State
import VelasChain.Lib.Window

/-!
# The EVM block hashes behind `BLOCKHASH`

Each bank carries `evm_blockhashes` (`BlockHashEvm`), the hashes of the last 256 committed EVM
blocks, oldest first, and its EVM state: the `Incomming` block being built or the `Committed`
block it closed. A child bank starts from `EvmState::new_from_parent`, which opens block `n + 1`
over a committed block `n` and keeps an incoming block with no changes as it is, and from a copy
of the parent's hashes. At freeze, `Bank::commit_evm` commits the block if it has changes and
shifts its hash into the queue (`BlockHashEvm::insert_hash`). `ExecutorContext::block_hash`
answers `BLOCKHASH` from the queue of the bank the transaction runs in.

Only the numbering of the EVM state is modelled here: the block number, the version, whether
the incoming block has changes (`is_active_changes`), and the hash of a committed header, which a
run takes as given. The accounts of a block are `Evm.State`'s.

The queue of a frozen bank is the window of the last 256 committed hashes, and committed blocks
are numbered on by one (`Frozen`, `Descends.frozen`). So in the next block `B`, of the version
with consistent hashes, `block_hash n` is the hash of the committed block `n` for
`B - 256 ≤ n < B` and zero everywhere else (`block_hash_reads_committed_hashes`).
-/

namespace VelasChain.Evm

/-- `BlockVersion`. -/
inductive BlockVersion where
  | initVersion
  | versionConsistentHashes
  deriving DecidableEq, Repr

/-- `BlockVersion::activate_spv_compatibility`: a later version stays. -/
def BlockVersion.activateSpvCompatibility (v : BlockVersion) : BlockVersion :=
  if v = .initVersion then .versionConsistentHashes else v

/-- The numbering part of `EvmState`. -/
inductive EvmState where
  | committed (blockNumber : ℕ) (version : BlockVersion) (hash : H256)
  | incomming (blockNumber : ℕ) (version : BlockVersion) (activeChanges : Bool)
  deriving DecidableEq, Repr

namespace EvmState

/-- `EvmState::new_from_parent`: `Committed::next_incomming` opens the next block with no
changes, `Incomming::new_update_time` keeps the block; then the version may be upgraded. -/
def newFromParent (spvCompatibility : Bool) : EvmState → EvmState
  | .committed blockNumber version _ =>
    .incomming (blockNumber + 1)
      (if spvCompatibility then version.activateSpvCompatibility else version) false
  | .incomming blockNumber version activeChanges =>
    .incomming blockNumber
      (if spvCompatibility then version.activateSpvCompatibility else version) activeChanges

/-- The bank's EVM transactions, seen through `is_active_changes`: an execution that writes to
the overlay, records a receipt or uses gas leaves the block with changes, and none clears them. -/
def execute (changed : Bool) : EvmState → EvmState
  | .incomming blockNumber version activeChanges =>
    .incomming blockNumber version (activeChanges || changed)
  | s => s

/-- `EvmState::try_commit`, given the hash of the header it would build: the committed block's
hash if the block had changes, or `none` where it fails on a committed state. -/
def tryCommit (hash : H256) : EvmState → Option (Option H256 × EvmState)
  | .committed .. => none
  | .incomming blockNumber version activeChanges =>
    if activeChanges then some (some hash, .committed blockNumber version hash)
    else some (none, .incomming blockNumber version activeChanges)

/-- The number and hash of a committed block. -/
def committedBlock : EvmState → Option (ℕ × H256)
  | .committed blockNumber _ hash => some (blockNumber, hash)
  | .incomming .. => none

/-- The number the next committed block gets. -/
def nextBlockNumber : EvmState → ℕ
  | .committed blockNumber _ _ => blockNumber + 1
  | .incomming blockNumber _ _ => blockNumber

/-- An incoming block holds no changes. -/
def NoChanges (s : EvmState) : Prop := ∀ n v a, s = .incomming n v a → a = false

end EvmState

/-- `MAX_EVM_BLOCKHASHES`. -/
def maxEvmBlockhashes : ℕ := 256

/-- `BlockHashEvm`. -/
structure BlockHashEvm where
  hashes : Fin maxEvmBlockhashes → H256

/-- `BlockHashEvm::new`. -/
def BlockHashEvm.new : BlockHashEvm := ⟨fun _ => 0⟩

/-- `BlockHashEvm::insert_hash`: copy the hashes one place towards the front, then write the new
one last. -/
def BlockHashEvm.insertHash (self : BlockHashEvm) (hash : H256) : BlockHashEvm :=
  ⟨Window.shiftIn self.hashes hash⟩

/-- The EVM part of a bank. -/
structure Bank where
  evmState : EvmState
  evmBlockhashes : BlockHashEvm

namespace Bank

/-- `Bank::commit_evm`, given the hash of the header `try_commit` would build; `none` where
`try_commit` fails, which panics. -/
def commitEvm (hash : H256) (bank : Bank) : Option Bank :=
  match bank.evmState.tryCommit hash with
  | none => none
  | some (some lastHash, evmState) => some ⟨evmState, bank.evmBlockhashes.insertHash lastHash⟩
  | some (none, evmState) => some { bank with evmState }

/-- A child bank up to its freeze: the EVM state from `new_from_parent`, a copy of the parent's
hashes, the bank's transactions, and `commit_evm`. -/
def child (parent : Bank) (spvCompatibility changed : Bool) (hash : H256) : Option Bank :=
  commitEvm hash
    ⟨(parent.evmState.newFromParent spvCompatibility).execute changed, parent.evmBlockhashes⟩

end Bank

/-- `ExecutorContext::block_hash`, for a backend at block `currentBlock` of version `version` and
a chain context holding `lastHashes`. -/
def blockHash (currentBlock : ℕ) (version : BlockVersion)
    (lastHashes : Fin maxEvmBlockhashes → H256) (number : ℕ) : H256 :=
  if h : currentBlock ≤ number ∨ maxEvmBlockhashes ≤ currentBlock - number - 1 then 0
  else if version = .versionConsistentHashes then
    -- of the two versions, only this one is `>= VersionConsistentHashes`
    lastHashes ⟨maxEvmBlockhashes - (currentBlock - number), by omega⟩
  else lastHashes ⟨currentBlock - number - 1, by omega⟩

/-! ### Frozen banks -/

lemma EvmState.newFromParent_of_noChanges {s : EvmState} (h : s.NoChanges)
    (spvCompatibility : Bool) :
    ∃ v, s.newFromParent spvCompatibility = .incomming s.nextBlockNumber v false := by
  cases s with
  | committed n v _ => exact ⟨_, rfl⟩
  | incomming n v a =>
    obtain rfl := h n v a rfl
    exact ⟨_, rfl⟩

lemma Bank.commitEvm_incomming (hash : H256) (n : ℕ) (v : BlockVersion) (changed : Bool)
    (q : BlockHashEvm) :
    commitEvm hash ⟨.incomming n v changed, q⟩ =
      some (if changed then ⟨.committed n v hash, q.insertHash hash⟩ else ⟨.incomming n v false, q⟩) := by
  cases changed <;> rfl

/-- A child of a bank with no pending changes commits the next block exactly when its
transactions changed the state. -/
lemma Bank.child_eq {parent : Bank} (h : parent.evmState.NoChanges)
    (spvCompatibility changed : Bool) (hash : H256) :
    ∃ v, parent.child spvCompatibility changed hash =
      some (if changed then
          ⟨.committed parent.evmState.nextBlockNumber v hash, parent.evmBlockhashes.insertHash hash⟩
        else ⟨.incomming parent.evmState.nextBlockNumber v false, parent.evmBlockhashes⟩) := by
  obtain ⟨v, hv⟩ := EvmState.newFromParent_of_noChanges h spvCompatibility
  exact ⟨v, by rw [child, hv, EvmState.execute, Bool.false_or, commitEvm_incomming]⟩

/-- A frozen bank after the blocks `blocks` were committed from block `first` on: they are
numbered on by one, the next block follows the last, an incoming block holds no changes, and the
queue is the window of their hashes. -/
structure Frozen (first : ℕ) (bank : Bank) (blocks : List (ℕ × H256)) : Prop where
  numbers : blocks.map Prod.fst = List.range' first blocks.length
  nextBlockNumber_eq : bank.evmState.nextBlockNumber = first + blocks.length
  noChanges : bank.evmState.NoChanges
  hashes_eq : bank.evmBlockhashes.hashes = Window.window maxEvmBlockhashes (blocks.map Prod.snd)

/-- The genesis bank of the EVM: block `first` with no changes, and no hashes. -/
def Bank.genesis (first : ℕ) (version : BlockVersion) : Bank :=
  ⟨.incomming first version false, BlockHashEvm.new⟩

/-- The banks of a chain from `genesis`, with the blocks they committed, oldest first. -/
inductive Descends (genesis : Bank) : Bank → List (ℕ × H256) → Prop where
  | refl : Descends genesis genesis []
  | child {parent bank : Bank} {blocks : List (ℕ × H256)} (spvCompatibility changed : Bool)
      (hash : H256) : Descends genesis parent blocks →
      parent.child spvCompatibility changed hash = some bank →
      Descends genesis bank (blocks ++ bank.evmState.committedBlock.toList)

section Frozen

variable {first : ℕ} {bank parent : Bank} {blocks : List (ℕ × H256)}

lemma frozen_genesis (version : BlockVersion) : Frozen first (Bank.genesis first version) [] where
  numbers := rfl
  nextBlockNumber_eq := rfl
  noChanges _ _ _ h := by cases h; rfl
  hashes_eq := Window.window_nil.symm

/-- A child bank keeps a chain frozen, with the block it committed, if any, appended. -/
lemma Frozen.child (hf : Frozen first parent blocks) {spvCompatibility changed : Bool}
    {hash : H256} (h : parent.child spvCompatibility changed hash = some bank) :
    Frozen first bank (blocks ++ bank.evmState.committedBlock.toList) := by
  obtain ⟨v, hchild⟩ := Bank.child_eq hf.noChanges spvCompatibility changed hash
  rw [hchild, Option.some.injEq] at h
  subst h
  have hnext := hf.nextBlockNumber_eq
  cases changed with
  | false =>
    simp only [Bool.false_eq_true, if_false, EvmState.committedBlock, Option.toList_none,
      List.append_nil]
    exact ⟨hf.numbers, hnext, fun _ _ _ h => (by cases h; rfl), hf.hashes_eq⟩
  | true =>
    simp only [if_true, EvmState.committedBlock, Option.toList_some]
    refine ⟨?_, ?_, fun _ _ _ h => (by cases h), ?_⟩
    · rw [List.map_append, hf.numbers, List.length_append, List.length_singleton,
        List.range'_1_concat, hnext]
      rfl
    · rw [List.length_append, List.length_singleton]
      show parent.evmState.nextBlockNumber + 1 = _
      omega
    · rw [List.map_append, List.map_singleton, ← Window.shiftIn_window, ← hf.hashes_eq]
      rfl

/-- Every bank of a chain from the genesis bank is frozen. -/
lemma Descends.frozen {version : BlockVersion}
    (hd : Descends (Bank.genesis first version) bank blocks) : Frozen first bank blocks := by
  induction hd with
  | refl => exact frozen_genesis version
  | child _ _ _ _ h ih => exact ih.child h

end Frozen

/-! ### `BLOCKHASH` -/

/-- Over the window of hashes numbered on by one up to block `B - 1`, `block_hash n` is the hash
numbered `n` within 256 blocks before `B`, and zero elsewhere. -/
lemma blockHash_window {first B : ℕ} {blocks : List (ℕ × H256)}
    (hnumbers : blocks.map Prod.fst = List.range' first blocks.length)
    (hB : B = first + blocks.length) (n : ℕ) :
    blockHash B .versionConsistentHashes (Window.window maxEvmBlockhashes (blocks.map Prod.snd)) n =
      if n < B ∧ B ≤ n + maxEvmBlockhashes then (blocks.lookup n).getD 0 else 0 := by
  unfold blockHash
  by_cases hin : n < B ∧ B ≤ n + maxEvmBlockhashes
  · rw [dif_neg (by omega), if_pos rfl, if_pos hin]
    -- the cell `B - n - 1` places before the last one
    rw [show (⟨maxEvmBlockhashes - (B - n), _⟩ : Fin maxEvmBlockhashes) =
        ⟨maxEvmBlockhashes - 1 - (B - n - 1), by omega⟩ from Fin.ext (by dsimp only; omega),
      Window.window_sub _ (by omega)]
    by_cases hn : first ≤ n
    · rw [Window.lookup_of_le hnumbers hn, List.getD_reverse _ (by simp; omega),
        List.getD_eq_getElem?_getD, List.length_map]
      congr 2
      omega
    · rw [Window.lookup_of_lt hnumbers (by omega), Option.getD_none,
        List.getD_eq_default _ _ (by simp; omega)]
  · rw [dif_pos (by omega), if_neg hin]

theorem block_hash_reads_committed_hashes (first : ℕ) (version : BlockVersion) (bank : Bank)
    (blocks : List (ℕ × H256)) (hrun : Descends (Bank.genesis first version) bank blocks)
    (spvCompatibility activeChanges : Bool) (B : ℕ)
    (hnext : bank.evmState.newFromParent spvCompatibility =
      .incomming B .versionConsistentHashes activeChanges) :
    blocks.map Prod.fst = List.range' first blocks.length ∧ B = first + blocks.length ∧
      ∀ n, blockHash B .versionConsistentHashes bank.evmBlockhashes.hashes n =
        if n < B ∧ B ≤ n + maxEvmBlockhashes then (blocks.lookup n).getD 0 else 0 := by
  have hf := hrun.frozen
  have hB : B = first + blocks.length := by
    obtain ⟨v, hv⟩ := EvmState.newFromParent_of_noChanges hf.noChanges spvCompatibility
    rw [hv, EvmState.incomming.injEq] at hnext
    rw [← hnext.1, hf.nextBlockNumber_eq]
  refine ⟨hf.numbers, hB, fun n => ?_⟩
  rw [hf.hashes_eq]
  exact blockHash_window hf.numbers hB n

/-- A chain that commits one block, numbered 0 with hash 5: in block 1, `BLOCKHASH 0` is 5. -/
theorem block_hash_after_one_block :
    Descends (Bank.genesis 0 .versionConsistentHashes)
        ⟨.committed 0 .versionConsistentHashes 5, BlockHashEvm.new.insertHash 5⟩ [(0, 5)] ∧
      (EvmState.committed 0 .versionConsistentHashes 5).newFromParent false =
        .incomming 1 .versionConsistentHashes false ∧
      ([(0, 5)] : List (ℕ × H256)).map Prod.fst = List.range' 0 1 ∧ 1 = 0 + 1 ∧
      ∀ n, blockHash 1 .versionConsistentHashes (BlockHashEvm.new.insertHash 5).hashes n =
        if n < 1 ∧ 1 ≤ n + maxEvmBlockhashes then (([(0, 5)] : List (ℕ × H256)).lookup n).getD 0
        else 0 := by
  have hrun : Descends (Bank.genesis 0 .versionConsistentHashes)
      ⟨.committed 0 .versionConsistentHashes 5, BlockHashEvm.new.insertHash 5⟩ [(0, 5)] :=
    .child false true 5 .refl rfl
  exact ⟨hrun, rfl, block_hash_reads_committed_hashes 0 _ _ _ hrun false false 1 rfl⟩

end VelasChain.Evm
