import Mathlib

/-!
# Transaction chunks

A transaction too large for one instruction is written into the data of a storage account in
chunks: `EvmTransactionAllocate` zeroes the data, which must already have the transaction's
size, and each `EvmTransactionWrite` copies a chunk at an offset. `ExecuteTransaction` without
a transaction then reads the whole data back (`take`).

The main fact is the round trip the client relies on: allocating and then writing the chunks of
a byte string at their running offsets leaves exactly that byte string in the storage.
-/

namespace VelasChain.EvmLoader.TxChunks

/-- `tx_chunks::Error`. -/
inductive Error where
  | mismatchedSizes (actual expected : ℕ)
  | outOfBound (dataSize attempt : ℕ)
  deriving DecidableEq, Repr

/-- `TxChunks::init`: the size must be the length of the data, which is zeroed. -/
def init (bytes : List UInt8) (size : ℕ) : Except Error (List UInt8) :=
  if size = bytes.length then .ok (List.replicate bytes.length 0)
  else .error (.mismatchedSizes bytes.length size)

/-- `TxChunks::push`: copy a chunk at an offset; `saturating_add` cannot wrap on a length, so
the sum is exact. -/
def push (bytes : List UInt8) (offset : ℕ) (data : List UInt8) : Except Error (List UInt8) :=
  if offset + data.length ≤ bytes.length then
    .ok (bytes.take offset ++ data ++ bytes.drop (offset + data.length))
  else .error (.outOfBound bytes.length (offset + data.length))

/-- The writes of a client: each chunk at the offset where the previous one ended. -/
def pushAll (bytes : List UInt8) (offset : ℕ) : List (List UInt8) → Except Error (List UInt8)
  | [] => .ok bytes
  | chunk :: chunks => do
    let bytes ← push bytes offset chunk
    pushAll bytes (offset + chunk.length) chunks

lemma init_length {bytes bytes' : List UInt8} {size : ℕ} (h : init bytes size = .ok bytes') :
    bytes'.length = bytes.length := by
  unfold init at h
  split at h <;> cases h
  simp

lemma push_eq_ok {bytes : List UInt8} {offset : ℕ} {data : List UInt8}
    (h : offset + data.length ≤ bytes.length) :
    push bytes offset data = .ok (bytes.take offset ++ data ++ bytes.drop (offset + data.length)) :=
  if_pos h

lemma push_length {bytes bytes' : List UInt8} {offset : ℕ} {data : List UInt8}
    (h : push bytes offset data = .ok bytes') : bytes'.length = bytes.length := by
  unfold push at h
  split at h
  · cases h
    simp only [List.length_append, List.length_take, List.length_drop]
    omega
  · cases h

/-- Writing chunks that fit from an offset replaces that part of the data by their
concatenation. The induction is on the chunks, the offset moving past each one. -/
theorem pushAll_eq_ok (chunks : List (List UInt8)) :
    ∀ (bytes : List UInt8) (offset : ℕ), offset + chunks.flatten.length ≤ bytes.length →
      pushAll bytes offset chunks =
        .ok (bytes.take offset ++ chunks.flatten ++ bytes.drop (offset + chunks.flatten.length)) := by
  induction chunks with
  | nil =>
    intro bytes offset _
    simp [pushAll]
  | cons chunk chunks ih =>
    intro bytes offset hfit
    simp only [List.flatten_cons, List.length_append] at hfit ⊢
    have hpush : offset + chunk.length ≤ bytes.length := by omega
    let bytes' := bytes.take offset ++ chunk ++ bytes.drop (offset + chunk.length)
    have hlen : bytes'.length = bytes.length := push_length (push_eq_ok hpush)
    have hrest : offset + chunk.length + chunks.flatten.length ≤ bytes'.length := by omega
    -- after the first chunk, the prefix up to the new offset is the old prefix and the chunk
    have hA : (bytes.take offset ++ chunk).length = offset + chunk.length := by
      simp only [List.length_append, List.length_take]
      omega
    have htake : bytes'.take (offset + chunk.length) = bytes.take offset ++ chunk :=
      List.take_left' hA
    have hdrop : bytes'.drop (offset + chunk.length + chunks.flatten.length) =
        bytes.drop (offset + (chunk.length + chunks.flatten.length)) := by
      rw [← List.drop_drop, List.drop_left' hA, List.drop_drop, Nat.add_assoc]
    simp only [pushAll, push_eq_ok hpush, bind, Except.bind]
    rw [ih bytes' _ hrest, htake, hdrop]
    simp

/-- The round trip of a big transaction: once data of the right size is allocated, writing the
chunks of a byte string in order leaves that byte string. -/
theorem init_pushAll (storage : List UInt8) (chunks : List (List UInt8))
    (hsize : storage.length = chunks.flatten.length) :
    (init storage chunks.flatten.length >>= fun zeroed => pushAll zeroed 0 chunks) =
      .ok chunks.flatten := by
  have hinit : init storage chunks.flatten.length =
      .ok (List.replicate storage.length 0) := if_pos hsize.symm
  rw [hinit]
  show pushAll _ 0 chunks = _
  rw [pushAll_eq_ok chunks _ 0 (by simp [hsize])]
  simp [hsize]

end VelasChain.EvmLoader.TxChunks
