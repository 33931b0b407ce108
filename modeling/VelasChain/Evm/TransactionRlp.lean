import VelasChain.Evm.Executor
import VelasChain.Lib.Rlp
import Mathlib.Tactic.NormNum

/-!
# The RLP encodings of EVM transactions

`evm-state/src/transactions.rs` writes every transaction form as an RLP list of its fields. A
signed transaction is nine items, ending with its signature `v, r, s`; an unsigned one is six.
An unsigned transaction with its caller is eight items, the caller before the chain id, or, in
the signed-compatible form, nine: the chain id, the caller and the marker `0x1`.
`TransactionInReceipt::decode` tells the forms apart by the number of items and, at nine, by
whether item 8 reads as the `u8` marker.

The codecs of the field types are those of the `rlp` crate, taken as parameters
(`FieldCodecs`). What the encodings rely on of them is `FieldCodecs.Lawful`: each reads back
every value of its Rust type, an `H160` is not written as an empty item, and an `H256` is written
as the string of its 32 bytes. The codecs of byte strings and of `u8` are the crate's
(`Rlp.bytes`, `Rlp.u8`). Against lawful codecs every form decodes back to itself
(`rlp_decode_inverts_encode`): the `s` of a signature, 32 bytes, never reads as a `u8`, so no
signed transaction is taken for an unsigned one.
-/

namespace VelasChain.Evm

open Rlp (Codec DecoderError)

/-- The `rlp` codecs of the field types of a transaction: `U256` and `u64` numbers, and the fixed
hashes `H160` and `H256`. -/
structure FieldCodecs where
  u256 : Codec ℕ
  u64 : Codec ℕ
  h160 : Codec H160
  h256 : Codec H256

/-- What the transactions' encodings rely on of the `rlp` crate: its codecs read back every
value of the Rust type they write, an address is not written as an empty item (it is the string
of its 20 bytes), and a hash is written as the string of its 32 bytes. -/
structure FieldCodecs.Lawful (c : FieldCodecs) : Prop where
  u256 : c.u256.RoundTrip (· < 2 ^ 256)
  u64 : c.u64.RoundTrip (· < 2 ^ 64)
  h160 : c.h160.RoundTrip fun _ => True
  h256 : c.h256.RoundTrip fun _ => True
  h160_ne_empty : ∀ address, (c.h160.encode address).isEmpty = false
  h256_data : ∀ hash, ∃ bytes : List UInt8, bytes.length = 32 ∧ c.h256.encode hash = .data bytes

/-- `UNSIGNED_TX_MARKER`. -/
def unsignedTxMarker : UInt8 := 0x1

end VelasChain.Evm

namespace VelasChain.EvmLoader

open Evm (FieldCodecs)
open Rlp (Codec DecoderError)

variable (c : FieldCodecs)

namespace TransactionAction

/-- `Encodable for TransactionAction`: the address of a call, or the empty string. -/
def rlpAppend : TransactionAction → Rlp.Item
  | call address => c.h160.encode address
  | create => Rlp.bytes.encode []

/-- `Decodable for TransactionAction`. -/
def decode (rlp : Rlp.Item) : Except DecoderError TransactionAction :=
  if rlp.isEmpty then
    if rlp.isData then .ok .create else .error .rlpExpectedToBeData
  else .call <$> c.h160.decode rlp

/-- The codec `val_at` reads an action with. -/
def codec : Codec TransactionAction := ⟨rlpAppend c, decode c⟩

end TransactionAction

/-- The numbers of an unsigned transaction fit their `U256` fields. -/
structure UnsignedTransaction.FitsTypes (tx : UnsignedTransaction) : Prop where
  nonce : tx.nonce < 2 ^ 256
  gasPrice : tx.gasPrice < 2 ^ 256
  gasLimit : tx.gasLimit < 2 ^ 256
  value : tx.value < 2 ^ 256

/-- The numbers of a signed transaction fit their fields: `v` is a `u64`. -/
structure Transaction.FitsTypes (tx : Transaction) : Prop where
  unsigned : tx.unsigned.FitsTypes
  v : tx.signature.1 < 2 ^ 64

namespace UnsignedTransaction

/-- `Encodable for UnsignedTransaction`. -/
def rlpAppend (tx : UnsignedTransaction) : Rlp.Item :=
  .list [c.u256.encode tx.nonce, c.u256.encode tx.gasPrice, c.u256.encode tx.gasLimit,
    tx.action.rlpAppend c, c.u256.encode tx.value, Rlp.bytes.encode tx.input]

/-- `Decodable for UnsignedTransaction`. -/
def decode (rlp : Rlp.Item) : Except DecoderError UnsignedTransaction := do
  let nonce ← c.u256.valAt rlp 0
  let gasPrice ← c.u256.valAt rlp 1
  let gasLimit ← c.u256.valAt rlp 2
  let action ← (TransactionAction.codec c).valAt rlp 3
  let value ← c.u256.valAt rlp 4
  let input ← Rlp.bytes.valAt rlp 5
  pure ⟨nonce, gasPrice, gasLimit, action, value, input⟩

end UnsignedTransaction

namespace Transaction

/-- `Encodable for Transaction`. -/
def rlpAppend (tx : Transaction) : Rlp.Item :=
  .list [c.u256.encode tx.unsigned.nonce, c.u256.encode tx.unsigned.gasPrice,
    c.u256.encode tx.unsigned.gasLimit, tx.unsigned.action.rlpAppend c,
    c.u256.encode tx.unsigned.value, Rlp.bytes.encode tx.unsigned.input,
    c.u64.encode tx.signature.1, c.h256.encode tx.signature.2.1, c.h256.encode tx.signature.2.2]

/-- `Decodable for Transaction`. -/
def decode (rlp : Rlp.Item) : Except DecoderError Transaction := do
  let nonce ← c.u256.valAt rlp 0
  let gasPrice ← c.u256.valAt rlp 1
  let gasLimit ← c.u256.valAt rlp 2
  let action ← (TransactionAction.codec c).valAt rlp 3
  let value ← c.u256.valAt rlp 4
  let input ← Rlp.bytes.valAt rlp 5
  let v ← c.u64.valAt rlp 6
  let r ← c.h256.valAt rlp 7
  let s ← c.h256.valAt rlp 8
  pure ⟨⟨nonce, gasPrice, gasLimit, action, value, input⟩, (v, r, s)⟩

end Transaction

end VelasChain.EvmLoader

namespace VelasChain.Evm

open EvmLoader (TransactionAction UnsignedTransaction Transaction)
open Rlp (Codec DecoderError)

variable (c : FieldCodecs)

/-- The numbers of an unsigned transaction with its caller fit their fields: the chain id is a
`u64`. -/
structure UnsignedTransactionWithCaller.FitsTypes (tx : UnsignedTransactionWithCaller) : Prop where
  unsignedTx : tx.unsignedTx.FitsTypes
  chainId : tx.chainId < 2 ^ 64

/-- The numbers of a transaction of a receipt fit their fields. -/
def TransactionInReceipt.FitsTypes : TransactionInReceipt → Prop
  | .signed tx => tx.FitsTypes
  | .unsigned tx => tx.FitsTypes

namespace UnsignedTransactionWithCaller

/-- `Encodable for UnsignedTransactionWithCaller`: in the signed-compatible form the chain id and
the caller take the places of `v` and `r`, and the marker the place of `s`. -/
def rlpAppend (tx : UnsignedTransactionWithCaller) : Rlp.Item :=
  let chainId := tx.chainId
  if tx.signedCompatible then
    .list [c.u256.encode tx.unsignedTx.nonce, c.u256.encode tx.unsignedTx.gasPrice,
      c.u256.encode tx.unsignedTx.gasLimit, tx.unsignedTx.action.rlpAppend c,
      c.u256.encode tx.unsignedTx.value, Rlp.bytes.encode tx.unsignedTx.input,
      c.u64.encode chainId, c.h160.encode tx.caller, Rlp.u8.encode unsignedTxMarker]
  else
    .list [c.u256.encode tx.unsignedTx.nonce, c.u256.encode tx.unsignedTx.gasPrice,
      c.u256.encode tx.unsignedTx.gasLimit, tx.unsignedTx.action.rlpAppend c,
      c.u256.encode tx.unsignedTx.value, Rlp.bytes.encode tx.unsignedTx.input,
      c.h160.encode tx.caller, c.u64.encode chainId]

/-- `UnsignedTransactionWithCaller::decode`, told which form to read. -/
def decode (rlp : Rlp.Item) (signedCompatible : Bool) :
    Except DecoderError UnsignedTransactionWithCaller := do
  let nonce ← c.u256.valAt rlp 0
  let gasPrice ← c.u256.valAt rlp 1
  let gasLimit ← c.u256.valAt rlp 2
  let action ← (TransactionAction.codec c).valAt rlp 3
  let value ← c.u256.valAt rlp 4
  let input ← Rlp.bytes.valAt rlp 5
  if signedCompatible then
    let chainId ← c.u64.valAt rlp 6
    let caller ← c.h160.valAt rlp 7
    pure ⟨⟨nonce, gasPrice, gasLimit, action, value, input⟩, caller, chainId, signedCompatible⟩
  else
    let chainId ← c.u64.valAt rlp 7
    let caller ← c.h160.valAt rlp 6
    pure ⟨⟨nonce, gasPrice, gasLimit, action, value, input⟩, caller, chainId, signedCompatible⟩

end UnsignedTransactionWithCaller

namespace TransactionInReceipt

/-- `Encodable for TransactionInReceipt`: the transaction's own encoding. -/
def rlpAppend : TransactionInReceipt → Rlp.Item
  | .signed tx => tx.rlpAppend c
  | .unsigned tx => tx.rlpAppend c

/-- `Decodable for TransactionInReceipt`: eight items are an unsigned transaction; nine are a
signed-compatible unsigned one when item 8 reads as the `u8` value `0x1`, and a signed one
otherwise. -/
def decode (rlp : Rlp.Item) : Except DecoderError TransactionInReceipt := do
  let items ← rlp.itemCount
  match items with
  | 8 => .unsigned <$> UnsignedTransactionWithCaller.decode c rlp false
  | 9 =>
    match Rlp.u8.valAt rlp 8 with
    | .ok marker =>
      if marker = 0x1 then .unsigned <$> UnsignedTransactionWithCaller.decode c rlp true
      else .signed <$> Transaction.decode c rlp
    | .error _ => .signed <$> Transaction.decode c rlp
  | _ => .error .rlpInvalidLength

end TransactionInReceipt

end VelasChain.Evm

namespace VelasChain.EvmLoader

open Evm (FieldCodecs)
open Rlp (Codec DecoderError)

variable {c : FieldCodecs}

lemma TransactionAction.decode_rlpAppend (hc : c.Lawful) (action : TransactionAction) :
    TransactionAction.decode c (action.rlpAppend c) = .ok action := by
  cases action with
  | call address =>
    -- an address is never the empty string of a creation
    simp [TransactionAction.decode, TransactionAction.rlpAppend, hc.h160_ne_empty address,
      hc.h160 address trivial]
  | create => rfl

lemma UnsignedTransaction.decode_rlpAppend (hc : c.Lawful) (tx : UnsignedTransaction)
    (htx : tx.FitsTypes) : UnsignedTransaction.decode c (tx.rlpAppend c) = .ok tx := by
  simp [UnsignedTransaction.decode, UnsignedTransaction.rlpAppend, Codec.valAt_list,
    TransactionAction.codec, TransactionAction.decode_rlpAppend hc, hc.u256 _ htx.nonce,
    hc.u256 _ htx.gasPrice, hc.u256 _ htx.gasLimit, hc.u256 _ htx.value, Rlp.bytes,
    Rlp.Item.decodeValue, bind, Except.bind, pure, Except.pure]

lemma Transaction.decode_rlpAppend (hc : c.Lawful) (tx : Transaction) (htx : tx.FitsTypes) :
    Transaction.decode c (tx.rlpAppend c) = .ok tx := by
  obtain ⟨unsigned, v, r, s⟩ := tx
  obtain ⟨hunsigned, hv⟩ := htx
  simp [Transaction.decode, Transaction.rlpAppend, Codec.valAt_list, TransactionAction.codec,
    TransactionAction.decode_rlpAppend hc, hc.u256 _ hunsigned.nonce, hc.u256 _ hunsigned.gasPrice,
    hc.u256 _ hunsigned.gasLimit, hc.u256 _ hunsigned.value, hc.u64 _ hv, hc.h256 r trivial,
    hc.h256 s trivial, Rlp.bytes, Rlp.Item.decodeValue, bind, Except.bind, pure, Except.pure]

end VelasChain.EvmLoader

namespace VelasChain.Evm

open EvmLoader (TransactionAction UnsignedTransaction Transaction)
open Rlp (Codec DecoderError)

variable {c : FieldCodecs}

lemma UnsignedTransactionWithCaller.decode_rlpAppend (hc : c.Lawful)
    (tx : UnsignedTransactionWithCaller) (htx : tx.FitsTypes) :
    UnsignedTransactionWithCaller.decode c (tx.rlpAppend c) tx.signedCompatible = .ok tx := by
  obtain ⟨unsignedTx, caller, chainId, signedCompatible⟩ := tx
  obtain ⟨hunsigned, hchainId⟩ := htx
  cases signedCompatible <;>
    simp [UnsignedTransactionWithCaller.decode, UnsignedTransactionWithCaller.rlpAppend,
      Codec.valAt_list, TransactionAction.codec, EvmLoader.TransactionAction.decode_rlpAppend hc,
      hc.u256 _ hunsigned.nonce, hc.u256 _ hunsigned.gasPrice, hc.u256 _ hunsigned.gasLimit,
      hc.u256 _ hunsigned.value, hc.u64 _ hchainId, hc.h160 caller trivial, Rlp.bytes,
      Rlp.Item.decodeValue, bind, Except.bind, pure, Except.pure]

/-- The item 8 of a signed transaction, the 32 bytes of its `s`, does not read as a `u8`. -/
lemma u8_valAt_transaction (hc : c.Lawful) (tx : Transaction) :
    Rlp.u8.valAt (tx.rlpAppend c) 8 = .error .rlpIsTooBig := by
  obtain ⟨bytes, hlength, hencode⟩ := hc.h256_data tx.signature.2.2
  rw [Transaction.rlpAppend, Codec.valAt_list _ (by simp)]
  simp only [List.getElem_cons_succ, List.getElem_cons_zero, hencode]
  exact Rlp.u8_decode_of_one_lt_length (by omega)

/-- The item 8 of a signed-compatible unsigned transaction reads as the marker. -/
lemma u8_valAt_signedCompatible (tx : UnsignedTransactionWithCaller)
    (htx : tx.signedCompatible = true) :
    Rlp.u8.valAt (tx.rlpAppend c) 8 = .ok unsignedTxMarker := by
  rw [UnsignedTransactionWithCaller.rlpAppend, if_pos htx, Codec.valAt_list _ (by simp)]
  exact Rlp.u8_roundTrip _ trivial

lemma TransactionInReceipt.decode_rlpAppend (hc : c.Lawful) (tx : TransactionInReceipt)
    (htx : tx.FitsTypes) : TransactionInReceipt.decode c (tx.rlpAppend c) = .ok tx := by
  cases tx with
  | signed tx =>
    -- nine items, and item 8 is not the marker
    have hcount : (tx.rlpAppend c).itemCount = .ok 9 := rfl
    simp only [TransactionInReceipt.decode, TransactionInReceipt.rlpAppend, hcount,
      u8_valAt_transaction hc, Transaction.decode_rlpAppend hc tx htx]
    rfl
  | unsigned tx =>
    cases hcompatible : tx.signedCompatible
    · -- eight items
      have hcount : (tx.rlpAppend c).itemCount = .ok 8 := by
        simp [UnsignedTransactionWithCaller.rlpAppend, hcompatible, Rlp.Item.itemCount]
      have hdecode := UnsignedTransactionWithCaller.decode_rlpAppend hc tx htx
      rw [hcompatible] at hdecode
      simp only [TransactionInReceipt.decode, TransactionInReceipt.rlpAppend, hcount, hdecode]
      rfl
    · -- nine items, the last of them the marker
      have hcount : (tx.rlpAppend c).itemCount = .ok 9 := by
        simp [UnsignedTransactionWithCaller.rlpAppend, hcompatible, Rlp.Item.itemCount]
      have hdecode := UnsignedTransactionWithCaller.decode_rlpAppend hc tx htx
      rw [hcompatible] at hdecode
      simp only [TransactionInReceipt.decode, TransactionInReceipt.rlpAppend, hcount,
        u8_valAt_signedCompatible tx hcompatible, hdecode]
      rfl

theorem rlp_decode_inverts_encode (c : FieldCodecs) (hc : c.Lawful) :
    (∀ tx : UnsignedTransaction, tx.FitsTypes →
        UnsignedTransaction.decode c (tx.rlpAppend c) = .ok tx) ∧
      (∀ tx : Transaction, tx.FitsTypes → Transaction.decode c (tx.rlpAppend c) = .ok tx) ∧
      (∀ tx : UnsignedTransactionWithCaller, tx.FitsTypes →
        UnsignedTransactionWithCaller.decode c (tx.rlpAppend c) tx.signedCompatible = .ok tx) ∧
      ∀ tx : TransactionInReceipt, tx.FitsTypes →
        TransactionInReceipt.decode c (tx.rlpAppend c) = .ok tx :=
  ⟨EvmLoader.UnsignedTransaction.decode_rlpAppend hc, EvmLoader.Transaction.decode_rlpAppend hc,
    UnsignedTransactionWithCaller.decode_rlpAppend hc, TransactionInReceipt.decode_rlpAppend hc⟩

/-- Codecs that meet what the encodings rely on: numbers in 32 and 8 bytes, and the hashes in
the strings of their bytes. -/
def fixedWidthCodecs : FieldCodecs :=
  ⟨Rlp.fixedNat 32, Rlp.fixedNat 8, Rlp.fixedBitVec 20, Rlp.fixedBitVec 32⟩

lemma fixedWidthCodecs_lawful : fixedWidthCodecs.Lawful where
  u256 n hn := Rlp.fixedNat_roundTrip 32 n (hn.trans_eq (by norm_num))
  u64 n hn := Rlp.fixedNat_roundTrip 8 n (hn.trans_eq (by norm_num))
  h160 := Rlp.fixedBitVec_roundTrip 20
  h256 := Rlp.fixedBitVec_roundTrip 32
  h160_ne_empty address := by
    obtain ⟨bytes, hlength, hencode⟩ := Rlp.fixedBitVec_encode 20 address
    rw [show fixedWidthCodecs.h160 = Rlp.fixedBitVec 20 from rfl, hencode, Rlp.Item.isEmpty,
      List.isEmpty_eq_false_iff, ← List.length_pos_iff, hlength]
    decide
  h256_data := Rlp.fixedBitVec_encode 32

theorem rlp_round_trips_with_fixed_width_codecs :
    fixedWidthCodecs.Lawful ∧
      ((∀ tx : UnsignedTransaction, tx.FitsTypes →
          UnsignedTransaction.decode fixedWidthCodecs (tx.rlpAppend fixedWidthCodecs) = .ok tx) ∧
        (∀ tx : Transaction, tx.FitsTypes →
          Transaction.decode fixedWidthCodecs (tx.rlpAppend fixedWidthCodecs) = .ok tx) ∧
        (∀ tx : UnsignedTransactionWithCaller, tx.FitsTypes →
          UnsignedTransactionWithCaller.decode fixedWidthCodecs (tx.rlpAppend fixedWidthCodecs)
            tx.signedCompatible = .ok tx) ∧
        ∀ tx : TransactionInReceipt, tx.FitsTypes →
          TransactionInReceipt.decode fixedWidthCodecs (tx.rlpAppend fixedWidthCodecs) = .ok tx) :=
  ⟨fixedWidthCodecs_lawful, rlp_decode_inverts_encode fixedWidthCodecs fixedWidthCodecs_lawful⟩

/-- A signed transaction whose `s` is 1 is still read as signed: its `s` is 32 bytes, not the
one byte of the marker. -/
example : Rlp.u8.valAt ((TransactionInReceipt.signed
    ⟨⟨0, 1, 21000, .create, 0, []⟩, (37, 1, 1)⟩).rlpAppend fixedWidthCodecs) 8 =
      .error .rlpIsTooBig := rfl

end VelasChain.Evm
