import Mathlib

/-!
# Recursive length prefix items

An RLP value is a byte string or a list of values. A type writes itself as one item
(`Encodable`) and reads itself back from one (`Decodable`); a struct is the list of its fields'
items, read back field by field at their index (`Rlp::val_at`). A codec round-trips on the values
it is given when it reads back every one it writes (`Codec.RoundTrip`), and a list of encoded
fields is read back field by field (`valAt_list`).

The layer of bytes (the headers and lengths of the wire format) is left out: items stand for
their encodings, and parsing the bytes of an item gives the item back, which is the byte layer's
own round trip.

Two codecs are given here with their round trips: byte strings, and `u8`, which writes zero as the
empty string and refuses strings of more than one byte (`u8_decode_of_one_lt_length`). Numbers and
bit vectors of a fixed number of bytes, most significant first, are the codec `fixedNat` and
`fixedBitVec`.
-/

namespace Rlp

/-- An RLP value: a byte string, or a list of values. -/
inductive Item where
  | data (bytes : List UInt8)
  | list (items : List Item)
  deriving Repr

/-- `DecoderError`, by the variants the decoders here return. -/
inductive DecoderError where
  | rlpIsTooBig
  | rlpIsTooShort
  | rlpExpectedToBeList
  | rlpExpectedToBeData
  | rlpInvalidLength
  | rlpInvalidIndirection
  deriving DecidableEq, Repr

namespace Item

/-- `Rlp::is_empty`: the empty string or the empty list. -/
def isEmpty : Item → Bool
  | data bytes => bytes.isEmpty
  | list items => items.isEmpty

/-- `Rlp::is_data`. -/
def isData : Item → Bool
  | data _ => true
  | list _ => false

/-- `Rlp::item_count`. -/
def itemCount : Item → Except DecoderError ℕ
  | data _ => .error .rlpExpectedToBeList
  | list items => .ok items.length

/-- `Rlp::at`: the item at `index` of a list. -/
def itemAt (item : Item) (index : ℕ) : Except DecoderError Item :=
  match item with
  | data _ => .error .rlpExpectedToBeList
  | list items =>
    match items[index]? with
    | some item => .ok item
    | none => .error .rlpIsTooShort

/-- `Rlp::decoder().decode_value`: the bytes of a string, read by `f`. -/
def decodeValue {α : Type} (item : Item) (f : List UInt8 → Except DecoderError α) :
    Except DecoderError α :=
  match item with
  | data bytes => f bytes
  | list _ => .error .rlpExpectedToBeData

end Item

/-- How a type is written as one item and read back. -/
structure Codec (α : Type) where
  encode : α → Item
  decode : Item → Except DecoderError α

namespace Codec

variable {α : Type}

/-- `Rlp::val_at`: the value at `index` of a list. -/
def valAt (c : Codec α) (item : Item) (index : ℕ) : Except DecoderError α :=
  item.itemAt index >>= c.decode

/-- The codec reads back every value satisfying `valid` that it writes. -/
def RoundTrip (c : Codec α) (valid : α → Prop) : Prop :=
  ∀ a, valid a → c.decode (c.encode a) = .ok a

lemma valAt_list (c : Codec α) {items : List Item} {index : ℕ} (h : index < items.length) :
    c.valAt (.list items) index = c.decode items[index] := by
  simp [valAt, Item.itemAt, List.getElem?_eq_getElem h, bind, Except.bind]

/-- A field written at its index of a list is read back there. -/
lemma valAt_list_encode (c : Codec α) {valid : α → Prop} (hc : c.RoundTrip valid) {a : α}
    (ha : valid a) {items : List Item} {index : ℕ} (h : index < items.length)
    (hitem : items[index] = c.encode a) : c.valAt (.list items) index = .ok a := by
  rw [c.valAt_list h, hitem, hc a ha]

end Codec

/-- Byte strings, `Vec<u8>` and `str`: the string of their bytes. -/
def bytes : Codec (List UInt8) where
  encode bytes := .data bytes
  decode item := item.decodeValue .ok

lemma bytes_roundTrip : bytes.RoundTrip fun _ => True := fun _ _ => rfl

/-- `u8`: zero is the empty string, any other byte the string of itself; a string of one zero
byte is refused as an indirection, and a longer one is too big. -/
def u8 : Codec UInt8 where
  encode b := .data (if b = 0 then [] else [b])
  decode item := item.decodeValue fun
    | [] => .ok 0
    | [b] => if b ≠ 0 then .ok b else .error .rlpInvalidIndirection
    | _ => .error .rlpIsTooBig

lemma u8_roundTrip : u8.RoundTrip fun _ => True := by
  intro b _
  by_cases hb : b = 0
  · simp [u8, hb, Item.decodeValue]
  · simp [u8, hb, Item.decodeValue]

/-- A string of more than one byte is not a `u8`. -/
lemma u8_decode_of_one_lt_length {bytes : List UInt8} (h : 1 < bytes.length) :
    u8.decode (.data bytes) = .error .rlpIsTooBig := by
  match bytes, h with
  | _ :: _ :: _, _ => rfl

/-! ### Values of a fixed number of bytes -/

/-- The `width` low bytes of `n`, most significant first. -/
def toBigEndian (width n : ℕ) : List UInt8 :=
  (List.range width).reverse.map fun i => UInt8.ofNat (n / 256 ^ i)

/-- The number the bytes spell, most significant first. -/
def ofBigEndian (bytes : List UInt8) : ℕ :=
  bytes.foldl (fun acc b => 256 * acc + b.toNat) 0

@[simp] lemma length_toBigEndian (width n : ℕ) : (toBigEndian width n).length = width := by
  simp [toBigEndian]

/-- Reading the bytes after a prefix worth `acc` shifts the prefix up by their width. -/
lemma foldl_toBigEndian (width n acc : ℕ) :
    (toBigEndian width n).foldl (fun acc b => 256 * acc + b.toNat) acc =
      acc * 256 ^ width + n % 256 ^ width := by
  induction width generalizing acc with
  | zero => simp [toBigEndian, Nat.mod_one]
  | succ width ih =>
    have hcons : toBigEndian (width + 1) n = UInt8.ofNat (n / 256 ^ width) :: toBigEndian width n := by
      simp [toBigEndian, List.range_succ]
    have hbyte : (UInt8.ofNat (n / 256 ^ width)).toNat = n / 256 ^ width % 256 :=
      UInt8.toNat_ofNat'
    rw [hcons, List.foldl_cons, ih, hbyte, Nat.mod_pow_succ, pow_succ]
    generalize n / 256 ^ width % 256 = byte
    ring

lemma ofBigEndian_toBigEndian (width n : ℕ) :
    ofBigEndian (toBigEndian width n) = n % 256 ^ width := by
  rw [ofBigEndian, foldl_toBigEndian, zero_mul, zero_add]

/-- The number in the string of its `width` bytes; shorter strings are too short and longer
ones too big. -/
def fixedNat (width : ℕ) : Codec ℕ where
  encode n := .data (toBigEndian width n)
  decode item := item.decodeValue fun bytes =>
    if bytes.length < width then .error .rlpIsTooShort
    else if bytes.length > width then .error .rlpIsTooBig
    else .ok (ofBigEndian bytes)

lemma fixedNat_roundTrip (width : ℕ) : (fixedNat width).RoundTrip (· < 256 ^ width) := by
  intro n hn
  simp [fixedNat, Item.decodeValue, ofBigEndian_toBigEndian, Nat.mod_eq_of_lt hn]

/-- A bit vector of `width` bytes in the string of its bytes, as the fixed hashes are. -/
def fixedBitVec (width : ℕ) : Codec (BitVec (8 * width)) where
  encode h := (fixedNat width).encode h.toNat
  decode item := (BitVec.ofNat (8 * width)) <$> (fixedNat width).decode item

lemma fixedBitVec_roundTrip (width : ℕ) : (fixedBitVec width).RoundTrip fun _ => True := by
  intro h _
  have hlt : h.toNat < 256 ^ width := by
    have := h.isLt
    rwa [pow_mul] at this
  simp only [fixedBitVec, fixedNat_roundTrip width h.toNat hlt]
  simp [Functor.map, Except.map]

lemma fixedBitVec_encode (width : ℕ) (h : BitVec (8 * width)) :
    ∃ bytes : List UInt8, bytes.length = width ∧ (fixedBitVec width).encode h = .data bytes :=
  ⟨_, length_toBigEndian width h.toNat, rfl⟩

end Rlp
