import VelasChain.Lib.FiniteMap
import VelasChain.Runtime.BankEvm
import Mathlib.Data.Finset.Max

/-!
# The status cache

`StatusCache` records, per blockhash, the statuses of the transactions committed with that
blockhash: a key (a message hash or a signature) is cut down to the 20 bytes at an offset
chosen at random at the first insert under the blockhash, and each slice maps to the slots
it was inserted at, with their statuses. Next to it the cache keeps, per slot, what that slot
inserted (`slot_deltas`), from which a snapshot is written and a dead slot is cleared.

Hash maps are association lists; the random offset chosen at the first insert under a
blockhash is an argument of `insert`.
-/

namespace VelasChain.Runtime

abbrev Slot := ℕ

abbrev Hash := BitVec 256

/-- `CACHED_KEY_SIZE`. -/
def cachedKeySize : ℕ := 20

/-- `MAX_CACHE_ENTRIES`, which is `MAX_RECENT_BLOCKHASHES`. -/
def maxCacheEntries : ℕ := 300

abbrev KeySlice := List UInt8

abbrev ForkStatus (T : Type) := List (Slot × T)

abbrev KeyMap (T : Type) := AList fun _ : KeySlice => ForkStatus T

/-- `Status<T>`: per blockhash, the key index and the slices inserted with their statuses. -/
abbrev Status (T : Type) := AList fun _ : Hash => ℕ × List (KeySlice × T)

/-- `KeyStatusMap<T>`: per blockhash, the largest slot it was inserted at, the key index and
the slices. -/
abbrev KeyStatusMap (T : Type) := AList fun _ : Hash => Slot × ℕ × KeyMap T

abbrev SlotDelta (T : Type) := Slot × Bool × Status T

structure StatusCache (T : Type) where
  cache : KeyStatusMap T
  roots : Finset Slot
  slotDeltas : AList fun _ : Slot => Status T

namespace StatusCache

variable {T : Type}

/-- `StatusCache::default`: slot 0 is always a root. -/
def default : StatusCache T := ⟨∅, {0}, ∅⟩

/-- The slice of a key at an index; keys shorter than `CACHED_KEY_SIZE` bytes, on which the
slicing panics, are not modelled. -/
def keySliceAt (key : List UInt8) (index : ℕ) : KeySlice := (key.drop index).take cachedKeySize

/-- The largest index at which a key of this length still has a slice, less one. -/
def maxKeyIndex (key : List UInt8) : ℕ := key.length - (cachedKeySize + 1)

/-- `insert_with_slice`. -/
def insertWithSlice (sc : StatusCache T) (transactionBlockhash : Hash) (slot : Slot)
    (keyIndex : ℕ) (keySlice : KeySlice) (res : T) : StatusCache T :=
  let (maxSlot, index, keyMap) :=
    (sc.cache.lookup transactionBlockhash).getD (slot, keyIndex, ∅)
  let forks := (keyMap.lookup keySlice).getD []
  let keyMap := keyMap.insert keySlice (forks ++ [(slot, res)])
  let cache := sc.cache.insert transactionBlockhash (max slot maxSlot, index, keyMap)
  let status := (sc.slotDeltas.lookup slot).getD ∅
  let (statusIndex, hashEntry) := (status.lookup transactionBlockhash).getD (keyIndex, [])
  let status := status.insert transactionBlockhash (statusIndex, hashEntry ++ [(keySlice, res)])
  { sc with cache, slotDeltas := sc.slotDeltas.insert slot status }

/-- `insert`; `randomIndex` is what `thread_rng().gen_range(0, max_key_index + 1)` returns
when the blockhash is new. -/
def insert (sc : StatusCache T) (transactionBlockhash : Hash) (key : List UInt8) (slot : Slot)
    (res : T) (randomIndex : ℕ) : StatusCache T :=
  let (maxSlot, keyIndex, keyMap) :=
    (sc.cache.lookup transactionBlockhash).getD (slot, randomIndex, ∅)
  let sc := { sc with
    cache := sc.cache.insert transactionBlockhash (max slot maxSlot, keyIndex, keyMap) }
  let keyIndex := min keyIndex (maxKeyIndex key)
  sc.insertWithSlice transactionBlockhash slot keyIndex (keySliceAt key keyIndex) res

/-- `get_status`: the first slot the key's slice was inserted at that is an ancestor or a
root. -/
def getStatus (sc : StatusCache T) (key : List UInt8) (transactionBlockhash : Hash)
    (ancestors : Finset Slot) : Option (Slot × T) := do
  let (_, index, keyMap) ← sc.cache.lookup transactionBlockhash
  let index := min index (maxKeyIndex key)
  let storedForks ← keyMap.lookup (keySliceAt key index)
  storedForks.find? fun (f, _) => decide (f ∈ ancestors ∨ f ∈ sc.roots)

/-- `purge_roots`: past `MAX_CACHE_ENTRIES` roots, the oldest root goes, with every blockhash
last inserted at or before it and every slot's record up to it. -/
def purgeRoots (sc : StatusCache T) : StatusCache T :=
  if h : sc.roots.card > maxCacheEntries then
    let min := sc.roots.min' (Finset.card_pos.mp (Nat.lt_of_le_of_lt (Nat.zero_le _) h))
    { roots := sc.roots.erase min,
      cache := sc.cache.retain fun _ (fork, _, _) => decide (fork > min),
      slotDeltas := sc.slotDeltas.retain fun slot _ => decide (slot > min) }
  else sc

/-- `add_root`. -/
def addRoot (sc : StatusCache T) (fork : Slot) : StatusCache T :=
  { sc with roots := Insert.insert fork sc.roots }.purgeRoots

/-- The loop of `clear_slot_entries` over the slices one blockhash inserted in the slot;
`none` is the panic "Map for key must exist if key exists in self.slot_deltas". -/
def clearKeys (slot : Slot) (allHashMaps : KeyMap T) : List (KeySlice × T) → Option (KeyMap T)
  | [] => some allHashMaps
  | (keySlice, _) :: rest =>
    match allHashMaps.lookup keySlice with
    | some keyList =>
      let keyList := keyList.filter fun (updatedSlot, _) => updatedSlot ≠ slot
      let allHashMaps :=
        if keyList.isEmpty then allHashMaps.erase keySlice
        else allHashMaps.insert keySlice keyList
      clearKeys slot allHashMaps rest
    | none => none

/-- One blockhash of `clear_slot_entries`; `none` is the panic "Blockhash must exist if it
exists in self.slot_deltas". -/
def clearBlockhash (slot : Slot) (sc : StatusCache T) (blockhash : Hash)
    (keyList : List (KeySlice × T)) : Option (StatusCache T) :=
  match sc.cache.lookup blockhash with
  | some (maxSlot, keyIndex, allHashMaps) => do
    let allHashMaps ← clearKeys slot allHashMaps keyList
    if allHashMaps.entries.isEmpty then some { sc with cache := sc.cache.erase blockhash }
    else some { sc with cache := sc.cache.insert blockhash (maxSlot, keyIndex, allHashMaps) }
  | none => none

/-- `clear_slot_entries`; `none` is a panic. -/
def clearSlotEntries (sc : StatusCache T) (slot : Slot) : Option (StatusCache T) :=
  match sc.slotDeltas.lookup slot with
  | none => some sc
  | some slotDeltas =>
    slotDeltas.entries.foldlM (fun sc e => clearBlockhash slot sc e.1 e.2.2)
      { sc with slotDeltas := sc.slotDeltas.erase slot }

/-- `slot_deltas`. -/
def getSlotDeltas (sc : StatusCache T) (slots : List Slot) : List (SlotDelta T) :=
  slots.map fun slot => (slot, decide (slot ∈ sc.roots), (sc.slotDeltas.lookup slot).getD ∅)

/-- `append`: replay the deltas, slot by slot. -/
def append (sc : StatusCache T) (slotDeltas : List (SlotDelta T)) : StatusCache T :=
  slotDeltas.foldl (fun sc (slot, isRoot, statuses) =>
    let sc := statuses.entries.foldl (fun sc e =>
      e.2.2.foldl (fun sc (keySlice, res) => sc.insertWithSlice e.1 slot e.2.1 keySlice res) sc) sc
    if isRoot then sc.addRoot slot else sc) sc

/-- `from_slot_deltas`. -/
def fromSlotDeltas (slotDeltas : List (SlotDelta T)) : StatusCache T := default.append slotDeltas

/-! ### Lookups after an insert -/

@[simp] lemma insert_roots (sc : StatusCache T) (b : Hash) (key : List UInt8) (slot : Slot)
    (res : T) (randomIndex : ℕ) : (sc.insert b key slot res randomIndex).roots = sc.roots := rfl

/-- An inserted key is found again under its blockhash when its slot is an ancestor or a
root: the slice is cut at the index the blockhash keeps. -/
theorem getStatus_insert_isSome (sc : StatusCache T) (b : Hash) (key : List UInt8) (slot : Slot)
    (res : T) (randomIndex : ℕ) (ancestors : Finset Slot)
    (hslot : slot ∈ ancestors ∨ slot ∈ sc.roots) :
    ((sc.insert b key slot res randomIndex).getStatus key b ancestors).isSome := by
  cases h : sc.cache.lookup b with
  | none =>
    simp [insert, insertWithSlice, getStatus, h, -AList.insert_empty, AList.lookup_insert]
    exact hslot
  | some e =>
    simp [insert, insertWithSlice, getStatus, h, AList.lookup_insert]
    exact Or.inr hslot

/-! ### Clearing a slot -/

end StatusCache

end VelasChain.Runtime
