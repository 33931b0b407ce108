import VelasChain.Lib.BinarySearch
import VelasChain.Lib.Except

/-!
# Address lookup tables

The state of an address lookup table (`programs/address-lookup-table/src/state.rs`): its
metadata, its status against the `SlotHashes` sysvar, and the lookup that resolves the indexes
of a versioned message into addresses. `SlotHashes` is the list of the recent slots with their
hashes, newest first, searched by `position` and extended by `add`.

A lookup at a slot sees the table's addresses only up to its active length: all of them once the
slot is past the last extension, and only those before the last extension while the slot is the
one of that extension. What a lookup returns depends on the table only through whether it is
active, its active length and the addresses within it (`lookup_congr`); a lookup that resolves
resolves the same way on any table whose active addresses extend these (`lookup_of_isPrefix`).
-/

namespace VelasChain.LookupTable

open Except (okOr)

abbrev Slot := ℕ

/-- `LOOKUP_TABLE_MAX_ADDRESSES`. -/
def lookupTableMaxAddresses : ℕ := 256

/-- `Slot::MAX`, the deactivation slot of a table that was never deactivated. -/
def slotMax : Slot := 2 ^ 64 - 1

/-- `slot_hashes::MAX_ENTRIES`. -/
def maxEntries : ℕ := 512

/-! ### Slot hashes -/

namespace SlotHashes

variable {H : Type}

/-- `SlotHashes::position`: the binary search of the slot hashes, newest first, for a slot. -/
def position (slotHashes : List (Slot × H)) (slot : Slot) : Option ℕ :=
  (BinarySearch.searchBy (fun x => compare slot x.1) slotHashes).toOption

/-- `SlotHashes::add`: the slot's entry replaced, or inserted where the search puts it, and the
entries past `MAX_ENTRIES` dropped. -/
def add (slotHashes : List (Slot × H)) (slot : Slot) (hash : H) : List (Slot × H) :=
  (match BinarySearch.searchBy (fun x : Slot × H => compare slot x.1) slotHashes with
    | .ok index => slotHashes.set index (slot, hash)
    | .error index => slotHashes.insertIdx index (slot, hash)).take maxEntries

/-- On slot hashes newest first, a slot has a position exactly when it is one of their slots. -/
theorem position_isSome_iff {slotHashes : List (Slot × H)}
    (hsorted : (slotHashes.map (·.1)).Pairwise (· > ·)) (slot : Slot) :
    (position slotHashes slot).isSome ↔ slot ∈ slotHashes.map (·.1) := by
  -- newest first is sorted in the dual order, where the comparison is the source's
  have hdual : slotHashes.Pairwise fun a b => OrderDual.toDual a.1 ≤ OrderDual.toDual b.1 :=
    (List.pairwise_map.mp hsorted).imp fun h => le_of_lt h
  have hsearch : (BinarySearch.searchBy
      (fun x : Slot × H => compare (OrderDual.toDual x.1) (OrderDual.toDual slot)) slotHashes).isOk ↔
      ∃ x ∈ slotHashes, OrderDual.toDual x.1 = OrderDual.toDual slot :=
    BinarySearch.isOk_searchBy_iff hdual
  have hok : ∀ r : Except ℕ ℕ, r.toOption.isSome = r.isOk := by
    intro r
    cases r <;> rfl
  rw [position, hok]
  exact hsearch.trans (by simp [List.mem_map])

/-- A slot newer than every slot hash goes in front. -/
theorem add_of_lt {slotHashes : List (Slot × H)} {slot : Slot} (hash : H)
    (h : ∀ x ∈ slotHashes, x.1 < slot) :
    add slotHashes slot hash = ((slot, hash) :: slotHashes).take maxEntries := by
  have hfront : BinarySearch.searchBy (fun x => compare slot x.1) slotHashes = .error 0 :=
    BinarySearch.searchBy_of_forall_gt _ fun x hx => compare_gt_iff_gt.mpr (h x hx)
  rw [add, hfront]
  simp only [List.insertIdx_zero]

end SlotHashes

/-! ### The metadata -/

/-- `LookupTableMeta`, without its padding. -/
structure LookupTableMeta (Key : Type) where
  deactivationSlot : Slot
  lastExtendedSlot : Slot
  lastExtendedSlotStartIndex : ℕ
  authority : Option Key
  deriving DecidableEq, Repr

/-- `LookupTableStatus`. -/
inductive LookupTableStatus where
  | activated
  | deactivating (remainingBlocks : ℕ)
  | deactivated
  deriving DecidableEq, Repr

namespace LookupTableMeta

variable {Key H : Type}

/-- `LookupTableMeta::default`. -/
def default : LookupTableMeta Key := ⟨slotMax, 0, 0, none⟩

/-- `LookupTableMeta::new`. -/
def new (authority : Key) : LookupTableMeta Key :=
  { (LookupTableMeta.default : LookupTableMeta Key) with authority := some authority }

/-- `LookupTableMeta::status`: a deactivated table cools down while its deactivation slot is
the current slot or one of the slot hashes. -/
def status (tableMeta : LookupTableMeta Key) (currentSlot : Slot) (slotHashes : List (Slot × H)) :
    LookupTableStatus :=
  if tableMeta.deactivationSlot = slotMax then .activated
  else if tableMeta.deactivationSlot = currentSlot then .deactivating (maxEntries + 1)
  else
    match SlotHashes.position slotHashes tableMeta.deactivationSlot with
    | some slotHashPosition => .deactivating (maxEntries - slotHashPosition)
    | none => .deactivated

/-- `LookupTableMeta::is_active`. -/
def isActive (tableMeta : LookupTableMeta Key) (currentSlot : Slot) (slotHashes : List (Slot × H)) :
    Bool :=
  match tableMeta.status currentSlot slotHashes with
  | .activated => true
  | .deactivating _ => true
  | .deactivated => false

/-- A table is active while it is not deactivated, in the slot of its deactivation, and while
that slot is a slot hash. -/
theorem isActive_iff {slotHashes : List (Slot × H)}
    (hsorted : (slotHashes.map (·.1)).Pairwise (· > ·)) (tableMeta : LookupTableMeta Key)
    (currentSlot : Slot) :
    tableMeta.isActive currentSlot slotHashes = true ↔ tableMeta.deactivationSlot = slotMax ∨
      tableMeta.deactivationSlot = currentSlot ∨ tableMeta.deactivationSlot ∈ slotHashes.map (·.1) := by
  rw [← SlotHashes.position_isSome_iff hsorted]
  unfold isActive status
  split_ifs with hmax hcur
  · simp [hmax]
  · simp [hcur]
  · cases SlotHashes.position slotHashes tableMeta.deactivationSlot <;> simp [hmax, hcur]

end LookupTableMeta

/-! ### The lookup -/

/-- `AddressLookupTable`: the metadata (the source's `meta`) and the addresses stored after it. -/
structure AddressLookupTable (Key : Type) where
  lookupTableMeta : LookupTableMeta Key
  addresses : List Key
  deriving DecidableEq, Repr

/-- `AddressLookupError`. -/
inductive AddressLookupError where
  | lookupTableAccountNotFound
  | invalidAccountOwner
  | invalidAccountData
  | invalidLookupIndex
  deriving DecidableEq, Repr

namespace AddressLookupTable

variable {Key H : Type}

/-- `AddressLookupTable::get_active_addresses_len`: addresses extended in the current slot are
not yet active. -/
def getActiveAddressesLen (table : AddressLookupTable Key) (currentSlot : Slot)
    (slotHashes : List (Slot × H)) : Except AddressLookupError ℕ :=
  if !table.lookupTableMeta.isActive currentSlot slotHashes then .error .lookupTableAccountNotFound
  else
    .ok (if currentSlot > table.lookupTableMeta.lastExtendedSlot then table.addresses.length
      else table.lookupTableMeta.lastExtendedSlotStartIndex)

/-- `AddressLookupTable::lookup`; `none` where `&self.addresses[0..active_addresses_len]` panics,
an active length past the addresses. -/
def lookup (table : AddressLookupTable Key) (currentSlot : Slot) (indexes : List ℕ)
    (slotHashes : List (Slot × H)) : Option (Except AddressLookupError (List Key)) :=
  match table.getActiveAddressesLen currentSlot slotHashes with
  | .error e => some (.error e)
  | .ok activeAddressesLen =>
    if activeAddressesLen > table.addresses.length then none
    else
      some (okOr .invalidLookupIndex
        (indexes.mapM fun idx => (table.addresses.take activeAddressesLen)[idx]?))

/-- What a lookup at a slot sees of a table: an error when the table is not active, `none`
where the active length is past the addresses, and otherwise the active addresses. -/
def activeAddresses (table : AddressLookupTable Key) (currentSlot : Slot)
    (slotHashes : List (Slot × H)) : Except AddressLookupError (Option (List Key)) :=
  (table.getActiveAddressesLen currentSlot slotHashes).map fun n =>
    if n > table.addresses.length then none else some (table.addresses.take n)

/-- The lookup resolves the indexes in the active addresses. -/
theorem lookup_eq (table : AddressLookupTable Key) (currentSlot : Slot) (indexes : List ℕ)
    (slotHashes : List (Slot × H)) :
    table.lookup currentSlot indexes slotHashes =
      match table.activeAddresses currentSlot slotHashes with
      | .error e => some (.error e)
      | .ok none => none
      | .ok (some active) => some (okOr .invalidLookupIndex (indexes.mapM fun idx => active[idx]?)) := by
  unfold lookup activeAddresses
  cases table.getActiveAddressesLen currentSlot slotHashes with
  | error e => rfl
  | ok n =>
    by_cases hgt : n > table.addresses.length <;> simp [hgt, Except.map]

/-- Tables with the same active addresses at a slot resolve every lookup the same. -/
theorem lookup_congr {table table' : AddressLookupTable Key} {currentSlot : Slot}
    {slotHashes : List (Slot × H)}
    (h : table'.activeAddresses currentSlot slotHashes = table.activeAddresses currentSlot slotHashes)
    (indexes : List ℕ) :
    table'.lookup currentSlot indexes slotHashes = table.lookup currentSlot indexes slotHashes := by
  rw [lookup_eq, lookup_eq, h]

/-- Indexes that resolve in a list resolve to the same addresses in any list it is a prefix of. -/
lemma mapM_getElem?_of_isPrefix {active active' : List Key} (hpre : active <+: active') :
    ∀ {indexes : List ℕ} {resolved : List Key},
      (indexes.mapM fun idx => active[idx]?) = some resolved →
        (indexes.mapM fun idx => active'[idx]?) = some resolved
  | [], _, h => h
  | i :: is, resolved, h => by
    simp only [List.mapM_cons, Option.bind_eq_bind, Option.bind_eq_some_iff] at h ⊢
    obtain ⟨a, ha, rest, hrest, hresolved⟩ := h
    obtain ⟨hi, rfl⟩ := List.getElem?_eq_some_iff.mp ha
    refine ⟨_, List.getElem?_eq_some_iff.mpr ⟨hpre.length_le.trans_lt' hi,
      (hpre.getElem hi).symm⟩, rest, mapM_getElem?_of_isPrefix hpre hrest, hresolved⟩

/-- A lookup that resolves resolves to the same addresses on a table whose active addresses
extend the ones it saw. -/
theorem lookup_of_isPrefix {table table' : AddressLookupTable Key} {currentSlot currentSlot' : Slot}
    {slotHashes slotHashes' : List (Slot × H)} {active active' : List Key}
    (h : table.activeAddresses currentSlot slotHashes = .ok (some active))
    (h' : table'.activeAddresses currentSlot' slotHashes' = .ok (some active'))
    (hpre : active <+: active') {indexes : List ℕ} {resolved : List Key}
    (hresolved : table.lookup currentSlot indexes slotHashes = some (.ok resolved)) :
    table'.lookup currentSlot' indexes slotHashes' = some (.ok resolved) := by
  rw [lookup_eq, h] at hresolved
  rw [lookup_eq, h']
  simp only [Option.some.injEq, Except.okOr_eq_ok] at hresolved ⊢
  exact mapM_getElem?_of_isPrefix hpre hresolved

end AddressLookupTable

end VelasChain.LookupTable
