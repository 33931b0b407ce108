import VelasChain.LookupTable.Processor
import VelasChain.Lib.Transition

/-!
# Address lookup tables along a fork

A fork of banks, each with its slot, the slots of the banks before it, its `SlotHashes` sysvar
and the accounts it stores. Within a bank, transactions run the lookup table program
(`process_instruction`), other programs write the accounts they own or credit lamports to any
account, and an account of no lamports may be cleaned away; a child bank at a later slot then adds
its parent's slot to the slot hashes (`Bank::update_slot_hashes`). A versioned message resolves
its lookups through the bank (`Accounts::load_lookup_table_addresses`).

What an event can do to the tables is said once (`BankStep.tableOrigin`: a table after it was
there before, maybe updated in the bank's slot, or was created empty; `BankStep.status_of_removed`:
a table it removes was fully deactivated), and the invariant of every bank reached from a genesis
without tables (`Inv.of_reachable`) follows from it: the slot hashes are the most recent of the
fork's slots, and a table account has lamports, was extended at most at the bank's slot, starts
its last extension within its addresses, and lives at an address derived from an earlier slot of
the fork, older than its deactivation slot.
-/

namespace VelasChain.LookupTable

variable {Key H : Type} [DecidableEq Key]

/-- `MessageAddressTableLookup`. -/
structure MessageAddressTableLookup (Key : Type) where
  accountKey : Key
  writableIndexes : List ℕ
  readonlyIndexes : List ℕ
  deriving DecidableEq, Repr

/-- `LoadedAddresses`. -/
structure LoadedAddresses (Key : Type) where
  writable : List Key
  readonly : List Key
  deriving DecidableEq, Repr

/-- A bank of a fork: its slot, the slots of the banks before it on the fork, newest first, its
`SlotHashes` sysvar, and the accounts it stores (`none` where it stores none). -/
structure Bank (Key H : Type) where
  slot : Slot
  ancestors : List Slot
  slotHashes : List (Slot × H)
  accounts : Key → Option (Account Key)

/-- `AccountSharedData::default()`, owned by the system program. -/
def Account.default (env : Env Key) : Account Key := ⟨0, env.systemProgramId, .empty⟩

/-- `AccountsDb::load_with_fixed_root`: an account of no lamports is not found when
`loadZeroLamports` is off (`LoadZeroLamports::None`). -/
def loadWithFixedRoot (loadZeroLamports : Bool) : Option (Account Key) → Option (Account Key)
  | some account => if account.lamports = 0 ∧ loadZeroLamports = false then none else some account
  | none => none

section Bank

variable (env : Env Key) (loadZeroLamports : Bool)

/-- `Accounts::load_lookup_table_addresses` in a bank, at its slot. -/
def loadLookupTableAddresses (bank : Bank Key H)
    (addressTableLookup : MessageAddressTableLookup Key) : Option (Except AddressLookupError (LoadedAddresses Key)) :=
  match loadWithFixedRoot loadZeroLamports (bank.accounts addressTableLookup.accountKey) with
  | none => some (.error .lookupTableAccountNotFound)
  | some tableAccount =>
    if tableAccount.owner = env.programId then
      match tableAccount.data.deserialize with
      | .error _ => some (.error .invalidAccountData)
      | .ok lookupTable =>
        match lookupTable.lookup bank.slot addressTableLookup.writableIndexes bank.slotHashes with
        | none => none
        | some (.error e) => some (.error e)
        | some (.ok writable) =>
          (lookupTable.lookup bank.slot addressTableLookup.readonlyIndexes bank.slotHashes).map
            fun readonly => readonly.map fun readonly => ⟨writable, readonly⟩
    else some (.error .invalidAccountOwner)

/-- The accounts a transaction of the bank sees: the stored account as loaded, or the default
one. -/
def Bank.txAccounts (bank : Bank Key H) : Accounts Key :=
  fun key => (loadWithFixedRoot loadZeroLamports (bank.accounts key)).getD (Account.default env)

/-- The accounts a transaction that succeeded leaves: each account it changed is stored. -/
def Bank.store (bank : Bank Key H) (accounts' : Accounts Key) : Key → Option (Account Key) :=
  fun key => if accounts' key = bank.txAccounts env loadZeroLamports key then bank.accounts key
    else some (accounts' key)

/-- An account credited with lamports; the default account where the bank stores none. -/
def creditAccount (account : Option (Account Key)) (lamports : ℕ) : Account Key :=
  { account.getD (Account.default env) with
    lamports := (account.getD (Account.default env)).lamports + lamports }

/-- The events within a bank: a transaction of the lookup table program that succeeded (one that
fails changes no table account); lamports credited to any account; another program's write of
an account it owns, never at an address of a table nor giving the program an account with a
table; and the cleaning of an account of no lamports. -/
inductive BankStep : Bank Key H → Bank Key H → Prop
  | process {bank : Bank Key H} (instruction : ProgramInstruction Key)
      (instructionAccounts : List (InstructionAccount Key)) (accounts' : Accounts Key) :
      processInstruction env bank.slot bank.slotHashes instructionAccounts
        (bank.txAccounts env loadZeroLamports) instruction = .ok accounts' →
      BankStep bank { bank with accounts := bank.store env loadZeroLamports accounts' }
  | credit {bank : Bank Key H} (key : Key) (lamports : ℕ) :
      BankStep bank { bank with
        accounts := (Function.update bank.accounts key
          (some (creditAccount env (bank.accounts key) lamports))) }
  | write {bank : Bank Key H} (key : Key) (account : Option (Account Key)) :
      (∀ authority slot bumpSeed, env.createProgramAddress authority slot bumpSeed ≠ some key) →
      (∀ stored ∈ bank.accounts key, stored.owner ≠ env.programId) →
      (∀ written ∈ account, written.owner = env.programId →
        ∀ table, written.data ≠ .lookupTable table) →
      BankStep bank { bank with accounts := Function.update bank.accounts key account }
  | clean {bank : Bank Key H} (key : Key) (account : Account Key) :
      bank.accounts key = some account → account.lamports = 0 →
      BankStep bank { bank with accounts := Function.update bank.accounts key none }

/-- The steps of a fork: an event within the bank, or a child bank at a later slot, whose slot
hashes add the parent's slot. -/
inductive ForkStep : Bank Key H → Bank Key H → Prop
  | bank {bank bank' : Bank Key H} : BankStep env loadZeroLamports bank bank' → ForkStep bank bank'
  | child {bank : Bank Key H} (slot : Slot) (parentHash : H) :
      bank.slot < slot →
      ForkStep bank ⟨slot, bank.slot :: bank.ancestors,
        SlotHashes.add bank.slotHashes bank.slot parentHash, bank.accounts⟩

end Bank

/-! ### The slots of a fork -/

/-- The slots of a bank's fork: its ancestors decrease below its slot, and its slot hashes are the
most recent of them. -/
structure Bank.Recent (bank : Bank Key H) : Prop where
  ancestors_sorted : bank.ancestors.Pairwise (· > ·)
  ancestors_lt : ∀ s ∈ bank.ancestors, s < bank.slot
  slotHashes_eq : bank.slotHashes.map (·.1) = bank.ancestors.take maxEntries

namespace Bank.Recent

variable {bank : Bank Key H}

omit [DecidableEq Key] in
lemma slotHashes_sorted (h : bank.Recent) : (bank.slotHashes.map (·.1)).Pairwise (· > ·) := by
  rw [h.slotHashes_eq]
  exact h.ancestors_sorted.sublist (List.take_sublist _ _)

omit [DecidableEq Key] in
/-- A slot the program finds in the slot hashes is one of the most recent ancestors. -/
lemma mem_take_of_contains (h : bank.Recent) {slot : Slot}
    (hcontains : slotHashesContains bank.slotHashes slot = true) :
    slot ∈ bank.ancestors.take maxEntries := by
  rw [← h.slotHashes_eq, ← SlotHashes.position_isSome_iff h.slotHashes_sorted]
  exact hcontains

omit [DecidableEq Key] in
/-- A child bank keeps the slots of its fork in order. -/
lemma child (h : bank.Recent) {slot : Slot} (hslot : bank.slot < slot) (parentHash : H) :
    Bank.Recent (⟨slot, bank.slot :: bank.ancestors,
      SlotHashes.add bank.slotHashes bank.slot parentHash, bank.accounts⟩ : Bank Key H) := by
  have hbelow : ∀ x ∈ bank.slotHashes, x.1 < bank.slot := by
    intro x hx
    have hmem : x.1 ∈ bank.ancestors.take maxEntries := by
      rw [← h.slotHashes_eq]
      exact List.mem_map_of_mem hx
    exact h.ancestors_lt _ (List.mem_of_mem_take hmem)
  refine ⟨List.pairwise_cons.mpr ⟨h.ancestors_lt, h.ancestors_sorted⟩, fun s hs => ?_, ?_⟩
  · rcases List.mem_cons.mp hs with rfl | hs
    · exact hslot
    · exact (h.ancestors_lt s hs).trans hslot
  · rw [SlotHashes.add_of_lt parentHash hbelow, List.map_take, List.map_cons, h.slotHashes_eq]
    simp only [maxEntries, List.take_succ_cons, List.take_take]
    rfl

end Bank.Recent

/-- A slot that has left the slot hashes for good: an ancestor past the most recent ones. -/
def Bank.Gone (bank : Bank Key H) (slot : Slot) : Prop :=
  slot ∈ bank.ancestors ∧ slot ∉ bank.ancestors.take maxEntries

omit [DecidableEq Key] in
/-- In a decreasing list, a value past a prefix leaves every smaller value of the list past it. -/
lemma not_mem_take_of_lt {l : List Slot} (hsorted : l.Pairwise (· > ·)) {n a b : Slot}
    (ha : a ∈ l) (hgone : a ∉ l.take n) (hba : b < a) : b ∉ l.take n := by
  intro hb
  have hdrop : a ∈ l.drop n := by
    rw [← List.take_append_drop n l, List.mem_append] at ha
    exact ha.resolve_left hgone
  rw [← List.take_append_drop n l, List.pairwise_append] at hsorted
  exact absurd (hsorted.2.2 b hb a hdrop) (not_lt.mpr hba.le)

omit [DecidableEq Key] in
/-- A child bank pushes gone slots further back. -/
lemma Bank.Gone.child {bank : Bank Key H} (hrecent : bank.Recent) {slot d : Slot}
    (hgone : bank.Gone d) (parentHash : H) :
    Bank.Gone (⟨slot, bank.slot :: bank.ancestors,
      SlotHashes.add bank.slotHashes bank.slot parentHash, bank.accounts⟩ : Bank Key H) d := by
  refine ⟨List.mem_cons_of_mem _ hgone.1, fun hmem => ?_⟩
  simp only [maxEntries, List.take_succ_cons, List.mem_cons] at hmem
  rcases hmem with rfl | hmem
  · exact absurd (hrecent.ancestors_lt _ hgone.1) (lt_irrefl _)
  · exact hgone.2 (List.take_subset_take_left _ (by decide) hmem)

/-! ### Loading accounts -/

section Load

variable {env : Env Key} {loadZeroLamports : Bool}

omit [DecidableEq Key] in
lemma loadWithFixedRoot_eq_some {stored : Option (Account Key)} {account : Account Key} :
    loadWithFixedRoot loadZeroLamports stored = some account ↔
      stored = some account ∧ ¬(account.lamports = 0 ∧ loadZeroLamports = false) := by
  cases stored with
  | none => simp [loadWithFixedRoot]
  | some stored =>
    simp only [loadWithFixedRoot, Option.some.injEq]
    constructor
    · intro hload
      split_ifs at hload with h
      cases hload
      exact ⟨rfl, h⟩
    · rintro ⟨rfl, h⟩
      rw [if_neg h]

omit [DecidableEq Key] in
/-- An account with data that a transaction sees is the one the bank stores. -/
lemma txAccounts_of_data {bank : Bank Key H} {key : Key}
    (h : (bank.txAccounts env loadZeroLamports key).data ≠ .empty) :
    loadWithFixedRoot loadZeroLamports (bank.accounts key) =
      some (bank.txAccounts env loadZeroLamports key) := by
  simp only [Bank.txAccounts] at h ⊢
  cases hload : loadWithFixedRoot loadZeroLamports (bank.accounts key) with
  | none => rw [hload] at h; exact absurd rfl h
  | some account => rfl

/-- A transaction leaves each account as the bank stored it, or stores what it changed. -/
lemma store_cases (bank : Bank Key H) (accounts' : Accounts Key) (key : Key) :
    bank.store env loadZeroLamports accounts' key = bank.accounts key ∨
      bank.store env loadZeroLamports accounts' key = some (accounts' key) := by
  simp only [Bank.store]
  split_ifs
  · exact .inl rfl
  · exact .inr rfl

end Load

/-! ### The invariant -/

/-- A table account: stored, the program's, and holding a table. -/
def Bank.HoldsTable (env : Env Key) (bank : Bank Key H) (key : Key) (account : Account Key)
    (table : AddressLookupTable Key) : Prop :=
  bank.accounts key = some account ∧ account.owner = env.programId ∧
    account.data = .lookupTable table

/-- What a table account of a reachable bank satisfies: it has lamports, it was last extended at
the latest in the bank's slot, its last extension starts within its addresses, and its address
is derived from an earlier slot of the fork, older than the slot of its deactivation. -/
structure TableInv (env : Env Key) (bank : Bank Key H) (key : Key) (account : Account Key)
    (table : AddressLookupTable Key) : Prop where
  lamports_pos : 0 < account.lamports
  lastExtendedSlot_le : table.lookupTableMeta.lastExtendedSlot ≤ bank.slot
  startIndex_le : table.lookupTableMeta.lastExtendedSlotStartIndex ≤ table.addresses.length
  derived : ∃ authority recentSlot bumpSeed,
    env.createProgramAddress authority recentSlot bumpSeed = some key ∧
      recentSlot ∈ bank.ancestors ∧
      (table.lookupTableMeta.deactivationSlot = slotMax ∨
        recentSlot < table.lookupTableMeta.deactivationSlot ∧
          table.lookupTableMeta.deactivationSlot ∈ bank.slot :: bank.ancestors)

/-- The invariant of the banks of a fork. -/
structure Inv (env : Env Key) (bank : Bank Key H) : Prop where
  recent : bank.Recent
  tables : ∀ key account table, bank.HoldsTable env key account table →
    TableInv env bank key account table

/-- A genesis bank: the slots of its fork in order, and no table yet. -/
structure Genesis (env : Env Key) (bank : Bank Key H) : Prop where
  recent : bank.Recent
  no_tables : ∀ key account table, ¬bank.HoldsTable env key account table

namespace TableInv

variable {env : Env Key} {bank : Bank Key H} {key : Key} {account : Account Key}
  {table : AddressLookupTable Key}

omit [DecidableEq Key] in
/-- More lamports keep a table account's invariant. -/
lemma of_le_lamports (h : TableInv env bank key account table) {account' : Account Key}
    (hle : account.lamports ≤ account'.lamports) : TableInv env bank key account' table :=
  ⟨h.lamports_pos.trans_le hle, h.lastExtendedSlot_le, h.startIndex_le, h.derived⟩

omit [DecidableEq Key] in
/-- Each update of a table in the bank's slot keeps its invariant. -/
lemma update (h : TableInv env bank key account table) (hrecent : bank.Recent)
    {table' : AddressLookupTable Key} (hupdate : TableUpdate bank.slot table table')
    {account' : Account Key} (hle : account.lamports ≤ account'.lamports) :
    TableInv env bank key account' table' := by
  obtain ⟨authority, recentSlot, bumpSeed, hkey, hrecentSlot, hdeactivation⟩ := h.derived
  cases hupdate with
  | freeze => exact ⟨h.lamports_pos.trans_le hle, h.lastExtendedSlot_le, h.startIndex_le, h.derived⟩
  | extend newAddresses hactive =>
    -- the first extension in the slot records the slot and the length it starts from
    refine ⟨h.lamports_pos.trans_le hle, ?_, ?_, authority, recentSlot, bumpSeed, hkey,
      hrecentSlot, .inl (by simpa using hactive)⟩
    · simp only [extendedMeta]
      split_ifs
      · exact le_rfl
      · exact h.lastExtendedSlot_le
    · simp only [extendedMeta, List.length_append]
      split_ifs
      · exact Nat.le_add_right _ _
      · exact h.startIndex_le.trans (Nat.le_add_right _ _)
  | deactivate hactive =>
    -- deactivated in the bank's slot, later than every ancestor
    exact ⟨h.lamports_pos.trans_le hle, h.lastExtendedSlot_le, h.startIndex_le, authority,
      recentSlot, bumpSeed, hkey, hrecentSlot,
      .inr ⟨hrecent.ancestors_lt _ hrecentSlot, List.mem_cons_self⟩⟩

omit [DecidableEq Key] in
/-- A child bank keeps the invariant of every table account. -/
lemma child (h : TableInv env bank key account table) {slot : Slot} (hslot : bank.slot < slot)
    (parentHash : H) :
    TableInv env (⟨slot, bank.slot :: bank.ancestors,
      SlotHashes.add bank.slotHashes bank.slot parentHash, bank.accounts⟩ : Bank Key H)
        key account table := by
  obtain ⟨authority, recentSlot, bumpSeed, hkey, hrecentSlot, hdeactivation⟩ := h.derived
  refine ⟨h.lamports_pos, h.lastExtendedSlot_le.trans hslot.le, h.startIndex_le, authority,
    recentSlot, bumpSeed, hkey, List.mem_cons_of_mem _ hrecentSlot, ?_⟩
  rcases hdeactivation with hmax | ⟨hlt, hmem⟩
  · exact .inl hmax
  · exact .inr ⟨hlt, List.mem_cons_of_mem _ hmem⟩

end TableInv

/-! ### What an event does to the tables -/

/-- Where a table that a bank holds after an event comes from: the table the bank held there, as
it was or updated in the bank's slot, with at least its lamports; or a new empty table, created
where the bank held none, at an address derived from a slot of the slot hashes. -/
inductive TableOrigin (env : Env Key) (bank : Bank Key H) (key : Key) (account' : Account Key) :
    AddressLookupTable Key → Prop
  | kept {account : Account Key} {table : AddressLookupTable Key} :
      bank.HoldsTable env key account table → account.lamports ≤ account'.lamports →
      TableOrigin env bank key account' table
  | updated {account : Account Key} {table table' : AddressLookupTable Key} :
      bank.HoldsTable env key account table → TableUpdate bank.slot table table' →
      account.lamports ≤ account'.lamports → TableOrigin env bank key account' table'
  | created (authority : Key) (recentSlot : Slot) (bumpSeed : ℕ) :
      env.createProgramAddress authority recentSlot bumpSeed = some key →
      slotHashesContains bank.slotHashes recentSlot = true → 0 < account'.lamports →
      (∀ account table, ¬bank.HoldsTable env key account table) →
      TableOrigin env bank key account' ⟨LookupTableMeta.new authority, []⟩

section Events

variable {env : Env Key} {loadZeroLamports : Bool} {bank bank' : Bank Key H} {key : Key}
  {account account' : Account Key} {table table' : AddressLookupTable Key}

omit [DecidableEq Key] in
/-- A table account a transaction sees is one the bank holds. -/
lemma holdsTable_of_txAccounts
    (howner : (bank.txAccounts env loadZeroLamports key).owner = env.programId)
    (hdata : (bank.txAccounts env loadZeroLamports key).data = .lookupTable table) :
    bank.HoldsTable env key (bank.txAccounts env loadZeroLamports key) table := by
  have hload := txAccounts_of_data (by rw [hdata]; exact fun h => by cases h)
  exact ⟨(loadWithFixedRoot_eq_some.mp hload).1, howner, hdata⟩

omit [DecidableEq Key] in
/-- A transaction sees every table account of the bank: it has lamports. -/
lemma txAccounts_of_holdsTable (hinv : Inv env bank) (hholds : bank.HoldsTable env key account table) :
    bank.txAccounts env loadZeroLamports key = account := by
  have hpos := (hinv.tables key account table hholds).lamports_pos
  have hload : loadWithFixedRoot loadZeroLamports (bank.accounts key) = some account :=
    loadWithFixedRoot_eq_some.mpr ⟨hholds.1, fun h => hpos.ne' h.1⟩
  simp only [Bank.txAccounts, hload, Option.getD_some]

/-- A table account is left as it is where an event writes another account. -/
lemma Bank.HoldsTable.update_of_ne (hholds : bank.HoldsTable env key account table) {key' : Key}
    (hkey : key ≠ key') (stored : Option (Account Key)) :
    Bank.HoldsTable env { bank with accounts := Function.update bank.accounts key' stored } key
      account table := by
  obtain ⟨hstored, howner, hdata⟩ := hholds
  exact ⟨by simpa [Function.update_of_ne hkey] using hstored, howner, hdata⟩

/-- The events within a bank change only its accounts. -/
lemma BankStep.withAccounts (h : BankStep env loadZeroLamports bank bank') :
    ∃ accounts, bank' = { bank with accounts := accounts } := by
  cases h <;> exact ⟨_, rfl⟩

/-- A transaction that succeeded leaves a table where it found one, updated by its first account,
or created there. -/
lemma tableOrigin_of_process (hinv : Inv env bank) {instruction : ProgramInstruction Key}
    {instructionAccounts : List (InstructionAccount Key)} {accounts' : Accounts Key}
    (h : processInstruction env bank.slot bank.slotHashes instructionAccounts
      (bank.txAccounts env loadZeroLamports) instruction = .ok accounts')
    (hstored : bank.store env loadZeroLamports accounts' key = some account')
    (howner : account'.owner = env.programId) (hdata : account'.data = .lookupTable table') :
    TableOrigin env bank key account' table' := by
  obtain ⟨tableAccount, -, hstep, hothers⟩ := process_cases h
  rcases store_cases bank accounts' key with hsame | hchanged
  · exact .kept ⟨hsame ▸ hstored, howner, hdata⟩ le_rfl
  rw [hchanged, Option.some.injEq] at hstored
  subst hstored
  by_cases hkey : key = tableAccount.key
  · subst hkey
    cases hstep with
    | create authority recentSlot bumpSeed hempty hderived hcontains howner' hdata' hpos =>
      rw [hdata'] at hdata
      cases hdata
      -- the address held no table, as a transaction sees every table account
      refine .created authority recentSlot bumpSeed hderived hcontains hpos fun account table hheld => ?_
      rw [txAccounts_of_holdsTable hinv hheld, hheld.2.2] at hempty
      cases hempty
    | update table₀ table' howner₀ hdata₀ hupdate howner' hdata' hle =>
      rw [hdata'] at hdata
      cases hdata
      exact .updated (holdsTable_of_txAccounts howner₀ hdata₀) hupdate hle
    | close table₀ howner₀ hdata₀ hstatus howner' hdata' hzero =>
      rw [hdata'] at hdata
      cases hdata
  · -- another table account, which can only have gained lamports
    obtain ⟨hown, hdat, hlam⟩ := hothers key hkey
    have howner₀ : (bank.txAccounts env loadZeroLamports key).owner = env.programId := by
      rw [← hown]
      exact howner
    have hdata₀ : (bank.txAccounts env loadZeroLamports key).data = .lookupTable table' := by
      rw [← hdat]
      exact hdata
    exact .kept (holdsTable_of_txAccounts howner₀ hdata₀)
      (hlam (by rw [hdata₀]; exact fun h => by cases h))

/-- Every table a bank holds after an event was there before, maybe updated, or was created. -/
lemma BankStep.tableOrigin (hinv : Inv env bank) (h : BankStep env loadZeroLamports bank bank')
    (hholds : bank'.HoldsTable env key account' table') :
    TableOrigin env bank key account' table' := by
  obtain ⟨hstored, howner, hdata⟩ := hholds
  cases h with
  | process instruction instructionAccounts accounts' h =>
    exact tableOrigin_of_process hinv h hstored howner hdata
  | credit key' lamports =>
    by_cases hk : key = key'
    · subst hk
      simp only [Function.update_self, Option.some.injEq] at hstored
      subst hstored
      -- a credit keeps the owner and the data of the account, or gives the default one
      cases hold : bank.accounts key with
      | none => simp [creditAccount, hold, Account.default] at hdata
      | some account₀ =>
        simp only [creditAccount, hold, Option.getD_some] at howner hdata ⊢
        exact .kept ⟨hold, howner, hdata⟩ (Nat.le_add_right _ _)
    · exact .kept ⟨by simpa [Function.update_of_ne hk] using hstored, howner, hdata⟩ le_rfl
  | write key' account hkey hstoredOwner hwritten =>
    by_cases hk : key = key'
    · subst hk
      simp only [Function.update_self] at hstored
      exact absurd hdata (hwritten account' hstored howner table')
    · exact .kept ⟨by simpa [Function.update_of_ne hk] using hstored, howner, hdata⟩ le_rfl
  | clean key' account hstored₀ hzero =>
    by_cases hk : key = key'
    · subst hk
      simp at hstored
    · exact .kept ⟨by simpa [Function.update_of_ne hk] using hstored, howner, hdata⟩ le_rfl

/-- A table that an event removes was fully deactivated: only a close removes a table. -/
lemma BankStep.status_of_removed (hinv : Inv env bank) (h : BankStep env loadZeroLamports bank bank')
    (hholds : bank.HoldsTable env key account table)
    (hremoved : ∀ account' table', ¬bank'.HoldsTable env key account' table') :
    table.lookupTableMeta.status bank.slot bank.slotHashes = .deactivated := by
  cases h with
  | process instruction instructionAccounts accounts' h =>
    obtain ⟨tableAccount, -, hstep, hothers⟩ := process_cases h
    have htx : bank.txAccounts env loadZeroLamports key = account :=
      txAccounts_of_holdsTable hinv hholds
    rcases store_cases bank accounts' key with hsame | hchanged
    · exact absurd ⟨hsame.trans hholds.1, hholds.2⟩ (hremoved account table)
    by_cases hkey : key = tableAccount.key
    · subst hkey
      rw [htx] at hstep
      cases hstep with
      | create authority recentSlot bumpSeed hempty =>
        rw [hholds.2.2] at hempty
        cases hempty
      | update table₀ table' howner₀ hdata₀ hupdate howner' hdata' =>
        exact absurd ⟨hchanged, howner'.trans howner₀, hdata'⟩ (hremoved _ table')
      | close table₀ howner₀ hdata₀ hstatus =>
        rw [hholds.2.2] at hdata₀
        cases hdata₀
        exact hstatus
    · obtain ⟨hown, hdat, -⟩ := hothers key hkey
      rw [htx] at hown hdat
      exact absurd ⟨hchanged, hown.trans hholds.2.1, hdat.trans hholds.2.2⟩ (hremoved _ table)
  | credit key' lamports =>
    by_cases hk : key = key'
    · subst hk
      -- a credit keeps the owner and the data of the account
      refine absurd ⟨Function.update_self .., ?_, ?_⟩
        (hremoved (creditAccount env (bank.accounts key) lamports) table) <;>
        simp only [creditAccount, hholds.1, Option.getD_some, hholds.2.1, hholds.2.2]
    · exact absurd (hholds.update_of_ne hk _) (hremoved account table)
  | write key' account₁ hkey hstoredOwner hwritten =>
    by_cases hk : key = key'
    · subst hk
      exact absurd hholds.2.1 (hstoredOwner account hholds.1)
    · exact absurd (hholds.update_of_ne hk _) (hremoved account table)
  | clean key' account₁ hstored hzero =>
    by_cases hk : key = key'
    · subst hk
      rw [hholds.1, Option.some.injEq] at hstored
      subst hstored
      exact absurd hzero (hinv.tables key _ table hholds).lamports_pos.ne'
    · exact absurd (hholds.update_of_ne hk _) (hremoved account table)

end Events

/-! ### Every reachable bank keeps the invariant -/

section Steps

variable {env : Env Key} {loadZeroLamports : Bool} {bank bank' : Bank Key H}

omit [DecidableEq Key] in
/-- An event within a bank keeps the invariant when every table account it leaves satisfies the
invariant in the bank: the slots stay as they are. -/
lemma Inv.of_accounts (hinv : Inv env bank) {accounts : Key → Option (Account Key)}
    (htables : ∀ key account table, accounts key = some account →
      account.owner = env.programId → account.data = .lookupTable table →
        TableInv env bank key account table) :
    Inv env { bank with accounts := accounts } := by
  obtain ⟨hsorted, hlt, hslotHashes⟩ := hinv.recent
  refine ⟨⟨hsorted, hlt, hslotHashes⟩, fun key account table ⟨hstored, howner, hdata⟩ => ?_⟩
  obtain ⟨hpos, hlast, hstart, hderived⟩ := htables key account table hstored howner hdata
  exact ⟨hpos, hlast, hstart, hderived⟩

lemma Inv.bankStep (hinv : Inv env bank) (h : BankStep env loadZeroLamports bank bank') :
    Inv env bank' := by
  obtain ⟨accounts, rfl⟩ := h.withAccounts
  refine hinv.of_accounts fun key account table hstored howner hdata => ?_
  cases h.tableOrigin hinv ⟨hstored, howner, hdata⟩ with
  | kept hheld hle => exact (hinv.tables _ _ _ hheld).of_le_lamports hle
  | updated hheld hupdate hle => exact (hinv.tables _ _ _ hheld).update hinv.recent hupdate hle
  | created authority recentSlot bumpSeed hderived hcontains hpos =>
    -- a new empty table at an address derived from a slot of the slot hashes
    exact ⟨hpos, Nat.zero_le _, le_rfl, authority, recentSlot, bumpSeed, hderived,
      List.mem_of_mem_take (hinv.recent.mem_take_of_contains hcontains), .inl rfl⟩

omit [DecidableEq Key] in
lemma Inv.child (hinv : Inv env bank) {slot : Slot} (hslot : bank.slot < slot) (parentHash : H) :
    Inv env (⟨slot, bank.slot :: bank.ancestors,
      SlotHashes.add bank.slotHashes bank.slot parentHash, bank.accounts⟩ : Bank Key H) :=
  ⟨hinv.recent.child hslot parentHash, fun key account table hholds =>
    (hinv.tables key account table hholds).child hslot parentHash⟩

lemma Inv.forkStep (hinv : Inv env bank) (h : ForkStep env loadZeroLamports bank bank') :
    Inv env bank' := by
  cases h with
  | bank hstep => exact hinv.bankStep hstep
  | child slot parentHash hslot => exact hinv.child hslot parentHash

/-- Every bank of a fork from a genesis keeps the invariant. -/
theorem Inv.of_reachable (h : Reachable (Genesis env) (ForkStep env loadZeroLamports) bank) :
    Inv env bank := by
  refine Reachable.inv (fun _ hgenesis => ⟨hgenesis.recent, fun key account table hholds => ?_⟩)
    (fun _ _ hinv hstep => hinv.forkStep hstep) h
  exact absurd hholds (hgenesis.no_tables key account table)

end Steps

/-! ### Runs of a fork -/

/-- The bank `n` slots after a bank on its fork, each the child of the one before at the next
slot, with `parentHash` as the hash of every parent. -/
def Bank.descendant (parentHash : H) : ℕ → Bank Key H → Bank Key H
  | 0, bank => bank
  | n + 1, bank => descendant parentHash n ⟨bank.slot + 1, bank.slot :: bank.ancestors,
      SlotHashes.add bank.slotHashes bank.slot parentHash, bank.accounts⟩

section Runs

variable {env : Env Key} {loadZeroLamports : Bool} (parentHash : H)

omit [DecidableEq Key] in
lemma Bank.descendant_accounts :
    ∀ (n : ℕ) (bank : Bank Key H), (bank.descendant parentHash n).accounts = bank.accounts
  | 0, _ => rfl
  | n + 1, _ => descendant_accounts n _

omit [DecidableEq Key] in
lemma Bank.txAccounts_descendant (n : ℕ) (bank : Bank Key H) :
    (bank.descendant parentHash n).txAccounts env loadZeroLamports =
      bank.txAccounts env loadZeroLamports := by
  funext key
  simp only [Bank.txAccounts, Bank.descendant_accounts]

omit [DecidableEq Key] in
/-- The slots the descendants of a bank put before its ancestors are its slot and later ones. -/
lemma Bank.descendant_ancestors : ∀ (n : ℕ) (bank : Bank Key H), ∃ newer,
    (bank.descendant parentHash n).ancestors = newer ++ bank.ancestors ∧ newer.length = n ∧
      ∀ s ∈ newer, bank.slot ≤ s
  | 0, _ => ⟨[], rfl, rfl, by simp⟩
  | n + 1, bank => by
    obtain ⟨newer, hancestors, hlength, hnewer⟩ := descendant_ancestors n
      ⟨bank.slot + 1, bank.slot :: bank.ancestors,
        SlotHashes.add bank.slotHashes bank.slot parentHash, bank.accounts⟩
    refine ⟨newer ++ [bank.slot], ?_, by simp [hlength], fun s hs => ?_⟩
    · rw [Bank.descendant, hancestors, List.append_assoc]
      rfl
    · rcases List.mem_append.mp hs with hs | hs
      · exact (Nat.le_succ _).trans (hnewer s hs)
      · rw [List.mem_singleton.mp hs]

omit [DecidableEq Key] in
/-- After `maxEntries` descendants, every slot before a bank has left the slot hashes for good. -/
lemma Bank.gone_descendant {bank : Bank Key H} {slot : Slot} (hmem : slot ∈ bank.ancestors)
    (hlt : slot < bank.slot) : (bank.descendant parentHash maxEntries).Gone slot := by
  obtain ⟨newer, hancestors, hlength, hnewer⟩ := bank.descendant_ancestors parentHash maxEntries
  refine ⟨by rw [hancestors]; exact List.mem_append_right _ hmem, fun h => ?_⟩
  rw [hancestors, List.take_left' hlength] at h
  exact absurd (hnewer slot h) (not_le.mpr hlt)

lemma Bank.reflTransGen_descendant : ∀ (n : ℕ) (bank : Bank Key H),
    Relation.ReflTransGen (ForkStep env loadZeroLamports) bank (bank.descendant parentHash n)
  | 0, _ => .refl
  | n + 1, bank =>
    .head (.child (bank.slot + 1) parentHash (Nat.lt_succ_self _)) (reflTransGen_descendant n _)

lemma Bank.store_descendant (n : ℕ) (bank : Bank Key H) (accounts' : Accounts Key) :
    (bank.descendant parentHash n).store env loadZeroLamports accounts' =
      bank.store env loadZeroLamports accounts' := by
  funext key
  simp only [Bank.store, Bank.descendant_accounts, Bank.txAccounts_descendant]

/-- A transaction of the program that succeeds is an event of the bank, which then stores the
accounts it changed. -/
lemma BankStep.of_isOk {bank : Bank Key H} (instruction : ProgramInstruction Key)
    (instructionAccounts : List (InstructionAccount Key)) {accounts : Key → Option (Account Key)}
    (h : (processInstruction env bank.slot bank.slotHashes instructionAccounts
      (bank.txAccounts env loadZeroLamports) instruction).isOk = true)
    (hstored : bank.store env loadZeroLamports ((processInstruction env bank.slot bank.slotHashes
      instructionAccounts (bank.txAccounts env loadZeroLamports) instruction).toOption.getD
        (bank.txAccounts env loadZeroLamports)) = accounts) :
    BankStep env loadZeroLamports bank { bank with accounts := accounts } :=
  hstored ▸ .process instruction instructionAccounts _ (Except.eq_ok_of_isOk h _)

end Runs

end VelasChain.LookupTable
