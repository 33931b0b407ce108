import VelasChain.LookupTable.Fork

/-!
# Resolving lookups along a fork

What the lookups of versioned messages resolve to on the banks of a fork
(`Accounts::load_lookup_table_addresses`), from the invariant of `Fork`:

* within a bank, no event changes what a lookup resolves to
  (`lookup_resolution_stable_within_bank`), so the order of the transactions of a block does not
  matter to any lookup: a table created in the slot has no address, the addresses an extension
  adds become active only in the next slot, and a table is closed only once deactivated;
* a closed table's address never holds a table again on the fork
  (`closed_table_address_never_reused`): the slot the address was derived from is older than the
  table's deactivation slot, which left the slot hashes before the close, and a table is created
  only from a slot of the slot hashes;
* a lookup that resolves resolves to the same addresses, or fails, at every later bank of the
  fork, and never panics (`lookup_resolution_never_changes`).

The address of a table is `createProgramAddress` of its authority, its derivation slot and a bump
seed, which are taken to determine the slot (`SeedsDetermineSlot`, the collision resistance of
the hash behind `Pubkey::create_program_address`).
-/

namespace VelasChain.LookupTable

variable {Key H : Type} [DecidableEq Key]

/-! ### Lookups within a bank -/

namespace AddressLookupTable

/-- The addresses a lookup of at least one index can resolve in a table at a slot: its active
addresses, when it is active, they are within its addresses, and there are some. -/
def resolvable (table : AddressLookupTable Key) (currentSlot : Slot)
    (slotHashes : List (Slot × H)) : Option (List Key) :=
  match table.activeAddresses currentSlot slotHashes with
  | .ok (some active) => if active = [] then none else some active
  | _ => none

variable {table table' : AddressLookupTable Key} {currentSlot : Slot} {slotHashes : List (Slot × H)}

omit [DecidableEq Key] in
/-- A table without addresses resolves no index. -/
lemma resolvable_of_addresses_eq_nil (h : table.addresses = []) :
    table.resolvable currentSlot slotHashes = none := by
  unfold resolvable activeAddresses
  cases table.getActiveAddressesLen currentSlot slotHashes with
  | error e => rfl
  | ok n => by_cases hn : n > 0 <;> simp [Except.map, h, hn]

omit [DecidableEq Key] in
/-- A deactivated table resolves no index. -/
lemma resolvable_of_status
    (h : table.lookupTableMeta.status currentSlot slotHashes = .deactivated) :
    table.resolvable currentSlot slotHashes = none := by
  have hinactive : table.lookupTableMeta.isActive currentSlot slotHashes = false := by
    simp [LookupTableMeta.isActive, h]
  simp [resolvable, activeAddresses, getActiveAddressesLen, hinactive, Except.map]

end AddressLookupTable

omit [DecidableEq Key] in
/-- A table that is not deactivated is active. -/
lemma LookupTableMeta.isActive_of_deactivationSlot {tableMeta : LookupTableMeta Key}
    {currentSlot : Slot} {slotHashes : List (Slot × H)}
    (h : tableMeta.deactivationSlot = slotMax ∨ tableMeta.deactivationSlot = currentSlot) :
    tableMeta.isActive currentSlot slotHashes = true := by
  unfold LookupTableMeta.isActive LookupTableMeta.status
  rcases h with h | h
  · simp [h]
  · simp only [h, if_true]
    split_ifs <;> rfl

omit [DecidableEq Key] in
/-- An update in a slot leaves the active addresses at that slot as they were, for a table last
extended at the latest in the slot and whose last extension starts within its addresses: the
addresses an extension adds are not active before the next slot. -/
lemma TableUpdate.activeAddresses_eq {currentSlot : Slot} {slotHashes : List (Slot × H)}
    {table table' : AddressLookupTable Key} (hupdate : TableUpdate currentSlot table table')
    (hlast : table.lookupTableMeta.lastExtendedSlot ≤ currentSlot)
    (hstart : table.lookupTableMeta.lastExtendedSlotStartIndex ≤ table.addresses.length) :
    table'.activeAddresses currentSlot slotHashes = table.activeAddresses currentSlot slotHashes := by
  cases hupdate with
  | freeze => rfl
  | extend newAddresses hactive =>
    have hact : table.lookupTableMeta.isActive currentSlot slotHashes = true :=
      LookupTableMeta.isActive_of_deactivationSlot (.inl hactive)
    have hact' : (extendedMeta currentSlot table.lookupTableMeta
        table.addresses.length).isActive currentSlot slotHashes = true :=
      LookupTableMeta.isActive_of_deactivationSlot (.inl (by simpa using hactive))
    by_cases hslot : currentSlot = table.lookupTableMeta.lastExtendedSlot
    · -- a later extension in the slot keeps the active length of the first one
      have hmeta : extendedMeta currentSlot table.lookupTableMeta table.addresses.length =
          table.lookupTableMeta := by simp [extendedMeta, hslot]
      rw [hmeta] at hact' ⊢
      have hnot : ¬currentSlot > table.lookupTableMeta.lastExtendedSlot := by
        rw [hslot]
        exact lt_irrefl _
      have hin : ¬table.lookupTableMeta.lastExtendedSlotStartIndex > table.addresses.length :=
        not_lt.mpr hstart
      simp [AddressLookupTable.activeAddresses, AddressLookupTable.getActiveAddressesLen, hact,
        Except.map, hnot, hin, List.take_append_of_le_length hstart]
      omega
    · -- the first extension in the slot starts at the addresses that were active
      have hlt : currentSlot > table.lookupTableMeta.lastExtendedSlot :=
        lt_of_le_of_ne hlast (Ne.symm hslot)
      have hmeta : extendedMeta currentSlot table.lookupTableMeta table.addresses.length =
          { table.lookupTableMeta with
            lastExtendedSlot := currentSlot
            lastExtendedSlotStartIndex := table.addresses.length } := by
        simp [extendedMeta, hslot]
      rw [hmeta] at hact' ⊢
      simp [AddressLookupTable.activeAddresses, AddressLookupTable.getActiveAddressesLen, hact,
        hact', Except.map, hlt]
  | deactivate hactive =>
    have hact : table.lookupTableMeta.isActive currentSlot slotHashes = true :=
      LookupTableMeta.isActive_of_deactivationSlot (.inl hactive)
    have hact' : { table.lookupTableMeta with deactivationSlot := currentSlot }.isActive
        currentSlot slotHashes = true :=
      LookupTableMeta.isActive_of_deactivationSlot (.inr rfl)
    simp only [AddressLookupTable.activeAddresses, AddressLookupTable.getActiveAddressesLen, hact,
      hact']

omit [DecidableEq Key] in
lemma TableUpdate.resolvable_eq {currentSlot : Slot} {slotHashes : List (Slot × H)}
    {table table' : AddressLookupTable Key} (hupdate : TableUpdate currentSlot table table')
    (hlast : table.lookupTableMeta.lastExtendedSlot ≤ currentSlot)
    (hstart : table.lookupTableMeta.lastExtendedSlotStartIndex ≤ table.addresses.length) :
    table'.resolvable currentSlot slotHashes = table.resolvable currentSlot slotHashes := by
  unfold AddressLookupTable.resolvable
  rw [hupdate.activeAddresses_eq hlast hstart]

section View

variable (env : Env Key) (loadZeroLamports : Bool)

/-- What the lookups of a bank resolve through the account at a key: the addresses a lookup of
at least one index can resolve in the table there. -/
def Bank.lookupView (bank : Bank Key H) (key : Key) : Option (List Key) :=
  match loadWithFixedRoot loadZeroLamports (bank.accounts key) with
  | some account =>
    match account.data with
    | .lookupTable table =>
      if account.owner = env.programId then table.resolvable bank.slot bank.slotHashes else none
    | _ => none
  | none => none

end View

section Within

variable {env : Env Key} {loadZeroLamports : Bool} {bank bank' : Bank Key H} {key : Key}
  {account : Account Key} {table : AddressLookupTable Key}

omit [DecidableEq Key] in
lemma mapM_getElem?_nil {indexes : List ℕ} (h : indexes ≠ []) :
    (indexes.mapM fun idx => ([] : List Key)[idx]?) = none := by
  obtain ⟨i, is, rfl⟩ := List.exists_cons_of_ne_nil h
  simp

/-- A lookup of at least one index resolves exactly when its indexes pick addresses the bank's
view of its table has, to those addresses. -/
theorem loadLookupTableAddresses_eq_ok_iff {l : MessageAddressTableLookup Key}
    (hl : l.writableIndexes ++ l.readonlyIndexes ≠ []) {loaded : LoadedAddresses Key} :
    loadLookupTableAddresses env loadZeroLamports bank l = some (.ok loaded) ↔
      ∃ active, bank.lookupView env loadZeroLamports l.accountKey = some active ∧
        l.writableIndexes.mapM (fun idx => active[idx]?) = some loaded.writable ∧
        l.readonlyIndexes.mapM (fun idx => active[idx]?) = some loaded.readonly := by
  unfold loadLookupTableAddresses Bank.lookupView
  cases loadWithFixedRoot loadZeroLamports (bank.accounts l.accountKey) with
  | none => simp
  | some account =>
    obtain ⟨lamports, owner, data⟩ := account
    by_cases howner : owner = env.programId
    swap
    · cases data <;> simp [howner]
    cases data with
    | lookupTable table =>
      simp only [howner, if_true, TableData.deserialize, AddressLookupTable.lookup_eq,
        AddressLookupTable.resolvable]
      cases table.activeAddresses bank.slot bank.slotHashes with
      | error e => simp
      | ok active? =>
        cases active? with
        | none => simp
        | some active =>
          dsimp only
          by_cases hnil : active = []
          · -- no address to pick: one of the lookups fails
            subst hnil
            by_cases hw : l.writableIndexes = []
            · have hr : l.readonlyIndexes ≠ [] := by simpa [hw] using hl
              rw [mapM_getElem?_nil hr]
              simp [hw, Except.okOr, Except.map]
            · rw [mapM_getElem?_nil hw]
              simp [Except.okOr]
          · simp only [hnil, if_false, Option.some.injEq, exists_eq_left']
            cases hw : l.writableIndexes.mapM (fun idx => active[idx]?) <;>
              cases hr : l.readonlyIndexes.mapM (fun idx => active[idx]?) <;>
              cases loaded <;> simp [Except.okOr, Except.map]
    | _ => simp [howner, TableData.deserialize]

omit [DecidableEq Key] in
/-- A reachable bank loads every table account it holds. -/
lemma loadWithFixedRoot_of_holdsTable (hinv : Inv env bank)
    (hholds : bank.HoldsTable env key account table) :
    loadWithFixedRoot loadZeroLamports (bank.accounts key) = some account :=
  loadWithFixedRoot_eq_some.mpr
    ⟨hholds.1, fun h => (hinv.tables key account table hholds).lamports_pos.ne' h.1⟩

lemma lookupView_of_holdsTable (hinv : Inv env bank)
    (hholds : bank.HoldsTable env key account table) :
    bank.lookupView env loadZeroLamports key = table.resolvable bank.slot bank.slotHashes := by
  simp only [Bank.lookupView, loadWithFixedRoot_of_holdsTable hinv hholds, hholds.2.2,
    hholds.2.1, if_true]

lemma lookupView_of_noTable (h : ∀ account table, ¬bank.HoldsTable env key account table) :
    bank.lookupView env loadZeroLamports key = none := by
  unfold Bank.lookupView
  cases hload : loadWithFixedRoot loadZeroLamports (bank.accounts key) with
  | none => rfl
  | some account =>
    have hstored := (loadWithFixedRoot_eq_some.mp hload).1
    dsimp only
    split
    · rename_i table hdata
      rw [if_neg fun howner => h account table ⟨hstored, howner, hdata⟩]
    · rfl

/-- No event within a bank changes its view of any table: a table it keeps or updates resolves
the same, a table it creates has no address, and a table it closes was deactivated. -/
lemma BankStep.lookupView_eq (hinv : Inv env bank) (h : BankStep env loadZeroLamports bank bank')
    (key : Key) : bank'.lookupView env loadZeroLamports key = bank.lookupView env loadZeroLamports key := by
  have hinv' := hinv.bankStep h
  by_cases hnew : ∃ account' table', bank'.HoldsTable env key account' table'
  · obtain ⟨account', table', hholds'⟩ := hnew
    obtain ⟨accounts, rfl⟩ := h.withAccounts
    rw [lookupView_of_holdsTable hinv' hholds']
    cases h.tableOrigin hinv hholds' with
    | kept hholds hle => rw [lookupView_of_holdsTable hinv hholds]
    | updated hholds hupdate hle =>
      have htable := hinv.tables _ _ _ hholds
      rw [lookupView_of_holdsTable hinv hholds]
      exact hupdate.resolvable_eq htable.lastExtendedSlot_le htable.startIndex_le
    | created authority recentSlot bumpSeed hderived hcontains hpos hnone =>
      rw [lookupView_of_noTable hnone]
      exact AddressLookupTable.resolvable_of_addresses_eq_nil rfl
  · simp only [not_exists] at hnew
    rw [lookupView_of_noTable hnew]
    by_cases hold : ∃ account table, bank.HoldsTable env key account table
    · obtain ⟨account, table, hholds⟩ := hold
      rw [lookupView_of_holdsTable hinv hholds,
        AddressLookupTable.resolvable_of_status (h.status_of_removed hinv hholds hnew)]
    · simp only [not_exists] at hold
      rw [lookupView_of_noTable hold]

lemma Inv.bankSteps (hinv : Inv env bank)
    (hrun : Relation.ReflTransGen (BankStep env loadZeroLamports) bank bank') : Inv env bank' := by
  induction hrun with
  | refl => exact hinv
  | tail _ hstep ih => exact ih.bankStep hstep

lemma lookupView_of_bankSteps (hinv : Inv env bank)
    (hrun : Relation.ReflTransGen (BankStep env loadZeroLamports) bank bank') (key : Key) :
    bank'.lookupView env loadZeroLamports key = bank.lookupView env loadZeroLamports key := by
  induction hrun with
  | refl => rfl
  | tail hrun hstep ih => rw [hstep.lookupView_eq (hinv.bankSteps hrun) key, ih]

/-- Within a bank of a fork, no event changes what a lookup of at least one index resolves to:
the order of the transactions of a block does not matter to their lookups. -/
theorem lookup_resolution_stable_within_bank
    (hreach : Reachable (Genesis env) (ForkStep env loadZeroLamports) bank)
    (hrun : Relation.ReflTransGen (BankStep env loadZeroLamports) bank bank')
    {l : MessageAddressTableLookup Key} (hl : l.writableIndexes ++ l.readonlyIndexes ≠ [])
    (loaded : LoadedAddresses Key) :
    loadLookupTableAddresses env loadZeroLamports bank' l = some (.ok loaded) ↔
      loadLookupTableAddresses env loadZeroLamports bank l = some (.ok loaded) := by
  rw [loadLookupTableAddresses_eq_ok_iff hl, loadLookupTableAddresses_eq_ok_iff hl,
    lookupView_of_bankSteps (Inv.of_reachable hreach) hrun]

end Within

/-! ### A small fork -/

/-- The accounts of a small fork: the two programs, a payer, an authority, a table, and two
addresses for the table to list. -/
inductive DemoKey where
  | systemProgram
  | program
  | payer
  | authority
  | table
  | first
  | second
  deriving DecidableEq, Repr

instance : Fintype DemoKey where
  elems := {.systemProgram, .program, .payer, .authority, .table, .first, .second}
  complete key := by cases key <;> decide

/-- The table's address is derived from the authority and slot 0 alone. -/
def demoEnv : Env DemoKey where
  programId := .program
  systemProgramId := .systemProgram
  minimumBalance _ := 1
  createProgramAddress signer slot bumpSeed :=
    if signer = .authority ∧ slot = 0 ∧ bumpSeed = 0 then some .table else none

/-- A genesis bank at slot 1, after slot 0, where the payer holds lamports. -/
def genesisBank : Bank DemoKey ℕ :=
  ⟨1, [0], [(0, 0)], fun key => if key = .payer then some ⟨1000, .systemProgram, .empty⟩ else none⟩

theorem genesis_genesisBank : Genesis demoEnv genesisBank where
  recent := ⟨by decide, by decide, by decide⟩
  no_tables key account table hholds := by
    obtain ⟨hstored, -, hdata⟩ := hholds
    simp only [genesisBank] at hstored
    -- only the payer is stored, without data
    split_ifs at hstored
    cases hstored
    cases hdata

/-- The table, its authority and the payer, as the program's instructions take them. -/
def tableAccounts : List (InstructionAccount DemoKey) :=
  [⟨.table, false⟩, ⟨.authority, true⟩, ⟨.payer, true⟩]

/-- The accounts once the table is created, its rent paid by the payer. -/
def createdAccounts : DemoKey → Option (Account DemoKey)
  | .payer => some ⟨999, .systemProgram, .empty⟩
  | .table => some ⟨1, .program, .lookupTable ⟨LookupTableMeta.new .authority, []⟩⟩
  | _ => none

/-- The accounts once the table is extended by the two addresses in the slot of its creation. -/
def extendedAccounts : DemoKey → Option (Account DemoKey)
  | .payer => some ⟨999, .systemProgram, .empty⟩
  | .table => some ⟨1, .program, .lookupTable ⟨⟨slotMax, 1, 0, some .authority⟩, [.first, .second]⟩⟩
  | _ => none

def createdBank : Bank DemoKey ℕ := { genesisBank with accounts := createdAccounts }

def extendedBank : Bank DemoKey ℕ := { genesisBank with accounts := extendedAccounts }

theorem bankStep_createdBank : BankStep demoEnv false genesisBank createdBank :=
  BankStep.of_isOk (.createLookupTable 0 0) tableAccounts (by decide +kernel)
    (funext (by decide +kernel))

theorem bankStep_extendedBank : BankStep demoEnv false createdBank extendedBank :=
  BankStep.of_isOk (.extendLookupTable [.first, .second]) tableAccounts (by decide +kernel)
    (funext (by decide +kernel))

theorem reachable_createdBank : Reachable (Genesis demoEnv) (ForkStep demoEnv false) createdBank :=
  .step (.init genesis_genesisBank) (.bank bankStep_createdBank)

/-- The addresses an extension adds in the slot of the table's creation do not resolve in that
slot. -/
theorem extension_in_creation_slot_resolves_alike :
    loadLookupTableAddresses demoEnv false extendedBank ⟨.table, [0], []⟩ =
        some (.ok ⟨[.first], []⟩) ↔
      loadLookupTableAddresses demoEnv false createdBank ⟨.table, [0], []⟩ =
        some (.ok ⟨[.first], []⟩) :=
  lookup_resolution_stable_within_bank reachable_createdBank (.single bankStep_extendedBank)
    (by decide) _

/-! ### The addresses of closed tables -/

/-- The seeds of a table's address determine its slot: two derivations of one address are from
one slot. -/
def SeedsDetermineSlot (env : Env Key) : Prop :=
  ∀ authority recentSlot bumpSeed authority' recentSlot' bumpSeed' key,
    env.createProgramAddress authority recentSlot bumpSeed = some key →
    env.createProgramAddress authority' recentSlot' bumpSeed' = some key →
    recentSlot = recentSlot'

/-- Every slot an address can be derived from has left the slot hashes for good. -/
def Bank.Vacated (env : Env Key) (bank : Bank Key H) (key : Key) : Prop :=
  ∀ authority recentSlot bumpSeed,
    env.createProgramAddress authority recentSlot bumpSeed = some key → bank.Gone recentSlot

/-- An address holds a table, or has been vacated for good. -/
def Bank.Claimed (env : Env Key) (bank : Bank Key H) (key : Key) : Prop :=
  (∃ account table, bank.HoldsTable env key account table) ∨ bank.Vacated env key

section Vacated

variable {env : Env Key} {loadZeroLamports : Bool} {bank bank' : Bank Key H} {key : Key}
  {account : Account Key} {table : AddressLookupTable Key}

omit [DecidableEq Key] in
/-- A table whose deactivation slot has left the slot hashes for good is deactivated. -/
lemma LookupTableMeta.status_of_gone (hrecent : bank.Recent) {tableMeta : LookupTableMeta Key}
    (hgone : bank.Gone tableMeta.deactivationSlot) (hmax : tableMeta.deactivationSlot ≠ slotMax) :
    tableMeta.status bank.slot bank.slotHashes = .deactivated := by
  have hcurrent : tableMeta.deactivationSlot ≠ bank.slot := (hrecent.ancestors_lt _ hgone.1).ne
  have hnone : SlotHashes.position bank.slotHashes tableMeta.deactivationSlot = none := by
    rw [← Option.not_isSome_iff_eq_none, SlotHashes.position_isSome_iff hrecent.slotHashes_sorted,
      hrecent.slotHashes_eq]
    exact hgone.2
  simp [LookupTableMeta.status, hmax, hcurrent, hnone]

omit [DecidableEq Key] in
/-- A fully deactivated table leaves its address vacated: the slot it was derived from is older
than the slot of its deactivation, which has left the slot hashes. -/
lemma vacated_of_status (hseeds : SeedsDetermineSlot env) (hinv : Inv env bank)
    (hholds : bank.HoldsTable env key account table)
    (hstatus : table.lookupTableMeta.status bank.slot bank.slotHashes = .deactivated) :
    bank.Vacated env key := by
  obtain ⟨authority, recentSlot, bumpSeed, hkey, hmem, hdeactivation⟩ :=
    (hinv.tables key account table hholds).derived
  have hinactive : ¬table.lookupTableMeta.isActive bank.slot bank.slotHashes = true := by
    simp [LookupTableMeta.isActive, hstatus]
  rw [LookupTableMeta.isActive_iff hinv.recent.slotHashes_sorted,
    hinv.recent.slotHashes_eq] at hinactive
  simp only [not_or] at hinactive
  obtain ⟨hmax, hcurrent, hgone⟩ := hinactive
  rcases hdeactivation with hmax' | ⟨hlt, hdeactivated⟩
  · exact absurd hmax' hmax
  have hancestor := (List.mem_cons.mp hdeactivated).resolve_left hcurrent
  intro authority' recentSlot' bumpSeed' hkey'
  rw [← hseeds _ _ _ _ _ _ _ hkey hkey']
  exact ⟨hmem, not_mem_take_of_lt hinv.recent.ancestors_sorted hancestor hgone hlt⟩

lemma Bank.Vacated.bankStep (hvacated : bank.Vacated env key)
    (h : BankStep env loadZeroLamports bank bank') : bank'.Vacated env key := by
  obtain ⟨accounts, rfl⟩ := h.withAccounts
  exact hvacated

omit [DecidableEq Key] in
lemma Bank.Vacated.child (hvacated : bank.Vacated env key) (hrecent : bank.Recent) {slot : Slot}
    (parentHash : H) :
    Bank.Vacated env (⟨slot, bank.slot :: bank.ancestors,
      SlotHashes.add bank.slotHashes bank.slot parentHash, bank.accounts⟩ : Bank Key H) key :=
  fun authority recentSlot bumpSeed hkey =>
    (hvacated authority recentSlot bumpSeed hkey).child hrecent parentHash

/-- No event creates a table at a vacated address: a table is created only from a slot of the
slot hashes. -/
lemma BankStep.noTable_of_vacated (hinv : Inv env bank)
    (h : BankStep env loadZeroLamports bank bank') (hvacated : bank.Vacated env key)
    (hnone : ∀ account table, ¬bank.HoldsTable env key account table) :
    ∀ account table, ¬bank'.HoldsTable env key account table := by
  intro account' table' hholds'
  cases h.tableOrigin hinv hholds' with
  | kept hholds => exact hnone _ _ hholds
  | updated hholds => exact hnone _ _ hholds
  | created authority recentSlot bumpSeed hderived hcontains =>
    exact (hvacated authority recentSlot bumpSeed hderived).2
      (hinv.recent.mem_take_of_contains hcontains)

/-- An address that holds a table holds it until it is vacated. -/
lemma Bank.Claimed.forkStep (hseeds : SeedsDetermineSlot env) (hinv : Inv env bank)
    (hclaimed : bank.Claimed env key) (h : ForkStep env loadZeroLamports bank bank') :
    bank'.Claimed env key := by
  cases h with
  | child slot parentHash hslot =>
    rcases hclaimed with ⟨account, table, hholds⟩ | hvacated
    · exact .inl ⟨account, table, hholds⟩
    · exact .inr (hvacated.child hinv.recent parentHash)
  | bank hstep =>
    by_cases hnew : ∃ account table, bank'.HoldsTable env key account table
    · exact .inl hnew
    simp only [not_exists] at hnew
    -- the table is gone: it was closed fully deactivated
    refine .inr (Bank.Vacated.bankStep ?_ hstep)
    rcases hclaimed with ⟨account, table, hholds⟩ | hvacated
    · exact vacated_of_status hseeds hinv hholds (hstep.status_of_removed hinv hholds hnew)
    · exact hvacated

/-- A vacated address without a table stays so. -/
lemma Bank.Vacated.forkStep (hinv : Inv env bank) (hvacated : bank.Vacated env key)
    (hnone : ∀ account table, ¬bank.HoldsTable env key account table)
    (h : ForkStep env loadZeroLamports bank bank') :
    bank'.Vacated env key ∧ ∀ account table, ¬bank'.HoldsTable env key account table := by
  cases h with
  | child slot parentHash hslot => exact ⟨hvacated.child hinv.recent parentHash, hnone⟩
  | bank hstep => exact ⟨hvacated.bankStep hstep, hstep.noTable_of_vacated hinv hvacated hnone⟩

/-- Once the table at an address is gone, no later bank of the fork holds a table there again:
the table was closed fully deactivated, the slot its address was derived from, older than its
deactivation slot, has left the slot hashes for good, and a table is created only from a slot
of the slot hashes. -/
theorem closed_table_address_never_reused (hseeds : SeedsDetermineSlot env)
    {bank₀ bank₁ bank₂ : Bank Key H}
    (hreach : Reachable (Genesis env) (ForkStep env loadZeroLamports) bank₀)
    (hheld : bank₀.HoldsTable env key account table)
    (hrun₁ : Relation.ReflTransGen (ForkStep env loadZeroLamports) bank₀ bank₁)
    (hgone : ∀ account table, ¬bank₁.HoldsTable env key account table)
    (hrun₂ : Relation.ReflTransGen (ForkStep env loadZeroLamports) bank₁ bank₂) :
    ∀ account table, ¬bank₂.HoldsTable env key account table := by
  -- the address stays claimed by its table until it is vacated
  have hclaimed : bank₁.Claimed env key :=
    Reachable.inv_of_reflTransGen (motive := fun bank => bank.Claimed env key) hreach
      (.inl ⟨account, table, hheld⟩)
      (fun _ _ hreach' hclaimed hstep => hclaimed.forkStep hseeds (Inv.of_reachable hreach') hstep)
      hrun₁
  have hvacated : bank₁.Vacated env key :=
    hclaimed.resolve_left fun ⟨account, table, hholds⟩ => hgone account table hholds
  have hstays : bank₂.Vacated env key ∧ ∀ account table, ¬bank₂.HoldsTable env key account table :=
    Reachable.inv_of_reflTransGen
      (motive := fun bank => bank.Vacated env key ∧ ∀ account table, ¬bank.HoldsTable env key account table)
      (hreach.of_reflTransGen hrun₁) ⟨hvacated, hgone⟩
      (fun _ _ hreach' hboth hstep => hboth.1.forkStep (Inv.of_reachable hreach') hboth.2 hstep)
      hrun₂
  exact hstays.2

end Vacated

theorem seedsDetermineSlot_demoEnv : SeedsDetermineSlot demoEnv := by
  intro signer recentSlot bumpSeed signer' recentSlot' bumpSeed' key h h'
  simp only [demoEnv] at h h'
  split_ifs at h h' with hseeds hseeds'
  rw [hseeds.2.1, hseeds'.2.1]

/-- The next bank, at slot 2, whose lookups see the addresses of the extension. -/
def nextBank : Bank DemoKey ℕ := extendedBank.descendant 0 1

/-- The accounts once the table is deactivated in slot 2. -/
def deactivatedAccounts : DemoKey → Option (Account DemoKey)
  | .payer => some ⟨999, .systemProgram, .empty⟩
  | .table => some ⟨1, .program, .lookupTable ⟨⟨2, 1, 0, some .authority⟩, [.first, .second]⟩⟩
  | _ => none

/-- The accounts once the table is closed, its lamports paid back to the payer. -/
def closedAccounts : DemoKey → Option (Account DemoKey)
  | .payer => some ⟨1000, .systemProgram, .empty⟩
  | .table => some ⟨0, .program, .empty⟩
  | _ => none

def deactivatedBank : Bank DemoKey ℕ := { nextBank with accounts := deactivatedAccounts }

/-- The bank `maxEntries` slots after the child of the deactivated bank: the table has cooled
down. -/
def cooledBank : Bank DemoKey ℕ := (deactivatedBank.descendant 0 1).descendant 0 maxEntries

def closedBank : Bank DemoKey ℕ := { cooledBank with accounts := closedAccounts }

theorem reachable_nextBank : Reachable (Genesis demoEnv) (ForkStep demoEnv false) nextBank :=
  reachable_createdBank.of_reflTransGen
    (.head (.bank bankStep_extendedBank) (Bank.reflTransGen_descendant 0 1 _))

theorem reflTransGen_nextBank_cooledBank :
    Relation.ReflTransGen (ForkStep demoEnv false) nextBank cooledBank :=
  .head (.bank (BankStep.of_isOk .deactivateLookupTable tableAccounts (by decide +kernel)
    (funext (by decide +kernel))))
    ((Bank.reflTransGen_descendant 0 1 _).trans (Bank.reflTransGen_descendant 0 maxEntries _))

/-- In the cooled bank the table has left the slot hashes, and its authority closes it into the
payer. -/
lemma process_close_cooledBank :
    processInstruction demoEnv cooledBank.slot cooledBank.slotHashes tableAccounts
        (cooledBank.txAccounts demoEnv false) .closeLookupTable =
      .ok (((deactivatedBank.txAccounts demoEnv false).set .payer ⟨1000, .systemProgram, .empty⟩).set
        .table ⟨0, .program, .empty⟩) := by
  have hrecent : cooledBank.Recent := (Inv.of_reachable (reachable_nextBank.of_reflTransGen
    reflTransGen_nextBank_cooledBank)).recent
  -- slot 2 of the deactivation is older than the `maxEntries` slots after it
  have hgone : cooledBank.Gone 2 := Bank.gone_descendant 0 (by decide) (by decide)
  have hstatus : (⟨2, 1, 0, some .authority⟩ : LookupTableMeta DemoKey).status cooledBank.slot
      cooledBank.slotHashes = .deactivated :=
    LookupTableMeta.status_of_gone hrecent hgone (by decide)
  rw [cooledBank, Bank.txAccounts_descendant, Bank.txAccounts_descendant]
  exact closeLookupTable_eq_ok rfl (by decide) rfl rfl hstatus (by decide)

theorem reflTransGen_nextBank_closedBank :
    Relation.ReflTransGen (ForkStep demoEnv false) nextBank closedBank := by
  refine reflTransGen_nextBank_cooledBank.tail (.bank (BankStep.of_isOk .closeLookupTable
    tableAccounts (by rw [process_close_cooledBank]; rfl) ?_))
  rw [process_close_cooledBank, cooledBank, Bank.store_descendant, Bank.store_descendant]
  exact funext (by decide +kernel)

/-- The next bank holds the extended table. -/
lemma holdsTable_nextBank : nextBank.HoldsTable demoEnv .table
    ⟨1, .program, .lookupTable ⟨⟨slotMax, 1, 0, some .authority⟩, [.first, .second]⟩⟩
    ⟨⟨slotMax, 1, 0, some .authority⟩, [.first, .second]⟩ :=
  ⟨rfl, rfl, rfl⟩

lemma noTable_closedBank :
    ∀ account table, ¬closedBank.HoldsTable demoEnv .table account table := by
  rintro account table ⟨hstored, -, hdata⟩
  cases hstored
  cases hdata

/-- Once the table is closed, the next bank holds no table at its address either. -/
theorem closed_table_stays_closed :
    SeedsDetermineSlot demoEnv ∧
      ¬(closedBank.descendant 0 1).HoldsTable demoEnv .table
        ⟨1, .program, .lookupTable ⟨⟨slotMax, 1, 0, some .authority⟩, [.first, .second]⟩⟩
        ⟨⟨slotMax, 1, 0, some .authority⟩, [.first, .second]⟩ :=
  ⟨seedsDetermineSlot_demoEnv,
    closed_table_address_never_reused seedsDetermineSlot_demoEnv reachable_nextBank
      holdsTable_nextBank reflTransGen_nextBank_closedBank noTable_closedBank
      (Bank.reflTransGen_descendant 0 1 _) _ _⟩

/-! ### Lookups along the fork -/

namespace AddressLookupTable

/-- A table keeps addresses first, and has them active from the slot after `slot` on: its
addresses extend them, and its last extension, when in `slot` or later, started past them. -/
def Keeps (table : AddressLookupTable Key) (slot : Slot) (active : List Key) : Prop :=
  active <+: table.addresses ∧
    (active.length ≤ table.lookupTableMeta.lastExtendedSlotStartIndex ∨
      table.lookupTableMeta.lastExtendedSlot < slot)

variable {table table' : AddressLookupTable Key} {slot : Slot} {slotHashes : List (Slot × H)}
  {active active' : List Key}

omit [DecidableEq Key] in
/-- What a table has active at a slot is what it then keeps. -/
lemma keeps_of_activeAddresses (h : table.activeAddresses slot slotHashes = .ok (some active)) :
    table.Keeps slot active := by
  unfold activeAddresses getActiveAddressesLen at h
  by_cases hactive : table.lookupTableMeta.isActive slot slotHashes = true
  swap
  · simp [hactive, Except.map] at h
  by_cases hlater : slot > table.lookupTableMeta.lastExtendedSlot
  · -- past the slot of the last extension every address is active
    simp only [hactive, hlater, Bool.not_true, Bool.false_eq_true, if_false, if_true, Except.map,
      lt_irrefl, Except.ok.injEq, Option.some.injEq] at h
    rw [List.take_length] at h
    exact ⟨h ▸ List.prefix_refl _, .inr hlater⟩
  · simp only [hactive, hlater, Bool.not_true, Bool.false_eq_true, if_false, Except.map,
      Except.ok.injEq] at h
    split_ifs at h
    simp only [Option.some.injEq] at h
    subst h
    exact ⟨List.take_prefix _ _, .inl (List.length_take_le _ _)⟩

omit [DecidableEq Key] in
/-- What a table keeps is within what it has active at the slot. -/
lemma Keeps.isPrefix_of_activeAddresses (hkeeps : table.Keeps slot active)
    (h : table.activeAddresses slot slotHashes = .ok (some active')) : active <+: active' := by
  unfold activeAddresses getActiveAddressesLen at h
  by_cases hactive : table.lookupTableMeta.isActive slot slotHashes = true
  swap
  · simp [hactive, Except.map] at h
  simp only [hactive, Bool.not_true, Bool.false_eq_true, if_false, Except.map,
    Except.ok.injEq] at h
  by_cases hlater : slot > table.lookupTableMeta.lastExtendedSlot
  · simp only [hlater, if_true, lt_irrefl, if_false, Option.some.injEq] at h
    subst h
    exact List.prefix_take_iff.mpr ⟨hkeeps.1, hkeeps.1.length_le⟩
  · -- within the slot of the last extension, it started past the kept addresses
    simp only [hlater, if_false] at h
    split_ifs at h
    simp only [Option.some.injEq] at h
    subst h
    exact List.prefix_take_iff.mpr ⟨hkeeps.1, hkeeps.2.resolve_right hlater⟩

omit [DecidableEq Key] in
/-- A table last extended at the latest in a slot keeps at every later slot. -/
lemma Keeps.later (hkeeps : table.Keeps slot active)
    (hlast : table.lookupTableMeta.lastExtendedSlot ≤ slot) {slot' : Slot} (hslot : slot < slot') :
    table.Keeps slot' active :=
  ⟨hkeeps.1, .inr (hlast.trans_lt hslot)⟩

omit [DecidableEq Key] in
/-- A table that is active within its addresses has its active addresses. -/
lemma activeAddresses_ne_none
    (hstart : table.lookupTableMeta.lastExtendedSlotStartIndex ≤ table.addresses.length) :
    table.activeAddresses slot slotHashes ≠ .ok none := by
  unfold activeAddresses getActiveAddressesLen
  by_cases hactive : table.lookupTableMeta.isActive slot slotHashes = true
  · have hlen : (if slot > table.lookupTableMeta.lastExtendedSlot then table.addresses.length
        else table.lookupTableMeta.lastExtendedSlotStartIndex) ≤ table.addresses.length := by
      split_ifs <;> omega
    simp [hactive, Except.map, not_lt.mpr hlen]
  · simp [hactive, Except.map]

end AddressLookupTable

omit [DecidableEq Key] in
/-- An update keeps what the table kept: the addresses only grow, and an extension in the slot
starts past what was active before it. -/
lemma TableUpdate.keeps {slot : Slot} {table table' : AddressLookupTable Key} {active : List Key}
    (hupdate : TableUpdate slot table table') (hkeeps : table.Keeps slot active) :
    table'.Keeps slot active := by
  cases hupdate with
  | freeze => exact hkeeps
  | extend newAddresses hactive =>
    refine ⟨hkeeps.1.trans (List.prefix_append _ _), ?_⟩
    simp only [extendedMeta]
    split_ifs
    · exact .inl hkeeps.1.length_le
    · exact hkeeps.2
  | deactivate hactive => exact hkeeps

/-- The table at an address keeps addresses first, and has them active from the bank's next slot
on. -/
def Bank.KeepsActive (env : Env Key) (bank : Bank Key H) (key : Key) (active : List Key) :
    Prop :=
  ∀ account table, bank.HoldsTable env key account table → table.Keeps bank.slot active

section Along

variable {env : Env Key} {loadZeroLamports : Bool} {bank bank' : Bank Key H} {key : Key}
  {active : List Key}

/-- The table at an address keeps what it keeps at every step of the fork, as long as the address
is claimed: the table cannot be replaced by another. -/
lemma Bank.KeepsActive.forkStep (hinv : Inv env bank) (hkeeps : bank.KeepsActive env key active)
    (hclaimed : bank.Claimed env key) (h : ForkStep env loadZeroLamports bank bank') :
    bank'.KeepsActive env key active := by
  intro account' table' hholds'
  cases h with
  | child slot parentHash hslot =>
    exact (hkeeps account' table' hholds').later
      (hinv.tables key account' table' hholds').lastExtendedSlot_le hslot
  | bank hstep =>
    obtain ⟨accounts, rfl⟩ := hstep.withAccounts
    cases hstep.tableOrigin hinv hholds' with
    | kept hholds => exact hkeeps _ _ hholds
    | updated hholds hupdate => exact hupdate.keeps (hkeeps _ _ hholds)
    | created authority recentSlot bumpSeed hderived hcontains hpos hnone =>
      -- the address held no table, so it was vacated, and no table is created there
      have hvacated := hclaimed.resolve_left fun ⟨account, table, hholds⟩ => hnone account table hholds
      exact absurd (hinv.recent.mem_take_of_contains hcontains)
        (hvacated authority recentSlot bumpSeed hderived).2

/-- A lookup that resolves went through a table the bank holds, which keeps the addresses it
had active. -/
lemma keepsActive_of_load {l : MessageAddressTableLookup Key}
    {loaded : LoadedAddresses Key}
    (h : loadLookupTableAddresses env loadZeroLamports bank l = some (.ok loaded)) :
    ∃ active, bank.KeepsActive env l.accountKey active ∧ bank.Claimed env l.accountKey ∧
      l.writableIndexes.mapM (fun idx => active[idx]?) = some loaded.writable ∧
      l.readonlyIndexes.mapM (fun idx => active[idx]?) = some loaded.readonly := by
  unfold loadLookupTableAddresses at h
  cases hload : loadWithFixedRoot loadZeroLamports (bank.accounts l.accountKey) with
  | none => simp [hload] at h
  | some account =>
    have hstored := (loadWithFixedRoot_eq_some.mp hload).1
    simp only [hload] at h
    split_ifs at h with howner
    swap
    · simp at h
    cases hdata : account.data with
    | lookupTable table =>
      have hholds : bank.HoldsTable env l.accountKey account table := ⟨hstored, howner, hdata⟩
      simp only [hdata, TableData.deserialize, AddressLookupTable.lookup_eq] at h
      cases hactive : table.activeAddresses bank.slot bank.slotHashes with
      | error e => simp [hactive] at h
      | ok active? =>
        cases active? with
        | none => simp [hactive] at h
        | some active =>
          simp only [hactive] at h
          -- both lookups resolved in the active addresses
          cases hw : l.writableIndexes.mapM (fun idx => active[idx]?) <;>
            cases hr : l.readonlyIndexes.mapM (fun idx => active[idx]?) <;>
            simp [Except.okOr, Except.map, hw, hr] at h
          refine ⟨active, fun account' table' hholds' => ?_, .inl ⟨account, table, hholds⟩,
            by rw [← h]; exact hw, by rw [← h]; exact hr⟩
          rw [hholds'.1, Option.some.injEq] at hstored
          subst hstored
          rw [hholds'.2.2, TableData.lookupTable.injEq] at hdata
          subst hdata
          exact AddressLookupTable.keeps_of_activeAddresses hactive
    | _ => simp [hdata, TableData.deserialize] at h

/-- At a bank whose table at the address keeps the addresses a lookup resolved in, the lookup
resolves the same, or fails: it never panics. -/
lemma load_of_keepsActive (hinv : Inv env bank) {l : MessageAddressTableLookup Key}
    {loaded : LoadedAddresses Key} (hkeeps : bank.KeepsActive env l.accountKey active)
    (hw : l.writableIndexes.mapM (fun idx => active[idx]?) = some loaded.writable)
    (hr : l.readonlyIndexes.mapM (fun idx => active[idx]?) = some loaded.readonly) :
    loadLookupTableAddresses env loadZeroLamports bank l = some (.ok loaded) ∨
      ∃ e, loadLookupTableAddresses env loadZeroLamports bank l = some (.error e) := by
  unfold loadLookupTableAddresses
  cases hload : loadWithFixedRoot loadZeroLamports (bank.accounts l.accountKey) with
  | none => exact .inr ⟨_, rfl⟩
  | some account =>
    have hstored := (loadWithFixedRoot_eq_some.mp hload).1
    dsimp only
    split_ifs with howner
    swap
    · exact .inr ⟨_, rfl⟩
    cases hdata : account.data with
    | lookupTable table =>
      have hholds : bank.HoldsTable env l.accountKey account table := ⟨hstored, howner, hdata⟩
      simp only [TableData.deserialize, AddressLookupTable.lookup_eq]
      cases hactive : table.activeAddresses bank.slot bank.slotHashes with
      | error e => exact .inr ⟨e, rfl⟩
      | ok active? =>
        cases active? with
        | none =>
          exact absurd hactive (AddressLookupTable.activeAddresses_ne_none
            (hinv.tables _ _ _ hholds).startIndex_le)
        | some active' =>
          -- what the lookup resolved in is within what the table has active now
          have hpre := (hkeeps account table hholds).isPrefix_of_activeAddresses hactive
          left
          simp [Except.okOr, Except.map, AddressLookupTable.mapM_getElem?_of_isPrefix hpre hw,
            AddressLookupTable.mapM_getElem?_of_isPrefix hpre hr]
    | _ => exact .inr ⟨_, rfl⟩

/-- A lookup that resolves at a bank of a fork resolves to the same addresses, or fails, at every
later bank of the fork: a table's addresses only grow, those a lookup saw stay active, and its
address never holds another table. -/
theorem lookup_resolution_never_changes (hseeds : SeedsDetermineSlot env)
    (hreach : Reachable (Genesis env) (ForkStep env loadZeroLamports) bank)
    {l : MessageAddressTableLookup Key} {loaded : LoadedAddresses Key}
    (hresolved : loadLookupTableAddresses env loadZeroLamports bank l = some (.ok loaded))
    (hrun : Relation.ReflTransGen (ForkStep env loadZeroLamports) bank bank') :
    loadLookupTableAddresses env loadZeroLamports bank' l = some (.ok loaded) ∨
      ∃ e, loadLookupTableAddresses env loadZeroLamports bank' l = some (.error e) := by
  obtain ⟨active, hkeeps, hclaimed, hw, hr⟩ := keepsActive_of_load hresolved
  -- the table keeps what the lookup saw for as long as the address is claimed, which is always
  have hlater : bank'.KeepsActive env l.accountKey active ∧ bank'.Claimed env l.accountKey :=
    Reachable.inv_of_reflTransGen
      (motive := fun bank => bank.KeepsActive env l.accountKey active ∧ bank.Claimed env l.accountKey)
      hreach ⟨hkeeps, hclaimed⟩
      (fun _ _ hreach' hboth hstep => ⟨hboth.1.forkStep (Inv.of_reachable hreach') hboth.2 hstep,
        hboth.2.forkStep hseeds (Inv.of_reachable hreach') hstep⟩) hrun
  exact load_of_keepsActive (Inv.of_reachable (hreach.of_reflTransGen hrun)) hlater.1 hw hr

end Along

/-- What resolved in the next bank resolves the same, or fails, in the bank of the close. -/
theorem lookup_after_close_resolves_alike :
    loadLookupTableAddresses demoEnv false closedBank ⟨.table, [1], [0]⟩ =
        some (.ok ⟨[.second], [.first]⟩) ∨
      ∃ e, loadLookupTableAddresses demoEnv false closedBank ⟨.table, [1], [0]⟩ =
        some (.error e) :=
  lookup_resolution_never_changes seedsDetermineSlot_demoEnv reachable_nextBank
    (by decide +kernel) reflTransGen_nextBank_closedBank

end VelasChain.LookupTable
