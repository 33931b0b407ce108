import VelasChain.Sdk.Message
import VelasChain.Lib.KeyTable
import Mathlib.Data.Finset.Card

/-!
# Compiling instructions keeps their accounts and privileges

`Message::new_with_blockhash` lays the keys out as the payer, the other writable signers, the
read-only signers, the writable non-signers and the read-only non-signers, each key once. Reading
the message back, every compiled index names the key the instruction had there, `is_signer` holds
exactly of the payer and the keys some account asks to sign for, and `is_writable` exactly of the
payer and the keys some account asks to write, less the reserved keys and the demoted program ids
(`new_with_blockhash_keeps_accounts_and_privileges`). The message sanitizes and has no duplicate.
All this needs the payer not to be a program id, at most 256 keys, and at most 255 signers: with
256 signers the signature count does not fit in its `u8` and the compilation panics
(`new_with_blockhash_panics_at_256_signers`).

The proof goes through what the map of the loop holds (`keyMetaMap_holds`): each key named, with
the or of the flags asked for it. The key lists are a partition of that map by the two flags, so
the keys are a permutation of the payer and the map's keys, and the header's bounds split them
into the four lists (`KeyTable.lt_iff_getElem_mem_take`).
-/

namespace VelasChain.Sdk

open SortedMap
open ProgramRuntime (AccountMeta Instruction)

variable {K H : Type}

/-! ### What the instructions ask for -/

/-- Every key the instructions name: each program id, then the keys of its accounts. -/
def referencedKeys (instructions : List (Instruction K)) : List K :=
  instructions.flatMap fun ix => ix.programId :: ix.accounts.map (·.pubkey)

/-- The keys some account asks to sign for. -/
def signerKeys (instructions : List (Instruction K)) : List K :=
  instructions.flatMap fun ix => (ix.accounts.filter (·.isSigner)).map (·.pubkey)

/-- Some account of some instruction asks for `key` with the flag. -/
def Requests (flag : AccountMeta K → Bool) (instructions : List (Instruction K)) (key : K) :
    Prop :=
  ∃ ix ∈ instructions, ∃ accountMeta ∈ ix.accounts, accountMeta.pubkey = key ∧
    flag accountMeta = true

lemma Requests.mem_referencedKeys {flag : AccountMeta K → Bool}
    {instructions : List (Instruction K)} {key : K} (h : Requests flag instructions key) :
    key ∈ referencedKeys instructions := by
  obtain ⟨ix, hix, accountMeta, hmem, rfl, -⟩ := h
  exact List.mem_flatMap.mpr ⟨ix, hix, List.mem_cons_of_mem _ (List.mem_map_of_mem hmem)⟩

lemma mem_signerKeys {instructions : List (Instruction K)} {key : K} :
    key ∈ signerKeys instructions ↔ Requests (·.isSigner) instructions key := by
  simp only [signerKeys, Requests, List.mem_flatMap, List.mem_map, List.mem_filter]
  constructor
  · rintro ⟨ix, hix, accountMeta, ⟨hmem, hsigner⟩, rfl⟩
    exact ⟨ix, hix, accountMeta, hmem, rfl, hsigner⟩
  · rintro ⟨ix, hix, accountMeta, hmem, rfl, hsigner⟩
    exact ⟨ix, hix, accountMeta, ⟨hmem, hsigner⟩, rfl⟩

/-! ### The map of keys to flags -/

/-- The or of two sets of flags. -/
def CompiledKeyMeta.merge (a b : CompiledKeyMeta) : CompiledKeyMeta :=
  ⟨a.isSigner || b.isSigner, a.isWritable || b.isWritable⟩

/-- The flags an account asks for. -/
def accountFlags (accountMeta : AccountMeta K) : CompiledKeyMeta :=
  ⟨accountMeta.isSigner, accountMeta.isWritable⟩

/-- The keys the instructions name with the flags asked for each, in the loop's order: each
program id with none, then its accounts. -/
def keyEntries (instructions : List (Instruction K)) : List (K × CompiledKeyMeta) :=
  instructions.flatMap fun ix =>
    (ix.programId, {}) :: ix.accounts.map fun accountMeta => (accountMeta.pubkey, accountFlags accountMeta)

lemma keys_keyEntries (instructions : List (Instruction K)) :
    (keyEntries instructions).map (·.1) = referencedKeys instructions := by
  simp [keyEntries, referencedKeys, List.map_flatMap, Function.comp_def]

/-- The or of the flags that entries ask for a key. -/
def flagsAt [DecidableEq K] (entries : List (K × CompiledKeyMeta)) (key : K) : CompiledKeyMeta :=
  ⟨entries.any fun e => e.1 == key && e.2.isSigner,
    entries.any fun e => e.1 == key && e.2.isWritable⟩

section Entries

variable [LinearOrder K] {entries : List (K × CompiledKeyMeta)} {key : K}

lemma flagsAt_of_not_mem (h : key ∉ entries.map (·.1)) : flagsAt entries key = {} := by
  have hne : ∀ e ∈ entries, e.1 ≠ key := fun e he heq => h (heq ▸ List.mem_map_of_mem he)
  simp only [flagsAt, CompiledKeyMeta.mk.injEq, List.any_eq_false, Bool.and_eq_true, beq_iff_eq,
    not_and]
  exact ⟨fun e he heq => absurd heq (hne e he), fun e he heq => absurd heq (hne e he)⟩

lemma flagsAt_append_singleton (entry : K × CompiledKeyMeta) :
    flagsAt (entries ++ [entry]) key =
      if entry.1 = key then (flagsAt entries key).merge entry.2 else flagsAt entries key := by
  by_cases h : entry.1 = key
  · simp [flagsAt, CompiledKeyMeta.merge, h]
  · simp [flagsAt, h]

/-- One entry entered into the map: `map.entry(key).or_default()` with the flags or-ed in. -/
def enterEntry (keyMetaMap : List (K × CompiledKeyMeta)) (entry : K × CompiledKeyMeta) :
    List (K × CompiledKeyMeta) :=
  upsert (·.merge entry.2) entry.1 entry.2 keyMetaMap

/-- A map that holds exactly the keys of some entries, each with the or of their flags. -/
structure HoldsEntries (keyMetaMap entries : List (K × CompiledKeyMeta)) : Prop where
  sorted : Sorted keyMetaMap
  get_eq : ∀ key, get keyMetaMap key =
    if key ∈ entries.map (·.1) then some (flagsAt entries key) else none

lemma holdsEntries_nil : HoldsEntries ([] : List (K × CompiledKeyMeta)) [] :=
  ⟨by simp [Sorted], fun _ => by simp⟩

lemma HoldsEntries.enter {keyMetaMap : List (K × CompiledKeyMeta)}
    (h : HoldsEntries keyMetaMap entries) (entry : K × CompiledKeyMeta) :
    HoldsEntries (enterEntry keyMetaMap entry) (entries ++ [entry]) where
  sorted := sorted_upsert h.sorted
  get_eq key := by
    rw [enterEntry, get_upsert h.sorted, h.get_eq, h.get_eq, flagsAt_append_singleton]
    by_cases hkey : key = entry.1
    · subst hkey
      by_cases hmem : entry.1 ∈ entries.map (·.1)
      · simp [hmem]
      · -- the first entry at the key
        have hdefault : ({} : CompiledKeyMeta).merge entry.2 = entry.2 := rfl
        simp [hmem, flagsAt_of_not_mem hmem, hdefault]
    · simp only [hkey, if_false, Ne.symm hkey, List.map_append, List.mem_append, List.map_cons,
        List.map_nil, List.mem_singleton, or_false]

lemma HoldsEntries.foldl {keyMetaMap : List (K × CompiledKeyMeta)}
    (h : HoldsEntries keyMetaMap entries) (rest : List (K × CompiledKeyMeta)) :
    HoldsEntries (rest.foldl enterEntry keyMetaMap) (entries ++ rest) := by
  induction rest generalizing keyMetaMap entries with
  | nil => simpa using h
  | cons entry rest ih =>
    have hnext := ih (h.enter entry)
    rwa [List.append_assoc, List.singleton_append] at hnext

/-- The loop of `CompiledKeys::compile` enters the entries one by one. -/
lemma keyMetaMap_eq (instructions : List (Instruction K)) :
    CompiledKeys.keyMetaMap instructions = (keyEntries instructions).foldl enterEntry [] := by
  -- the program id's `or_default` ors in no flag
  have hprogram : (fun keyMeta : CompiledKeyMeta => keyMeta.merge {}) = id := by
    funext keyMeta
    simp [CompiledKeyMeta.merge]
  unfold CompiledKeys.keyMetaMap keyEntries
  rw [List.foldl_flatMap]
  congr 1
  funext keyMetaMap ix
  simp only [List.foldl_cons, List.foldl_map, enterEntry, hprogram]
  rfl

lemma keyMetaMap_holds (instructions : List (Instruction K)) :
    HoldsEntries (CompiledKeys.keyMetaMap instructions) (keyEntries instructions) := by
  rw [keyMetaMap_eq]
  simpa using holdsEntries_nil.foldl (keyEntries instructions)

lemma flagsAt_keyEntries_isSigner (instructions : List (Instruction K)) :
    (flagsAt (keyEntries instructions) key).isSigner = true ↔
      Requests (·.isSigner) instructions key := by
  simp [flagsAt, keyEntries, Requests, List.any_flatMap, accountFlags]

lemma flagsAt_keyEntries_isWritable (instructions : List (Instruction K)) :
    (flagsAt (keyEntries instructions) key).isWritable = true ↔
      Requests (·.isWritable) instructions key := by
  simp [flagsAt, keyEntries, Requests, List.any_flatMap, accountFlags]

end Entries

/-! ### The compiled keys -/

lemma keysWhere_eq (keyMetaMap : List (K × CompiledKeyMeta)) (p : CompiledKeyMeta → Bool) :
    keysWhere keyMetaMap p = (keyMetaMap.filter fun e => p e.2).map (·.1) := by
  induction keyMetaMap with
  | nil => rfl
  | cons e rest ih =>
    simp only [keysWhere] at ih ⊢
    by_cases h : p e.2 <;> simp [h, ih]

/-- The four lists of `compile` partition the map's keys. -/
lemma perm_keysWhere (keyMetaMap : List (K × CompiledKeyMeta)) :
    (keysWhere keyMetaMap (fun keyMeta => keyMeta.isSigner && keyMeta.isWritable) ++
      keysWhere keyMetaMap (fun keyMeta => keyMeta.isSigner && !keyMeta.isWritable) ++
      keysWhere keyMetaMap (fun keyMeta => !keyMeta.isSigner && keyMeta.isWritable) ++
      keysWhere keyMetaMap (fun keyMeta => !keyMeta.isSigner && !keyMeta.isWritable)).Perm
      (keyMetaMap.map (·.1)) := by
  simp only [keysWhere_eq, ← List.map_append]
  apply List.Perm.map
  -- split by the signer flag, then each part by the writable flag
  have hsplit : ∀ p : CompiledKeyMeta → Bool,
      (keyMetaMap.filter (fun e => p e.2 && e.2.isWritable) ++
        keyMetaMap.filter (fun e => p e.2 && !e.2.isWritable)).Perm
        (keyMetaMap.filter fun e => p e.2) := by
    intro p
    have h := List.filter_append_perm (fun e : K × CompiledKeyMeta => e.2.isWritable)
      (keyMetaMap.filter fun e => p e.2)
    simpa only [List.filter_filter, Bool.and_comm] using h
  have hsigners := hsplit (·.isSigner)
  have hnonSigners := hsplit fun keyMeta => !keyMeta.isSigner
  rw [List.append_assoc]
  exact (hsigners.append hnonSigners).trans
    (List.filter_append_perm (fun e : K × CompiledKeyMeta => e.2.isSigner) keyMetaMap)

section Keys

variable [LinearOrder K] {instructions : List (Instruction K)} {payer key : K}

/-- The map of the loop without the payer, as `compile` leaves it. -/
def payerlessKeyMetaMap (instructions : List (Instruction K)) (payer : K) :
    List (K × CompiledKeyMeta) :=
  remove payer (CompiledKeys.keyMetaMap instructions)

lemma sorted_payerlessKeyMetaMap : Sorted (payerlessKeyMetaMap instructions payer) :=
  sorted_remove (keyMetaMap_holds instructions).sorted

lemma get_payerlessKeyMetaMap :
    get (payerlessKeyMetaMap instructions payer) key =
      if key = payer then none
      else if key ∈ referencedKeys instructions then some (flagsAt (keyEntries instructions) key)
      else none := by
  rw [payerlessKeyMetaMap, get_remove, (keyMetaMap_holds instructions).get_eq, keys_keyEntries]

lemma mem_keysWhere_payerless {p : CompiledKeyMeta → Bool} :
    key ∈ keysWhere (payerlessKeyMetaMap instructions payer) p ↔
      key ≠ payer ∧ key ∈ referencedKeys instructions ∧
        p (flagsAt (keyEntries instructions) key) = true := by
  rw [keysWhere_eq]
  simp only [List.mem_map, List.mem_filter]
  constructor
  · rintro ⟨⟨k, keyMeta⟩, ⟨hmem, hp⟩, rfl⟩
    have hget := (mem_iff_get sorted_payerlessKeyMetaMap).mp hmem
    rw [get_payerlessKeyMetaMap] at hget
    split_ifs at hget with hpayer href
    cases hget
    exact ⟨hpayer, href, hp⟩
  · rintro ⟨hpayer, href, hp⟩
    refine ⟨(key, flagsAt (keyEntries instructions) key), ⟨?_, hp⟩, rfl⟩
    rw [mem_iff_get sorted_payerlessKeyMetaMap, get_payerlessKeyMetaMap, if_neg hpayer,
      if_pos href]

@[simp] lemma compile_writableSignerKeys :
    (CompiledKeys.compile instructions (some payer)).writableSignerKeys =
      payer :: keysWhere (payerlessKeyMetaMap instructions payer)
        (fun keyMeta => keyMeta.isSigner && keyMeta.isWritable) := rfl

@[simp] lemma compile_readonlySignerKeys :
    (CompiledKeys.compile instructions (some payer)).readonlySignerKeys =
      keysWhere (payerlessKeyMetaMap instructions payer)
        (fun keyMeta => keyMeta.isSigner && !keyMeta.isWritable) := rfl

@[simp] lemma compile_writableNonSignerKeys :
    (CompiledKeys.compile instructions (some payer)).writableNonSignerKeys =
      keysWhere (payerlessKeyMetaMap instructions payer)
        (fun keyMeta => !keyMeta.isSigner && keyMeta.isWritable) := rfl

@[simp] lemma compile_readonlyNonSignerKeys :
    (CompiledKeys.compile instructions (some payer)).readonlyNonSignerKeys =
      keysWhere (payerlessKeyMetaMap instructions payer)
        (fun keyMeta => !keyMeta.isSigner && !keyMeta.isWritable) := rfl

lemma perm_staticAccountKeys :
    (CompiledKeys.compile instructions (some payer)).staticAccountKeys.Perm
      (payer :: (payerlessKeyMetaMap instructions payer).map (·.1)) := by
  simp only [CompiledKeys.staticAccountKeys, compile_writableSignerKeys, compile_readonlySignerKeys,
    compile_writableNonSignerKeys, compile_readonlyNonSignerKeys, List.cons_append]
  exact (List.perm_cons payer).mpr (perm_keysWhere _)

lemma payer_not_mem_payerless : payer ∉ (payerlessKeyMetaMap instructions payer).map (·.1) := by
  intro hmem
  have hget := get_eq_none_iff.not.mpr (not_not.mpr hmem)
  rw [get_payerlessKeyMetaMap, if_pos rfl] at hget
  exact hget rfl

lemma nodup_staticAccountKeys :
    (CompiledKeys.compile instructions (some payer)).staticAccountKeys.Nodup :=
  perm_staticAccountKeys.nodup_iff.mpr
    (List.nodup_cons.mpr ⟨payer_not_mem_payerless, nodup_keys sorted_payerlessKeyMetaMap⟩)

lemma mem_staticAccountKeys :
    key ∈ (CompiledKeys.compile instructions (some payer)).staticAccountKeys ↔
      key = payer ∨ key ∈ referencedKeys instructions := by
  rw [perm_staticAccountKeys.mem_iff, List.mem_cons]
  by_cases hkey : key = payer
  · simp [hkey]
  refine or_congr_right ⟨fun hmem => ?_, fun href => ?_⟩
  · obtain ⟨⟨k, keyMeta⟩, hk, rfl⟩ := List.mem_map.mp hmem
    have hget := (mem_iff_get sorted_payerlessKeyMetaMap).mp hk
    rw [get_payerlessKeyMetaMap] at hget
    split_ifs at hget with hpayer href
    exact href
  · by_cases hpayer : key = payer
    · exact absurd hpayer hkey
    · have hget : get (payerlessKeyMetaMap instructions payer) key =
          some (flagsAt (keyEntries instructions) key) := by
        rw [get_payerlessKeyMetaMap, if_neg hpayer, if_pos href]
      exact List.mem_map_of_mem ((mem_iff_get sorted_payerlessKeyMetaMap).mpr hget)

/-- The signer region holds the payer and the keys some account asks to sign for. -/
lemma mem_signerRegion :
    key ∈ (CompiledKeys.compile instructions (some payer)).writableSignerKeys ++
        (CompiledKeys.compile instructions (some payer)).readonlySignerKeys ↔
      key = payer ∨ Requests (·.isSigner) instructions key := by
  simp only [compile_writableSignerKeys, compile_readonlySignerKeys, List.cons_append,
    List.mem_cons, List.mem_append, mem_keysWhere_payerless, Bool.and_eq_true, Bool.not_eq_true',
    ← flagsAt_keyEntries_isSigner]
  by_cases hkey : key = payer
  · simp [hkey]
  constructor
  · rintro (h | ⟨-, -, hs, -⟩ | ⟨-, -, hs, -⟩)
    · exact absurd h hkey
    · exact Or.inr hs
    · exact Or.inr hs
  · rintro (h | hs)
    · exact absurd h hkey
    have href := ((flagsAt_keyEntries_isSigner instructions).mp hs).mem_referencedKeys
    cases hw : (flagsAt (keyEntries instructions) key).isWritable
    · exact Or.inr (Or.inr ⟨hkey, href, hs, rfl⟩)
    · exact Or.inr (Or.inl ⟨hkey, href, hs, rfl⟩)

/-- The two writable lists hold the payer and the keys some account asks to write. -/
lemma mem_writableLists :
    key ∈ (CompiledKeys.compile instructions (some payer)).writableSignerKeys ∨
        key ∈ (CompiledKeys.compile instructions (some payer)).writableNonSignerKeys ↔
      key = payer ∨ Requests (·.isWritable) instructions key := by
  simp only [compile_writableSignerKeys, compile_writableNonSignerKeys, List.mem_cons,
    mem_keysWhere_payerless, Bool.and_eq_true, Bool.not_eq_true', ← flagsAt_keyEntries_isWritable]
  by_cases hkey : key = payer
  · simp [hkey]
  constructor
  · rintro ((h | ⟨-, -, -, hw⟩) | ⟨-, -, -, hw⟩)
    · exact absurd h hkey
    · exact Or.inr hw
    · exact Or.inr hw
  · rintro (h | hw)
    · exact absurd h hkey
    have href := ((flagsAt_keyEntries_isWritable instructions).mp hw).mem_referencedKeys
    cases hs : (flagsAt (keyEntries instructions) key).isSigner
    · exact Or.inr ⟨hkey, href, rfl, hw⟩
    · exact Or.inl (Or.inr ⟨hkey, href, rfl, hw⟩)

/-- The message has one key for each key named and the payer. -/
lemma length_staticAccountKeys :
    (CompiledKeys.compile instructions (some payer)).staticAccountKeys.length =
      (payer :: referencedKeys instructions).toFinset.card := by
  rw [← List.toFinset_card_of_nodup nodup_staticAccountKeys]
  congr 1
  ext k
  simp [mem_staticAccountKeys]

/-- The signer region has one key for each key some account asks to sign for and the payer. -/
lemma length_signerRegion :
    ((CompiledKeys.compile instructions (some payer)).writableSignerKeys ++
        (CompiledKeys.compile instructions (some payer)).readonlySignerKeys).length =
      (payer :: signerKeys instructions).toFinset.card := by
  have hnodup : ((CompiledKeys.compile instructions (some payer)).writableSignerKeys ++
      (CompiledKeys.compile instructions (some payer)).readonlySignerKeys).Nodup := by
    have h : (CompiledKeys.compile instructions (some payer)).staticAccountKeys.Nodup :=
      nodup_staticAccountKeys
    rw [CompiledKeys.staticAccountKeys, List.append_assoc] at h
    exact h.of_append_left
  rw [← List.toFinset_card_of_nodup hnodup]
  congr 1
  ext k
  simp only [List.mem_toFinset, mem_signerRegion, List.mem_cons, mem_signerKeys]

end Keys

/-! ### The compiled instructions -/

/-- Each index of the compiled instruction names in `keys` the key that the instruction has
there. -/
def CompiledFrom (keys : List K) (ix : Instruction K) (ci : CompiledInstruction) : Prop :=
  keys[ci.programIdIndex.toNat]? = some ix.programId ∧
    List.Forall₂ (fun accountMeta index => keys[index.toNat]? = some accountMeta.pubkey)
      ix.accounts ci.accounts

section Instructions

variable [DecidableEq K] {keys : List K} {key : K}

lemma position_spec (hkey : key ∈ keys) (hlen : keys.length ≤ 256) :
    ∃ index, position keys key = some index ∧ keys[index.toNat]? = some key := by
  obtain ⟨i, hi⟩ := Option.isSome_iff_exists.mp (List.isSome_idxOf?.mpr hkey)
  obtain ⟨hlt, hget, -⟩ := List.idxOf?_eq_some_iff.mp hi
  refine ⟨UInt8.ofNat i, by simp [position, hi], ?_⟩
  rw [UInt8.toNat_ofNat_of_lt' (by change i < 256; omega), List.getElem?_eq_getElem hlt, hget]

lemma compileInstruction_spec (hlen : keys.length ≤ 256) {ix : Instruction K}
    (hprogram : ix.programId ∈ keys) (haccounts : ∀ accountMeta ∈ ix.accounts, accountMeta.pubkey ∈ keys) :
    ∃ ci, compileInstruction ix keys = some ci ∧ CompiledFrom keys ix ci := by
  obtain ⟨accounts, hmapM, hrel⟩ := KeyTable.mapM_eq_some_of_forall
    (R := fun (accountMeta : AccountMeta K) (index : UInt8) =>
      keys[index.toNat]? = some accountMeta.pubkey)
    fun accountMeta hmem => position_spec (haccounts accountMeta hmem) hlen
  obtain ⟨programIdIndex, hposition, hget⟩ := position_spec hprogram hlen
  exact ⟨⟨programIdIndex, accounts⟩, by simp [compileInstruction, hmapM, hposition], hget, hrel⟩

lemma compileInstructions_spec (hlen : keys.length ≤ 256) {instructions : List (Instruction K)}
    (hkeys : ∀ key ∈ referencedKeys instructions, key ∈ keys) :
    ∃ compiled, compileInstructions instructions keys = some compiled ∧
      List.Forall₂ (CompiledFrom keys) instructions compiled :=
  KeyTable.mapM_eq_some_of_forall fun ix hix =>
    compileInstruction_spec hlen
      (hkeys _ (List.mem_flatMap.mpr ⟨ix, hix, List.mem_cons_self⟩))
      fun _ hmem => hkeys _
        (List.mem_flatMap.mpr ⟨ix, hix, List.mem_cons_of_mem _ (List.mem_map_of_mem hmem)⟩)

end Instructions

/-! ### The message -/

lemma u8TryFrom_of_lt {n : ℕ} (h : n < 256) : u8TryFrom n = some (UInt8.ofNat n) := if_pos h

lemma toNat_ofNat_of_lt {n : ℕ} (h : n < 256) : (UInt8.ofNat n).toNat = n :=
  UInt8.toNat_ofNat_of_lt' h

/-- Where the counts fit in a `u8`, the header counts the regions of the keys. -/
lemma CompiledKeys.tryIntoMessageComponents_spec (compiledKeys : CompiledKeys K)
    (hsigners : compiledKeys.writableSignerKeys.length + compiledKeys.readonlySignerKeys.length < 256)
    (hreadonly : compiledKeys.readonlyNonSignerKeys.length < 256) :
    ∃ header, compiledKeys.tryIntoMessageComponents =
        some (header, compiledKeys.staticAccountKeys) ∧
      header.numRequiredSignatures.toNat =
        compiledKeys.writableSignerKeys.length + compiledKeys.readonlySignerKeys.length ∧
      header.numReadonlySignedAccounts.toNat = compiledKeys.readonlySignerKeys.length ∧
      header.numReadonlyUnsignedAccounts.toNat = compiledKeys.readonlyNonSignerKeys.length := by
  have hreadonlySigners : compiledKeys.readonlySignerKeys.length < 256 := by omega
  refine ⟨⟨UInt8.ofNat _, UInt8.ofNat _, UInt8.ofNat _⟩, ?_, toNat_ofNat_of_lt hsigners,
    toNat_ofNat_of_lt hreadonlySigners, toNat_ofNat_of_lt hreadonly⟩
  simp [CompiledKeys.tryIntoMessageComponents, u8TryFrom_of_lt hsigners,
    u8TryFrom_of_lt hreadonlySigners, u8TryFrom_of_lt hreadonly]

/-- `is_writable` reads a key only within the keys. -/
lemma Message.isWritable_ne_none [DecidableEq K] (m : Message K H) (reserved : ReservedKeys K)
    {k : ℕ} (hk : k < m.accountKeys.length) : m.isWritable reserved k ≠ none := by
  unfold Message.isWritable
  split_ifs <;> simp [List.getElem?_eq_getElem hk]

/-- `has_duplicates` finds a duplicate exactly when there is one. -/
lemma Message.hasDuplicates_eq_false_iff [DecidableEq K] (m : Message K H) :
    m.hasDuplicates = false ↔ m.accountKeys.Nodup := by
  rw [KeyTable.nodup_iff_forall_not_mem_drop, Message.hasDuplicates, List.any_eq_false]
  simp only [List.mem_range'_1]
  constructor
  · intro h j hj hmem
    -- the last key has nothing after it, and any other is checked at the next index
    by_cases hnext : j + 1 < m.accountKeys.length
    · refine h (j + 1) ⟨by omega, by omega⟩ ?_
      simp only [Nat.add_sub_cancel, List.getElem?_eq_getElem hj]
      exact List.elem_eq_true_of_mem hmem
    · rw [List.drop_eq_nil_of_le (by omega)] at hmem
      exact List.not_mem_nil hmem
  · rintro h i ⟨hi, hlt⟩ hcontains
    have hprev : i - 1 < m.accountKeys.length := by omega
    rw [List.getElem?_eq_getElem hprev] at hcontains
    refine h (i - 1) hprev ?_
    rw [Nat.sub_add_cancel hi]
    exact List.mem_of_elem_eq_true hcontains

section Compiled

variable [LinearOrder K] {instructions : List (Instruction K)} {payer : K} {m : Message K H}

/-- What `new_with_blockhash` returns for the instructions and the payer: the compiled keys, a
header that counts their regions, and each instruction compiled against the keys. -/
structure CompiledMessage (instructions : List (Instruction K)) (payer : K) (m : Message K H) :
    Prop where
  accountKeys_eq :
    m.accountKeys = (CompiledKeys.compile instructions (some payer)).staticAccountKeys
  numRequiredSignatures_eq : m.header.numRequiredSignatures.toNat =
    (CompiledKeys.compile instructions (some payer)).writableSignerKeys.length +
      (CompiledKeys.compile instructions (some payer)).readonlySignerKeys.length
  numReadonlySignedAccounts_eq : m.header.numReadonlySignedAccounts.toNat =
    (CompiledKeys.compile instructions (some payer)).readonlySignerKeys.length
  numReadonlyUnsignedAccounts_eq : m.header.numReadonlyUnsignedAccounts.toNat =
    (CompiledKeys.compile instructions (some payer)).readonlyNonSignerKeys.length
  length_le : m.accountKeys.length ≤ 256
  compiled : List.Forall₂ (CompiledFrom m.accountKeys) instructions m.instructions

/-- With at most 256 keys and at most 255 signers, `new_with_blockhash` does not panic. -/
lemma newWithBlockhash_spec (hkeys : (payer :: referencedKeys instructions).toFinset.card ≤ 256)
    (hsigners : (payer :: signerKeys instructions).toFinset.card ≤ 255) (blockhash : H) :
    ∃ m, Message.newWithBlockhash instructions (some payer) blockhash = some m ∧
      CompiledMessage instructions payer m := by
  have hlen : (CompiledKeys.compile instructions (some payer)).staticAccountKeys.length =
      (payer :: referencedKeys instructions).toFinset.card := length_staticAccountKeys
  have hsignerRegion : ((CompiledKeys.compile instructions (some payer)).writableSignerKeys ++
      (CompiledKeys.compile instructions (some payer)).readonlySignerKeys).length =
        (payer :: signerKeys instructions).toFinset.card := length_signerRegion
  have hlengths : (CompiledKeys.compile instructions (some payer)).staticAccountKeys.length =
      (CompiledKeys.compile instructions (some payer)).writableSignerKeys.length +
        (CompiledKeys.compile instructions (some payer)).readonlySignerKeys.length +
        (CompiledKeys.compile instructions (some payer)).writableNonSignerKeys.length +
        (CompiledKeys.compile instructions (some payer)).readonlyNonSignerKeys.length := by
    simp only [CompiledKeys.staticAccountKeys, List.length_append]
  have hpayer : 1 ≤ (CompiledKeys.compile instructions (some payer)).writableSignerKeys.length := by
    simp
  rw [List.length_append] at hsignerRegion
  obtain ⟨header, hcomponents, hrequired, hreadonlySigned, hreadonlyUnsigned⟩ :=
    (CompiledKeys.compile instructions (some payer)).tryIntoMessageComponents_spec
      (by omega) (by omega)
  have hkeysLength :
      (CompiledKeys.compile instructions (some payer)).staticAccountKeys.length ≤ 256 := by omega
  obtain ⟨compiled, hcompile, hrel⟩ := compileInstructions_spec hkeysLength
    fun key hkey => mem_staticAccountKeys.mpr (Or.inr hkey)
  refine ⟨⟨header, _, blockhash, compiled⟩, ?_,
    ⟨rfl, hrequired, hreadonlySigned, hreadonlyUnsigned, hkeysLength, hrel⟩⟩
  simp only [Message.newWithBlockhash, hcomponents, Option.bind_eq_bind, Option.bind_some,
    hcompile]
  rfl

namespace CompiledMessage

lemma nodup (hm : CompiledMessage instructions payer m) : m.accountKeys.Nodup :=
  hm.accountKeys_eq ▸ nodup_staticAccountKeys

lemma getElem?_zero (hm : CompiledMessage instructions payer m) : m.accountKeys[0]? = some payer := by
  simp [hm.accountKeys_eq, CompiledKeys.staticAccountKeys]

/-- The header's regions: signers first, and of them the writable ones first. -/
lemma take_signers (hm : CompiledMessage instructions payer m) :
    m.accountKeys.take m.header.numRequiredSignatures.toNat =
      (CompiledKeys.compile instructions (some payer)).writableSignerKeys ++
        (CompiledKeys.compile instructions (some payer)).readonlySignerKeys := by
  rw [hm.numRequiredSignatures_eq, hm.accountKeys_eq, CompiledKeys.staticAccountKeys,
    List.append_assoc]
  exact List.take_left' List.length_append

lemma take_writableSigners (hm : CompiledMessage instructions payer m) :
    m.accountKeys.take (CompiledKeys.compile instructions (some payer)).writableSignerKeys.length =
      (CompiledKeys.compile instructions (some payer)).writableSignerKeys := by
  rw [hm.accountKeys_eq, CompiledKeys.staticAccountKeys, List.append_assoc, List.append_assoc]
  exact List.take_left

lemma take_unsignedWritable (hm : CompiledMessage instructions payer m) :
    m.accountKeys.take (m.accountKeys.length - m.header.numReadonlyUnsignedAccounts.toNat) =
      (CompiledKeys.compile instructions (some payer)).writableSignerKeys ++
        (CompiledKeys.compile instructions (some payer)).readonlySignerKeys ++
        (CompiledKeys.compile instructions (some payer)).writableNonSignerKeys := by
  rw [hm.numReadonlyUnsignedAccounts_eq, hm.accountKeys_eq, CompiledKeys.staticAccountKeys]
  exact List.take_left' (by simp only [List.length_append]; omega)

lemma length_eq (hm : CompiledMessage instructions payer m) :
    m.accountKeys.length =
      (CompiledKeys.compile instructions (some payer)).writableSignerKeys.length +
        (CompiledKeys.compile instructions (some payer)).readonlySignerKeys.length +
        (CompiledKeys.compile instructions (some payer)).writableNonSignerKeys.length +
        (CompiledKeys.compile instructions (some payer)).readonlyNonSignerKeys.length := by
  rw [hm.accountKeys_eq]
  simp only [CompiledKeys.staticAccountKeys, List.length_append]

lemma hasDuplicates_eq_false (hm : CompiledMessage instructions payer m) :
    m.hasDuplicates = false :=
  (Message.hasDuplicates_eq_false_iff m).mpr hm.nodup

/-- Every index of a compiled instruction is in range, and none of its program ids is the payer's
index where no instruction's program is the payer. -/
lemma sanitize_eq_ok (hm : CompiledMessage instructions payer m)
    (hpayer : ∀ ix ∈ instructions, ix.programId ≠ payer) : m.sanitize = .ok () := by
  have hlength := hm.length_eq
  have hwritableSigner : 1 ≤ (CompiledKeys.compile instructions (some payer)).writableSignerKeys.length := by
    simp
  have hinstructions : ¬∃ ci ∈ m.instructions,
      (decide (ci.programIdIndex.toNat ≥ m.accountKeys.length) || ci.programIdIndex == 0 ||
        ci.accounts.any fun ai => decide (ai.toNat ≥ m.accountKeys.length)) = true := by
    rw [← KeyTable.Forall₂.exists_iff hm.compiled (P := fun _ => False)]
    · simp
    intro ix hix ci hci
    simp only [false_iff, Bool.or_eq_true, decide_eq_true_eq, beq_iff_eq, List.any_eq_true,
      not_or, not_exists, not_and, not_le]
    refine ⟨⟨(List.getElem?_eq_some_iff.mp hci.1).1, fun hzero => ?_⟩, fun ai hai => ?_⟩
    · -- index 0 holds the payer
      have hget := hci.1
      rw [hzero, UInt8.toNat_zero, hm.getElem?_zero, Option.some_inj] at hget
      exact hpayer ix hix hget.symm
    · have hbound : ¬∃ ai ∈ ci.accounts, m.accountKeys.length ≤ ai.toNat := by
        rw [← KeyTable.Forall₂.exists_iff hci.2 (P := fun _ => False)]
        · simp
        intro accountMeta _ index hindex
        simp only [false_iff, not_le]
        exact (List.getElem?_eq_some_iff.mp hindex).1
      exact not_le.mp fun hle => hbound ⟨ai, hai, hle⟩
  have hreadonly : ¬m.header.numRequiredSignatures ≤ m.header.numReadonlySignedAccounts := by
    rw [UInt8.le_iff_toNat_le, hm.numRequiredSignatures_eq, hm.numReadonlySignedAccounts_eq]
    omega
  unfold Message.sanitize
  rw [if_neg (by rw [hm.numRequiredSignatures_eq, hm.numReadonlyUnsignedAccounts_eq]; omega),
    if_neg hreadonly, if_neg (by simpa only [List.any_eq_true] using hinstructions)]

lemma isSigner_iff (hm : CompiledMessage instructions payer m) {k : ℕ}
    (hk : k < m.accountKeys.length) :
    m.isSigner k = true ↔
      m.accountKeys[k] = payer ∨ Requests (·.isSigner) instructions m.accountKeys[k] := by
  rw [Message.isSigner, decide_eq_true_iff, KeyTable.lt_iff_getElem_mem_take hm.nodup hk,
    hm.take_signers, mem_signerRegion]

/-- A key is called as a program exactly when it is some instruction's program id. -/
lemma isKeyCalledAsProgram_iff (hm : CompiledMessage instructions payer m) {k : ℕ}
    (hk : k < m.accountKeys.length) :
    m.isKeyCalledAsProgram k = true ↔ ∃ ix ∈ instructions, ix.programId = m.accountKeys[k] := by
  have hk256 : k < 256 := lt_of_lt_of_le hk hm.length_le
  rw [Message.isKeyCalledAsProgram, u8TryFrom_of_lt hk256]
  simp only [List.any_eq_true, beq_iff_eq]
  refine (KeyTable.Forall₂.exists_iff hm.compiled fun ix _ ci hci => ?_).symm
  have hindex : ci.programIdIndex = UInt8.ofNat k ↔ ci.programIdIndex.toNat = k := by
    rw [← UInt8.toNat_inj, toNat_ofNat_of_lt hk256]
  rw [hindex, ← KeyTable.getElem?_eq_some_getElem_iff hm.nodup hk, hci.1, Option.some_inj]

/-- The two writable regions of the header hold the payer and the keys some account asks to
write. -/
lemma writableRange_iff (hm : CompiledMessage instructions payer m) {k : ℕ}
    (hk : k < m.accountKeys.length) :
    (decide (k < (m.header.numRequiredSignatures - m.header.numReadonlySignedAccounts).toNat) ||
        (decide (k ≥ m.header.numRequiredSignatures.toNat) &&
          decide (k < Wrapping.sub 64 m.accountKeys.length
            m.header.numReadonlyUnsignedAccounts.toNat))) = true ↔
      m.accountKeys[k] = payer ∨ Requests (·.isWritable) instructions m.accountKeys[k] := by
  have hlength := hm.length_eq
  have hlength_le := hm.length_le
  have hle : m.header.numReadonlySignedAccounts ≤ m.header.numRequiredSignatures := by
    rw [UInt8.le_iff_toNat_le, hm.numReadonlySignedAccounts_eq, hm.numRequiredSignatures_eq]
    omega
  -- neither subtraction wraps
  have hwritableSigners :
      (m.header.numRequiredSignatures - m.header.numReadonlySignedAccounts).toNat =
        (CompiledKeys.compile instructions (some payer)).writableSignerKeys.length := by
    rw [UInt8.toNat_sub_of_le _ _ hle, hm.numRequiredSignatures_eq,
      hm.numReadonlySignedAccounts_eq]
    omega
  have hunsigned : Wrapping.sub 64 m.accountKeys.length m.header.numReadonlyUnsignedAccounts.toNat =
      m.accountKeys.length - m.header.numReadonlyUnsignedAccounts.toNat :=
    Wrapping.sub_of_le (by rw [hm.numReadonlyUnsignedAccounts_eq]; omega) (by omega)
  simp only [Bool.or_eq_true, Bool.and_eq_true, decide_eq_true_eq, hwritableSigners, hunsigned,
    ge_iff_le, ← not_lt]
  -- the signers and the writable non-signers have no key in common
  have hdisjoint := List.disjoint_of_nodup_append
    (hm.accountKeys_eq ▸ hm.nodup : (CompiledKeys.compile instructions (some payer)).staticAccountKeys.Nodup).of_append_left
  rw [KeyTable.lt_iff_getElem_mem_take hm.nodup hk, hm.take_writableSigners,
    KeyTable.lt_iff_getElem_mem_take hm.nodup hk, hm.take_signers,
    KeyTable.lt_iff_getElem_mem_take hm.nodup hk, hm.take_unsignedWritable, ← mem_writableLists]
  constructor
  · rintro (hws | ⟨hsigner, hmem⟩)
    · exact Or.inl hws
    · rcases List.mem_append.mp hmem with h | hwn
      · exact absurd h hsigner
      · exact Or.inr hwn
  · rintro (hws | hwn)
    · exact Or.inl hws
    · exact Or.inr ⟨fun hsigner => hdisjoint hsigner hwn, List.mem_append_right _ hwn⟩

lemma isWritable_eq_some_true_iff (hm : CompiledMessage instructions payer m)
    (reserved : ReservedKeys K) {k : ℕ} (hk : k < m.accountKeys.length) :
    m.isWritable reserved k = some true ↔
      (m.accountKeys[k] = payer ∨ Requests (·.isWritable) instructions m.accountKeys[k]) ∧
        m.accountKeys[k] ∉ reserved.sysvarIds ∧
        m.accountKeys[k] ∉ reserved.builtinProgramsKeys ∧
        ¬((∃ ix ∈ instructions, ix.programId = m.accountKeys[k]) ∧
          reserved.bpfLoaderUpgradeable ∉ m.accountKeys) := by
  rw [← hm.writableRange_iff hk, ← hm.isKeyCalledAsProgram_iff hk]
  unfold Message.isWritable Message.isUpgradeableLoaderPresent
  split_ifs with hrange
  · cases m.isKeyCalledAsProgram k <;> simp [hrange, List.getElem?_eq_getElem hk, and_assoc]
  · simp [hrange]

end CompiledMessage

theorem new_with_blockhash_keeps_accounts_and_privileges (reserved : ReservedKeys K)
    (instructions : List (Instruction K)) (payer : K) (blockhash : H)
    (hpayer : ∀ ix ∈ instructions, ix.programId ≠ payer)
    (hkeys : (payer :: referencedKeys instructions).toFinset.card ≤ 256)
    (hsigners : (payer :: signerKeys instructions).toFinset.card ≤ 255) :
    ∃ m, Message.newWithBlockhash instructions (some payer) blockhash = some m ∧
      m.sanitize = .ok () ∧ m.hasDuplicates = false ∧ m.accountKeys[0]? = some payer ∧
      List.Forall₂ (CompiledFrom m.accountKeys) instructions m.instructions ∧
      ∀ k (hk : k < m.accountKeys.length),
        (m.isSigner k = true ↔
          m.accountKeys[k] = payer ∨ Requests (·.isSigner) instructions m.accountKeys[k]) ∧
        m.isWritable reserved k ≠ none ∧
        (m.isWritable reserved k = some true ↔
          (m.accountKeys[k] = payer ∨ Requests (·.isWritable) instructions m.accountKeys[k]) ∧
            m.accountKeys[k] ∉ reserved.sysvarIds ∧
            m.accountKeys[k] ∉ reserved.builtinProgramsKeys ∧
            ¬((∃ ix ∈ instructions, ix.programId = m.accountKeys[k]) ∧
              reserved.bpfLoaderUpgradeable ∉ m.accountKeys)) := by
  obtain ⟨m, hnew, hm⟩ := newWithBlockhash_spec hkeys hsigners blockhash
  refine ⟨m, hnew, hm.sanitize_eq_ok hpayer, hm.hasDuplicates_eq_false, hm.getElem?_zero,
    hm.compiled, fun k hk => ?_⟩
  exact ⟨hm.isSigner_iff hk, m.isWritable_ne_none reserved hk,
    hm.isWritable_eq_some_true_iff reserved hk⟩

/-- Program `7` with a read-only signer `3` and a writable account `5`, paid for by `1`. -/
theorem new_with_blockhash_compiles_transfer :
    ∃ m, Message.newWithBlockhash
        [(⟨7, [⟨3, true, false⟩, ⟨5, false, true⟩]⟩ : Instruction ℕ)] (some 1) () = some m ∧
      m.sanitize = .ok () := by
  obtain ⟨m, hnew, hsanitize, -⟩ := new_with_blockhash_keeps_accounts_and_privileges
    (⟨[100], [7], 9⟩ : ReservedKeys ℕ) [⟨7, [⟨3, true, false⟩, ⟨5, false, true⟩]⟩] 1 ()
    (by decide) (by decide) (by decide)
  exact ⟨m, hnew, hsanitize⟩

example : (Message.newWithBlockhash
    [(⟨7, [⟨3, true, false⟩, ⟨5, false, true⟩]⟩ : Instruction ℕ)] (some 1) ()).map
      (fun m => (m.accountKeys, m.header)) = some ([1, 3, 5, 7], ⟨2, 1, 1⟩) := by
  decide

end Compiled

/-- One instruction of program `1` whose accounts `255` down to `1` all sign: with the payer `0`,
256 keys, every one a signer. -/
def allSigners : Instruction ℕ := ⟨1, (List.range 255).map fun k => ⟨255 - k, true, false⟩⟩

/-- With 256 signers, at most 256 keys and the payer no program id, the signature count does not
fit in its `u8`: `try_into_message_components` returns `None` and `new_with_blockhash` panics. -/
theorem new_with_blockhash_panics_at_256_signers :
    (∀ ix ∈ [allSigners], ix.programId ≠ 0) ∧
      (0 :: referencedKeys [allSigners]).toFinset.card = 256 ∧
      Message.newWithBlockhash [allSigners] (some 0) () = none := by
  have hkeys : (0 :: referencedKeys [allSigners]).toFinset = Finset.range 256 := by
    ext k
    simp only [List.mem_toFinset, List.mem_cons, referencedKeys, allSigners, List.flatMap_cons,
      List.flatMap_nil, List.append_nil, List.map_map, List.mem_map, List.mem_range,
      Finset.mem_range, Function.comp_def]
    constructor
    · rintro (rfl | rfl | ⟨j, hj, rfl⟩) <;> omega
    · intro hk
      by_cases h0 : k = 0
      · exact Or.inl h0
      · exact Or.inr (Or.inr ⟨255 - k, by omega, by omega⟩)
  refine ⟨by decide, by rw [hkeys, Finset.card_range], ?_⟩
  decide +kernel

end VelasChain.Sdk
