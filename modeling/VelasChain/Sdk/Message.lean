import VelasChain.Lib.SortedMap
import VelasChain.Lib.Wrapping
import VelasChain.ProgramRuntime.InvokeContext

/-!
# Legacy messages

A transaction's message lists every account key once, signers first, and refers to the keys of
its instructions by their index in that list (`sdk/program/src/message/legacy.rs`,
`sdk/program/src/message/compiled_keys.rs`).

`Message::new_with_blockhash` compiles instructions into a message. `CompiledKeys::compile`
collects, in a `BTreeMap` from keys to flags, every program id and account key with the or of the
signer and writable flags asked for it, takes the payer out and puts it first; the keys are then
ordered as writable signers, read-only signers, writable non-signers and read-only non-signers.
`try_into_message_components` counts the header's regions, refusing counts above `u8::MAX`, and
`compile_instruction` replaces each key by its `position`, cast to `u8`.

The runtime reads the privileges back from the header alone: `is_signer` tests the index
against the number of signatures, and `is_writable` tests it against the writable regions before
it demotes the reserved keys (sysvars, builtin programs) and, where the upgradeable loader is
absent, the keys invoked as programs. `sanitize` checks the header's counts and every index.

The `BTreeMap` is a list of entries in key order (`SortedMap`). Keys are of any ordered type; the
reserved keys are a parameter. The instructions' data is copied into the message and never read,
so it is left out, as in `ProgramRuntime.Instruction`.
-/

namespace VelasChain.Sdk

open SortedMap
open ProgramRuntime (AccountMeta Instruction)

variable {K H : Type}

/-- `CompiledInstruction`, without its data. -/
structure CompiledInstruction where
  programIdIndex : UInt8
  accounts : List UInt8
  deriving DecidableEq, Repr

/-- `MessageHeader`. -/
structure MessageHeader where
  numRequiredSignatures : UInt8
  numReadonlySignedAccounts : UInt8
  numReadonlyUnsignedAccounts : UInt8
  deriving DecidableEq, Repr

/-- `Message` (legacy). -/
structure Message (K H : Type) where
  header : MessageHeader
  accountKeys : List K
  recentBlockhash : H
  instructions : List CompiledInstruction
  deriving DecidableEq, Repr

/-- `SanitizeError`. -/
inductive SanitizeError where
  | indexOutOfBounds
  | valueOutOfBounds
  | invalidValue
  deriving DecidableEq, Repr

/-- The keys `is_writable` never lets be written: the sysvars (`sysvar::ALL_IDS`), the builtin
programs (`BUILTIN_PROGRAMS_KEYS`), and the upgradeable loader, whose presence stops the demotion
of program ids. -/
structure ReservedKeys (K : Type) where
  sysvarIds : List K
  builtinProgramsKeys : List K
  bpfLoaderUpgradeable : K

/-- `CompiledKeyMeta`; the default has neither flag. -/
structure CompiledKeyMeta where
  isSigner : Bool := false
  isWritable : Bool := false
  deriving DecidableEq, Repr

/-- `meta.is_signer |= account_meta.is_signer; meta.is_writable |= account_meta.is_writable`. -/
def CompiledKeyMeta.orAccount (keyMeta : CompiledKeyMeta) (accountMeta : AccountMeta K) :
    CompiledKeyMeta :=
  ⟨keyMeta.isSigner || accountMeta.isSigner, keyMeta.isWritable || accountMeta.isWritable⟩

/-- `CompiledKeys`. -/
structure CompiledKeys (K : Type) where
  writableSignerKeys : List K
  readonlySignerKeys : List K
  writableNonSignerKeys : List K
  readonlyNonSignerKeys : List K
  deriving DecidableEq, Repr

section Compile

variable [LinearOrder K]

/-- The loop of `CompiledKeys::compile`: an entry for every program id, and one for every
account key with the flags asked for it or-ed in. -/
def CompiledKeys.keyMetaMap (instructions : List (Instruction K)) : List (K × CompiledKeyMeta) :=
  instructions.foldl (fun keyMetaMap ix =>
    ix.accounts.foldl (fun keyMetaMap accountMeta =>
        upsert (·.orAccount accountMeta) accountMeta.pubkey
          (({} : CompiledKeyMeta).orAccount accountMeta) keyMetaMap)
      (upsert id ix.programId {} keyMetaMap))
    []

/-- `key_meta_map.iter().filter_map(|(key, meta)| p(meta).then(|| **key))`. -/
def keysWhere (keyMetaMap : List (K × CompiledKeyMeta)) (p : CompiledKeyMeta → Bool) : List K :=
  keyMetaMap.filterMap fun entry => if p entry.2 then some entry.1 else none

/-- `CompiledKeys::compile`. -/
def CompiledKeys.compile (instructions : List (Instruction K)) (payer : Option K) :
    CompiledKeys K :=
  let keyMetaMap := CompiledKeys.keyMetaMap instructions
  let keyMetaMap := match payer with
    | some payer => remove payer keyMetaMap
    | none => keyMetaMap
  { writableSignerKeys :=
      payer.toList ++ keysWhere keyMetaMap fun keyMeta => keyMeta.isSigner && keyMeta.isWritable
    readonlySignerKeys := keysWhere keyMetaMap fun keyMeta => keyMeta.isSigner && !keyMeta.isWritable
    writableNonSignerKeys :=
      keysWhere keyMetaMap fun keyMeta => !keyMeta.isSigner && keyMeta.isWritable
    readonlyNonSignerKeys :=
      keysWhere keyMetaMap fun keyMeta => !keyMeta.isSigner && !keyMeta.isWritable }

end Compile

/-- `u8::try_from(n).ok()`. -/
def u8TryFrom (n : ℕ) : Option UInt8 := if n < 256 then some (UInt8.ofNat n) else none

/-- The message's keys: the four lists one after the other. -/
def CompiledKeys.staticAccountKeys (self : CompiledKeys K) : List K :=
  self.writableSignerKeys ++ self.readonlySignerKeys ++ self.writableNonSignerKeys ++
    self.readonlyNonSignerKeys

/-- `CompiledKeys::try_into_message_components`; `none` where a count does not fit in a `u8`. The
`checked_add` of two lengths never overflows a `usize`. -/
def CompiledKeys.tryIntoMessageComponents (self : CompiledKeys K) :
    Option (MessageHeader × List K) := do
  let numRequiredSignatures ←
    u8TryFrom (self.writableSignerKeys.length + self.readonlySignerKeys.length)
  let numReadonlySignedAccounts ← u8TryFrom self.readonlySignerKeys.length
  let numReadonlyUnsignedAccounts ← u8TryFrom self.readonlyNonSignerKeys.length
  pure (⟨numRequiredSignatures, numReadonlySignedAccounts, numReadonlyUnsignedAccounts⟩,
    self.staticAccountKeys)

section Instructions

variable [DecidableEq K]

/-- `position`: the index of the key, cast to `u8`; `none` where the key is missing and the
`unwrap` panics. -/
def position (keys : List K) (key : K) : Option UInt8 := (keys.idxOf? key).map UInt8.ofNat

/-- `compile_instruction`. -/
def compileInstruction (ix : Instruction K) (keys : List K) : Option CompiledInstruction := do
  let accounts ← ix.accounts.mapM fun accountMeta => position keys accountMeta.pubkey
  let programIdIndex ← position keys ix.programId
  pure ⟨programIdIndex, accounts⟩

/-- `compile_instructions`. -/
def compileInstructions (ixs : List (Instruction K)) (keys : List K) :
    Option (List CompiledInstruction) :=
  ixs.mapM fun ix => compileInstruction ix keys

end Instructions

/-- `Message::new_with_blockhash`; `none` where it panics. -/
def Message.newWithBlockhash [LinearOrder K] (instructions : List (Instruction K))
    (payer : Option K) (blockhash : H) : Option (Message K H) := do
  let compiledKeys := CompiledKeys.compile instructions payer
  let (header, accountKeys) ← compiledKeys.tryIntoMessageComponents
  let instructions ← compileInstructions instructions accountKeys
  pure ⟨header, accountKeys, blockhash, instructions⟩

namespace Message

variable (m : Message K H)

/-- `Message::sanitize`. The keys, the blockhash and the compiled instructions have nothing more
to check. -/
def sanitize : Except SanitizeError Unit :=
  if m.header.numRequiredSignatures.toNat + m.header.numReadonlyUnsignedAccounts.toNat >
      m.accountKeys.length then .error .indexOutOfBounds
  -- there should be at least one writable fee payer
  else if m.header.numReadonlySignedAccounts ≥ m.header.numRequiredSignatures then
    .error .indexOutOfBounds
  else if m.instructions.any fun ci =>
      decide (ci.programIdIndex.toNat ≥ m.accountKeys.length) ||
        -- a program cannot be the payer
        ci.programIdIndex == 0 ||
        ci.accounts.any fun ai => decide (ai.toNat ≥ m.accountKeys.length) then
    .error .indexOutOfBounds
  else .ok ()

/-- `Message::has_duplicates`: some key appears again after its own index. -/
def hasDuplicates [DecidableEq K] : Bool :=
  (List.range' 1 (m.accountKeys.length - 1)).any fun i =>
    match m.accountKeys[i - 1]? with
    | some key => (m.accountKeys.drop i).contains key
    | none => false

/-- `Message::is_signer`. -/
def isSigner (i : ℕ) : Bool := i < m.header.numRequiredSignatures.toNat

/-- `Message::is_key_called_as_program`. -/
def isKeyCalledAsProgram (keyIndex : ℕ) : Bool :=
  match u8TryFrom keyIndex with
  | some keyIndex => m.instructions.any fun ix => ix.programIdIndex == keyIndex
  | none => false

/-- `Message::is_upgradeable_loader_present`. -/
def isUpgradeableLoaderPresent [DecidableEq K] (reserved : ReservedKeys K) : Bool :=
  m.accountKeys.contains reserved.bpfLoaderUpgradeable

/-- `Message::is_writable`: in a writable region of the header, neither a reserved key nor a
program id demoted for want of the upgradeable loader. The `u8` subtraction wraps, as does the
`usize` one; `none` where the key index is out of range and indexing panics. -/
def isWritable [DecidableEq K] (reserved : ReservedKeys K) (i : ℕ) : Option Bool :=
  let demoteProgramId := m.isKeyCalledAsProgram i && !m.isUpgradeableLoaderPresent reserved
  if i < (m.header.numRequiredSignatures - m.header.numReadonlySignedAccounts).toNat ||
      (decide (i ≥ m.header.numRequiredSignatures.toNat) &&
        decide (i < Wrapping.sub 64 m.accountKeys.length
          m.header.numReadonlyUnsignedAccounts.toNat)) then
    match m.accountKeys[i]? with
    | some key =>
      some (!(reserved.sysvarIds.contains key || reserved.builtinProgramsKeys.contains key) &&
        !demoteProgramId)
    | none => none
  else some false

end Message

end VelasChain.Sdk
