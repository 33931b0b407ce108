import VelasChain.Lib.Except

/-!
# Accounts and the per-account checks of an instruction

`PreAccount` is the state of an account before an instruction ran; `PreAccount.verify` checks the
account after it against the rules every program must keep (`program-runtime/src/pre_account.rs`),
and `PreAccount.update` moves the snapshot to the new state, keeping its rent epoch.

Of `verify` the rest of the development uses five consequences, each read off `verify_eq_ok`: a
read-only or executable account is unchanged, no account's rent epoch moves, an account the
program does not own keeps owner and data and does not lose lamports, and lamports move only on
a writable, non-executable account.
-/

namespace VelasChain.ProgramRuntime

open Except (failIf)

/-- `AccountSharedData`: the fields the runtime checks. -/
@[ext]
structure Account (Key : Type) where
  lamports : ℕ
  data : List UInt8
  owner : Key
  executable : Bool
  rentEpoch : ℕ
  deriving DecidableEq, Repr

/-- `InstructionError`: the variants the runtime raises, and `custom` for a program's own. -/
inductive InstructionError where
  | invalidAccountData
  | unbalancedInstruction
  | modifiedProgramId
  | externalAccountLamportSpend
  | externalAccountDataModified
  | readonlyLamportChange
  | readonlyDataModified
  | executableModified
  | rentEpochModified
  | notEnoughAccountKeys
  | accountDataSizeChanged
  | accountNotExecutable
  | custom (code : ℕ)
  | executableDataModified
  | executableLamportChange
  | executableAccountNotRentExempt
  | unsupportedProgramId
  | callDepth
  | missingAccount
  | reentrancyNotAllowed
  | invalidRealloc
  | privilegeEscalation
  | maxAccountsDataSizeExceeded
  deriving DecidableEq, Repr

/-- `system_instruction::MAX_PERMITTED_DATA_LENGTH`. -/
def maxPermittedDataLength : ℕ := 10 * 1024 * 1024

/-- `Rent`, through the one question the checks ask of it. -/
structure Rent where
  isExempt : ℕ → ℕ → Bool

/-- `PreAccount`. The `changed` flag only feeds the timings and is left out. -/
structure PreAccount (Key : Type) where
  key : Key
  account : Account Key
  deriving DecidableEq, Repr

variable {Key : Type}

/-- `PreAccount::is_zeroed`. -/
def isZeroed (data : List UInt8) : Bool := data.all (· == 0)

/-- `PreAccount::update`: the new state, under the snapshot's rent epoch. -/
def PreAccount.update (self : PreAccount Key) (account : Account Key) : PreAccount Key :=
  { self with account := { account with rentEpoch := self.account.rentEpoch } }

@[simp] lemma PreAccount.update_key (self : PreAccount Key) (account : Account Key) :
    (self.update account).key = self.key := rfl

/-- The guards of `verify` that the invariants of the runtime rest on. The size checks, which
only reject, are not among them. -/
structure VerifyOk (pre : Account Key) (programId : Key) (isWritable : Bool) (post : Account Key) :
    Prop where
  owner : pre.owner ≠ post.owner →
    isWritable = true ∧ pre.executable = false ∧ programId = pre.owner
  lamportSpend : programId ≠ pre.owner → post.lamports ≥ pre.lamports
  readonlyLamports : pre.lamports ≠ post.lamports → isWritable = true
  executableLamports : pre.lamports ≠ post.lamports → pre.executable = false
  data : pre.data ≠ post.data →
    programId = pre.owner ∧ isWritable = true ∧ pre.executable = false
  executable : pre.executable ≠ post.executable →
    isWritable = true ∧ pre.executable = false ∧ programId = post.owner
  rentEpoch : pre.rentEpoch = post.rentEpoch

section Verify

variable [DecidableEq Key]

/-- The block of `PreAccount::verify` that computes `data_len_changed`: with realloc the owner
may resize up to the maximum; without it only the system program may, and only its own
accounts. -/
def verifyDataLen (pre : Account Key) (programId systemProgramId : Key) (post : Account Key)
    (doSupportRealloc : Bool) : Except InstructionError Bool :=
  if doSupportRealloc then do
    failIf (post.data.length > maxPermittedDataLength) .invalidRealloc
    let dataLenChanged := pre.data.length ≠ post.data.length
    failIf (dataLenChanged ∧ programId ≠ pre.owner) .accountDataSizeChanged
    pure (decide dataLenChanged)
  else do
    let dataLenChanged := pre.data.length ≠ post.data.length
    failIf (dataLenChanged ∧ (programId ≠ systemProgramId ∨ pre.owner ≠ systemProgramId))
      .accountDataSizeChanged
    pure (decide dataLenChanged)

/-- `PreAccount::verify`, without the timings. -/
def PreAccount.verify (self : PreAccount Key) (programId : Key) (isWritable : Bool)
    (rent : Rent) (systemProgramId : Key) (post : Account Key) (doSupportRealloc : Bool) :
    Except InstructionError Unit := do
  let pre := self.account
  -- only the owner may change the owner, of a writable, non-executable account, to zeroed data
  let ownerChanged := pre.owner ≠ post.owner
  failIf (ownerChanged ∧ (isWritable = false ∨ pre.executable = true ∨ programId ≠ pre.owner ∨
    isZeroed post.data = false)) .modifiedProgramId
  failIf (programId ≠ pre.owner ∧ pre.lamports > post.lamports) .externalAccountLamportSpend
  let lamportsChanged := pre.lamports ≠ post.lamports
  failIf (lamportsChanged ∧ isWritable = false) .readonlyLamportChange
  failIf (lamportsChanged ∧ pre.executable = true) .executableLamportChange
  let _dataLenChanged ← verifyDataLen pre programId systemProgramId post doSupportRealloc
  failIf (¬(programId = pre.owner ∧ isWritable = true ∧ pre.executable = false) ∧
      pre.data ≠ post.data)
    (if pre.executable then .executableDataModified
      else if isWritable then .externalAccountDataModified
      else .readonlyDataModified)
  -- executable is one-way and only the owner may set it
  let executableChanged := pre.executable ≠ post.executable
  failIf (executableChanged ∧ rent.isExempt post.lamports post.data.length = false)
    .executableAccountNotRentExempt
  failIf (executableChanged ∧ (isWritable = false ∨ pre.executable = true ∨
    programId ≠ post.owner)) .executableModified
  failIf (pre.rentEpoch ≠ post.rentEpoch) .rentEpochModified

variable {pre : PreAccount Key} {programId systemProgramId : Key} {isWritable : Bool} {rent : Rent}
  {post : Account Key} {doSupportRealloc : Bool}

theorem PreAccount.verify_eq_ok
    (h : pre.verify programId isWritable rent systemProgramId post doSupportRealloc = .ok ()) :
    VerifyOk pre.account programId isWritable post := by
  simp only [PreAccount.verify, Except.failIf_bind_eq_ok, ne_eq, gt_iff_lt] at h
  obtain ⟨hown, hspend, hro, hexl, hrest⟩ := h
  -- the size checks only reject; past them the remaining guards are plain
  obtain ⟨_, -, hrest⟩ := Except.bind_eq_ok_iff.mp hrest
  simp only [Except.failIf_bind_eq_ok, Except.failIf_eq_ok] at hrest
  obtain ⟨hdata, -, hexec, hrent⟩ := hrest
  refine ⟨?_, ?_, ?_, ?_, ?_, ?_, by simpa using hrent⟩
  · intro hne
    simp only [not_and, not_or, Bool.not_eq_false] at hown
    obtain ⟨hw, hx, hp, -⟩ := hown hne
    exact ⟨hw, by simpa using hx, by simpa using hp⟩
  · intro hne
    by_contra hlt
    exact hspend ⟨hne, by omega⟩
  · intro hne
    by_contra hw
    exact hro ⟨hne, by simpa using hw⟩
  · intro hne
    by_contra hx
    exact hexl ⟨hne, by simpa using hx⟩
  · intro hne
    by_contra hnot
    exact hdata ⟨hnot, hne⟩
  · intro hne
    simp only [not_and, not_or, Bool.not_eq_false] at hexec
    obtain ⟨hw, hx, hp⟩ := hexec hne
    exact ⟨hw, by simpa using hx, by simpa using hp⟩

end Verify

namespace VerifyOk

variable {pre post : Account Key} {programId : Key} {isWritable : Bool}

/-- A read-only account comes out as it went in. -/
theorem of_readonly (h : VerifyOk pre programId isWritable post) (hw : isWritable = false) :
    post = pre := by
  have hown : pre.owner = post.owner := by
    by_contra hne
    exact absurd (h.owner hne).1 (by simp [hw])
  have hlam : pre.lamports = post.lamports := by
    by_contra hne
    exact absurd (h.readonlyLamports hne) (by simp [hw])
  have hdata : pre.data = post.data := by
    by_contra hne
    exact absurd (h.data hne).2.1 (by simp [hw])
  have hexec : pre.executable = post.executable := by
    by_contra hne
    exact absurd (h.executable hne).1 (by simp [hw])
  exact Account.ext hlam.symm hdata.symm hown.symm hexec.symm h.rentEpoch.symm

/-- An executable account comes out as it went in. -/
theorem of_executable (h : VerifyOk pre programId isWritable post) (hx : pre.executable = true) :
    post = pre := by
  have hown : pre.owner = post.owner := by
    by_contra hne
    exact absurd (h.owner hne).2.1 (by simp [hx])
  have hlam : pre.lamports = post.lamports := by
    by_contra hne
    exact absurd (h.executableLamports hne) (by simp [hx])
  have hdata : pre.data = post.data := by
    by_contra hne
    exact absurd (h.data hne).2.2 (by simp [hx])
  have hexec : pre.executable = post.executable := by
    by_contra hne
    exact absurd (h.executable hne).2.1 (by simp [hx])
  exact Account.ext hlam.symm hdata.symm hown.symm hexec.symm h.rentEpoch.symm

/-- An account the program does not own keeps owner and data and gains lamports if anything. -/
theorem of_not_owner (h : VerifyOk pre programId isWritable post) (hp : programId ≠ pre.owner) :
    post.owner = pre.owner ∧ post.data = pre.data ∧ pre.lamports ≤ post.lamports := by
  refine ⟨?_, ?_, h.lamportSpend hp⟩
  · by_contra hne
    exact hp (h.owner (Ne.symm hne)).2.2
  · by_contra hne
    exact hp (h.data (Ne.symm hne)).1

/-- The lamports move only on a writable, non-executable account. -/
theorem lamports_eq (h : VerifyOk pre programId isWritable post)
    (hw : isWritable = false ∨ pre.executable = true) : post.lamports = pre.lamports := by
  by_contra hne
  rcases hw with hw | hx
  · exact absurd (h.readonlyLamports (Ne.symm hne)) (by simp [hw])
  · exact absurd (h.executableLamports (Ne.symm hne)) (by simp [hx])

end VerifyOk

/-- Once `verify` passed, `update` moves the snapshot to exactly the state it checked. -/
theorem PreAccount.update_account_of_verifyOk {pre : PreAccount Key} {programId : Key}
    {isWritable : Bool} {post : Account Key} (h : VerifyOk pre.account programId isWritable post) :
    (pre.update post).account = post := by
  simp [PreAccount.update, h.rentEpoch]

end VelasChain.ProgramRuntime
