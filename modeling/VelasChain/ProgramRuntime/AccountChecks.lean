import VelasChain.ProgramRuntime.Properties
import Mathlib.Algebra.BigOperators.Group.Finset.Basic

/-!
# What the account checks guarantee, whatever the programs do

A top-level instruction snapshots its accounts when it is pushed, and every check after that,
before and after each nested call and at the end, compares accounts with the snapshots and moves
the snapshots to what it accepted. Three facts carry the checks over a whole run:

* every snapshot is within what the checks allow from the account's state at the start
  (`Checked`): the rent epoch is kept, an executable or read-only account is unchanged, and an
  account whose owner is no program of the invocation tree keeps owner and data and gains
  lamports if anything; a check against one accepted snapshot is again within it;
* a context on the stack only uses the top-level instruction's accounts, writable only where the
  top level allows, under a program of the tree (`ContextWithin`); `prepareInstruction` keeps this
  for a callee;
* the snapshots hold the lamports the accounts held at the start (`Balanced`). A check moves
  snapshots before it compares the sums, so a check that fails on the sums leaves this broken.

The first two hold for any program (`Program.run_inv`), the third for programs that pass a failed
call's error on (`Program.run_balanced`). The final `verify` then turns them into the properties
of the accounts themselves (`process_instruction_keeps_account_rules`), and a program that
swallows the error of an unbalanced call ends Ok with lamports burnt
(`swallowed_unbalanced_call_burns_lamports`).
-/

namespace VelasChain.ProgramRuntime

open Fallible

variable {Key : Type} [DecidableEq Key]

/-- The transaction's account keys are distinct, as the keys of a sanitized message are. -/
def InvokeEnv.KeysDistinct (env : InvokeEnv Key) : Prop :=
  ∀ i j, i < env.numberOfAccounts → j < env.numberOfAccounts →
    env.accountKeys i = env.accountKeys j → i = j

/-- The top-level instruction grants write access to the transaction account. -/
def IsWritableIn (instructionAccounts : List InstructionAccount) (j : ℕ) : Prop :=
  ∃ ia ∈ instructionAccounts, ia.indexInTransaction = j ∧ ia.isWritable = true

/-- Every program invokes only programs of `tree`, on every path. -/
def Program.InvokesOnly (tree : Set Key) : Program Key → Prop
  | .ret _ => True
  | .write _ _ next => next.InvokesOnly tree
  | .invoke instruction _ callee next =>
    instruction.programId ∈ tree ∧ callee.InvokesOnly tree ∧ ∀ result, (next result).InvokesOnly tree

/-- Every program passes the error of a failed call on, as `native_invoke(..)?` does. -/
def Program.Propagates : Program Key → Prop
  | .ret _ => True
  | .write _ _ next => next.Propagates
  | .invoke _ _ callee next =>
    callee.Propagates ∧ (∀ e, next (.error e) = .ret (.error e)) ∧ (next (.ok ())).Propagates

/-! ### What the checks allow an account to become -/

/-- What the checks allow an account to have become from its state at the start, when the top
level grants it write access or not and the programs of `tree` ran. -/
structure Checked (writable : Prop) (tree : Set Key) (start now : Account Key) : Prop where
  rentEpoch : now.rentEpoch = start.rentEpoch
  executable : start.executable = true → now = start
  readonly : ¬writable → now = start
  external : start.owner ∉ tree →
    now.owner = start.owner ∧ now.data = start.data ∧ start.lamports ≤ now.lamports

namespace Checked

variable {writable : Prop} {tree : Set Key} {start pre post : Account Key}

omit [DecidableEq Key] in
theorem refl : Checked writable tree start start :=
  ⟨rfl, fun _ => rfl, fun _ => rfl, fun _ => ⟨rfl, rfl, le_rfl⟩⟩

omit [DecidableEq Key] in
/-- A check passed under a program of the tree, with write access only where the top level
grants it, keeps an account within what the checks allow. -/
theorem verify (h : Checked writable tree start pre) {programId : Key} {isWritable : Bool}
    (hv : VerifyOk pre programId isWritable post) (hprogram : programId ∈ tree)
    (hw : isWritable = true → writable) : Checked writable tree start post where
  rentEpoch := hv.rentEpoch.symm.trans h.rentEpoch
  executable hx := by
    have hpre := h.executable hx
    rw [hv.of_executable (hpre ▸ hx), hpre]
  readonly hro := by
    have hpre := h.readonly hro
    have hfalse : isWritable = false := by
      cases hwb : isWritable
      · rfl
      · exact absurd (hw hwb) hro
    rw [hv.of_readonly hfalse, hpre]
  external hown := by
    obtain ⟨howner, hdata, hlam⟩ := h.external hown
    have hne : programId ≠ pre.owner := by
      rintro rfl
      exact hown (howner ▸ hprogram)
    obtain ⟨howner', hdata', hlam'⟩ := hv.of_not_owner hne
    exact ⟨howner'.trans howner, hdata'.trans hdata, hlam.trans hlam'⟩

end Checked

/-! ### The invariant -/

section Invariant

variable (env : InvokeEnv Key) (start : ℕ → Account Key) (top : List InstructionAccount)
  (tree : Set Key)

/-- A context keeps to the top-level instruction: its accounts are the top level's, writable
only where the top level is, and its program is in the tree. -/
structure ContextWithin (ctx : InstructionContext) : Prop where
  accounts : ∀ ia ∈ ctx.instructionAccounts,
    ia.indexInTransaction ∈ top.map InstructionAccount.indexInTransaction
  writable : ∀ ia ∈ ctx.instructionAccounts, ia.isWritable = true →
    IsWritableIn top ia.indexInTransaction
  program : ∀ programId, ctx.getProgramKey env = .ok programId → programId ∈ tree

/-- The snapshots are those of the top-level accounts in order, each within what the checks
allow from the account's state at the start. -/
def SnapshotsOk (preAccounts : List (PreAccount Key)) : Prop :=
  preAccounts.map PreAccount.key =
      (firstOccurrences InstructionAccount.indexInTransaction top).map (fun ia =>
        env.accountKeys ia.indexInTransaction) ∧
    ∀ p ∈ preAccounts, ∃ j < env.numberOfAccounts, p.key = env.accountKeys j ∧
      Checked (IsWritableIn top j) tree (start j) p.account

/-- What holds from the top-level push on, whatever the programs do: the top-level accounts are
transaction accounts, the snapshots are within what the checks allow, accounts outside the
instruction are as at the start, and every context on the stack keeps to the top level. -/
structure Inv (st : InvokeState Key) : Prop where
  inRange : ∀ ia ∈ top, ia.indexInTransaction < env.numberOfAccounts
  snapshots : SnapshotsOk env start top tree st.preAccounts
  outside : ∀ j, j ∉ top.map InstructionAccount.indexInTransaction → st.accounts j = start j
  stack : ∀ ctx ∈ st.instructionStack, ContextWithin env top tree ctx

/-- The snapshots hold the lamports the top-level accounts held at the start. -/
def Balanced (st : InvokeState Key) : Prop :=
  (st.preAccounts.map fun p => p.account.lamports).sum =
    ((firstOccurrences InstructionAccount.indexInTransaction top).map fun ia =>
      (start ia.indexInTransaction).lamports).sum

end Invariant

/-! ### What each step keeps -/

section Steps

variable {env : InvokeEnv Key} {start : ℕ → Account Key} {top : List InstructionAccount}
  {tree : Set Key}

omit [DecidableEq Key] in
/-- Replacing one snapshot by one under the same key that the checks still allow. -/
lemma SnapshotsOk.replace {l₁ l₂ : List (PreAccount Key)} {p p' : PreAccount Key}
    (h : SnapshotsOk env start top tree (l₁ ++ p :: l₂)) (hkey : p'.key = p.key)
    (hchecked : ∀ j < env.numberOfAccounts, p.key = env.accountKeys j →
      Checked (IsWritableIn top j) tree (start j) p.account →
      Checked (IsWritableIn top j) tree (start j) p'.account) :
    SnapshotsOk env start top tree (l₁ ++ p' :: l₂) := by
  obtain ⟨hkeys, hsnap⟩ := h
  refine ⟨by simpa [hkey] using hkeys, fun q hq => ?_⟩
  rcases List.mem_append.mp hq with hq | hq
  · exact hsnap q (by simp [hq])
  rcases List.mem_cons.mp hq with rfl | hq
  · obtain ⟨j, hj, hpj, hchk⟩ := hsnap p (by simp)
    exact ⟨j, hj, hkey.trans hpj, hchecked j hj hpj hchk⟩
  · exact hsnap q (by simp [hq])

/-- One step of `verify_and_update`, failed or not, under a program of the tree and with write
access only where the top level grants it, keeps the snapshots within what the checks allow. -/
lemma SnapshotsOk.checkedStep (hkeys : env.KeysDistinct) {accounts : ℕ → Account Key}
    {ctx : InstructionContext} {programId : Key} {before : Bool} {vs : VerifyState Key}
    {ia : InstructionAccount} (hprogram : programId ∈ tree)
    (hw : verifiedWritability ctx before ia = true → IsWritableIn top ia.indexInTransaction)
    (h : SnapshotsOk env start top tree vs.preAccounts) :
    SnapshotsOk env start top tree
      (verifyAndUpdateWork env accounts ctx programId before vs ia).1.preAccounts := by
  rcases hres : verifyAndUpdateWork env accounts ctx programId before vs ia with ⟨vs', r⟩
  rcases verifyAndUpdateWork_preAccounts hres with hsame | ⟨l₁, p, l₂, hsplit, hlt, hkey, hnew⟩
  · rw [hsame]
    exact h
  rw [hnew]
  rw [hsplit] at h
  rcases checkPreAccount_fst programId (verifiedWritability ctx before ia)
    (accounts ia.indexInTransaction) vs p with hkept | ⟨hv, -, hupdated⟩
  · rw [hkept]
    exact h.replace rfl fun _ _ _ hchk => hchk
  rw [hupdated]
  refine h.replace (PreAccount.update_key _ _) fun j hjn hpj hchk => ?_
  -- the snapshot moved is the one of the account checked
  have hj : ia.indexInTransaction = j := hkeys _ _ hlt hjn (hkey.symm.trans hpj)
  rw [PreAccount.update_account_of_verifyOk hv]
  exact hchk.verify hv hprogram fun hwtrue => hj ▸ hw hwtrue

omit [DecidableEq Key] in
/-- An account a callee finds in its caller is a top-level account, writable at the top level if
it is writable in the caller. -/
lemma ContextWithin.callerAccount (hkeys : env.KeysDistinct)
    (hrange : ∀ ia ∈ top, ia.indexInTransaction < env.numberOfAccounts) {ctx : InstructionContext}
    (hctx : ContextWithin env top tree ctx) {ia : InstructionAccount}
    (hca : CallerAccount env ctx ia) :
    ia.indexInTransaction ∈ top.map InstructionAccount.indexInTransaction ∧
      (ctx.isWritable ia.indexInCaller = true → IsWritableIn top ia.indexInTransaction) := by
  obtain ⟨hlt, callerAccount, -, hget, hkey⟩ := hca
  have hmem := List.mem_of_getElem? hget
  have htop := hctx.accounts callerAccount hmem
  -- the caller's account has the callee's key, so it is the same transaction account
  have hsame : callerAccount.indexInTransaction = ia.indexInTransaction := by
    obtain ⟨t, ht, heq⟩ := List.mem_map.mp htop
    exact hkeys _ _ (heq ▸ hrange t ht) hlt hkey
  refine ⟨hsame ▸ htop, fun hw => ?_⟩
  obtain ⟨-, ia', hget', hw'⟩ := InstructionContext.isWritable_eq_true hw
  rw [hget] at hget'
  cases hget'
  exact hsame ▸ hctx.writable callerAccount hmem hw'

namespace Inv

variable {st : InvokeState Key}

omit [DecidableEq Key] in
lemma popped (h : Inv env start top tree st) : Inv env start top tree st.pop where
  inRange := h.inRange
  snapshots := h.snapshots
  outside := h.outside
  stack ctx hctx := h.stack ctx (List.mem_of_mem_tail hctx)

omit [DecidableEq Key] in
lemma pushed (h : Inv env start top tree st) {ctx : InstructionContext}
    (hctx : ContextWithin env top tree ctx) :
    Inv env start top tree { st with instructionStack := ctx :: st.instructionStack } where
  inRange := h.inRange
  snapshots := h.snapshots
  outside := h.outside
  stack c hc := by
    rcases List.mem_cons.mp hc with rfl | hc
    · exact hctx
    · exact h.stack c hc

omit [DecidableEq Key] in
/-- A program writes only accounts of the contexts on the stack, which are top-level accounts. -/
lemma written (h : Inv env start top tree st) (index : ℕ) (account : Account Key) :
    Inv env start top tree (st.writeInstructionAccount index account) where
  inRange := h.inRange
  snapshots := by
    rw [InvokeState.writeInstructionAccount_preAccounts]
    exact h.snapshots
  outside j hj := by
    rcases st.writeInstructionAccount_accounts index account j with
      heq | ⟨ctx, hctx, ia, hia, rfl⟩
    · rw [heq]
      exact h.outside _ hj
    · exact absurd ((h.stack ctx hctx).accounts ia hia) hj
  stack ctx hctx := by
    rw [InvokeState.writeInstructionAccount_instructionStack] at hctx
    exact h.stack ctx hctx

/-- `verify_and_update`, failed or not, keeps the invariant when the accounts it checks are
writable only where the top level grants it. -/
lemma verified (hkeys : env.KeysDistinct) (h : Inv env start top tree st)
    {instructionAccounts : List InstructionAccount} {before : Bool}
    (hw : ∀ ctx rest, st.instructionStack = ctx :: rest → ∀ ia ∈ instructionAccounts,
      verifiedWritability ctx before ia = true → IsWritableIn top ia.indexInTransaction) :
    Inv env start top tree (verifyAndUpdate env st instructionAccounts before).1 := by
  rcases hres : verifyAndUpdate env st instructionAccounts before with ⟨st', r⟩
  obtain ⟨hacc, hstack, hpre⟩ := verifyAndUpdate_fst hres
  show Inv env start top tree st'
  refine ⟨h.inRange, ?_, fun j hj => hacc ▸ h.outside j hj, fun ctx hctx => h.stack ctx (hstack ▸ hctx)⟩
  rcases hpre with hsame | ⟨ctx, rest, programId, hst, hkey, hloop⟩
  · rw [hsame]
    exact h.snapshots
  -- the loop moves the snapshots one account at a time, under the current program
  have hprogram : programId ∈ tree := (h.stack ctx (by simp [hst])).program programId hkey
  rw [hloop]
  exact tryEach_invariant (fun vs : VerifyState Key => SnapshotsOk env start top tree vs.preAccounts)
    (fun vs ia hia hvs => hvs.checkedStep hkeys hprogram
      (hw ctx rest hst ia (mem_of_mem_firstOccurrences _ hia))) h.snapshots

/-- A callee prepared under the invariant keeps to the top level, and so do the accounts the
caller's check reads writable in the caller. -/
lemma prepared (hkeys : env.KeysDistinct) (h : Inv env start top tree st)
    {instruction : Instruction Key} {signers : List Key}
    {instructionAccounts : List InstructionAccount} {programIndices : List ℕ}
    (hprogram : instruction.programId ∈ tree)
    (hprep : prepareInstruction env st instruction signers =
      .ok (instructionAccounts, programIndices)) :
    ∃ ctx rest, st.instructionStack = ctx :: rest ∧
      ContextWithin env top tree ⟨programIndices, instructionAccounts⟩ ∧
      ∀ ia ∈ instructionAccounts, ctx.isWritable ia.indexInCaller = true →
        IsWritableIn top ia.indexInTransaction := by
  obtain ⟨ctx, rest, hstack, hias, programIndex, hlast, -, hkey⟩ := prepareInstruction_eq_ok hprep
  have hctx := h.stack ctx (by simp [hstack])
  have hcaller := fun ia hia => hctx.callerAccount hkeys h.inRange (hias ia hia).1
  refine ⟨ctx, rest, hstack, ⟨fun ia hia => (hcaller ia hia).1,
    fun ia hia hw => (hcaller ia hia).2 ((hias ia hia).2 hw), fun programId hid => ?_⟩,
    fun ia hia => (hcaller ia hia).2⟩
  -- the callee's program is the instruction's
  rw [InstructionContext.getProgramKey_of_getLast? env hlast] at hid
  obtain ⟨-, hid⟩ := env.getKeyOfAccountAtIndex_eq_ok.mp hid
  rw [← hid, hkey]
  exact hprogram

/-- A call through `native_invoke` of a program of the tree, failed or not, keeps the invariant
if running the callee does. -/
lemma invoked (hkeys : env.KeysDistinct) (h : Inv env start top tree st)
    {instruction : Instruction Key} {signers : List Key}
    {execute : InvokeState Key → InvokeState Key × Except InstructionError Unit}
    (hprogram : instruction.programId ∈ tree)
    (hexecute : ∀ s, Inv env start top tree s → Inv env start top tree (execute s).1) :
    Inv env start top tree (nativeInvoke env instruction signers execute st).1 := by
  rcases (nativeInvoke_fst : (nativeInvoke env instruction signers execute st).1 = st ∨ _) with
    heq | ⟨instructionAccounts, programIndices, hprep, heq⟩
  · rw [heq]
    exact h
  rw [heq]
  obtain ⟨ctx, rest, hstack, hcallee, hwritable⟩ := h.prepared hkeys hprogram hprep
  refine processInstruction_invariant (Inv env start top tree) (by simp [hstack]) h ?_
    (fun s hs _ => hs.pushed hcallee) hexecute ?_ (fun s hs => hs.popped)
  · -- the caller's check reads the writability in the caller
    refine h.verified hkeys fun ctx' rest' hst ia hia hw => ?_
    rw [hstack] at hst
    cases hst
    exact hwritable ia hia (by simpa [verifiedWritability] using hw)
  · -- the callee's check reads the callee's own flags
    exact fun s hs => hs.verified hkeys fun _ _ _ ia hia hw =>
      hcallee.writable ia hia (by simpa [verifiedWritability] using hw)

end Inv

namespace Balanced

variable {st st' : InvokeState Key}

omit [DecidableEq Key] in
lemma written (h : Balanced start top st) (index : ℕ) (account : Account Key) :
    Balanced start top (st.writeInstructionAccount index account) := by
  unfold Balanced
  rw [InvokeState.writeInstructionAccount_preAccounts]
  exact h

/-- A `verify_and_update` that passed leaves the snapshots' lamports as it found them: each
account moves its snapshot by what it adds to the two sums, and the sums are equal. -/
lemma verified (h : Balanced start top st) {instructionAccounts : List InstructionAccount}
    {before : Bool} (hres : verifyAndUpdate env st instructionAccounts before = (st', .ok ())) :
    Balanced start top st' := by
  obtain ⟨-, -, ctx, rest, programId, vs, -, -, hloop, hsum, hpre⟩ := verifyAndUpdate_eq_ok hres
  -- each account moves its snapshot's lamports by what it adds to the post sum less the pre sum
  have hstep : ∀ (vs₀ : VerifyState Key) ia vs₁, ia ∈ firstOccurrences
      InstructionAccount.indexInTransaction instructionAccounts →
      verifyAndUpdateWork env st.accounts ctx programId before vs₀ ia = (vs₁, .ok ()) →
      ((((vs₁.preAccounts.map fun p => p.account.lamports).sum : ℕ) : ℤ) + vs₁.preSum -
        vs₁.postSum) + 0 = (((vs₀.preAccounts.map fun p => p.account.lamports).sum : ℕ) : ℤ) +
          vs₀.preSum - vs₀.postSum := by
    intro vs₀ ia vs₁ _ hwork
    obtain ⟨l₁, p, l₂, hsplit, hnew, hpreSum, hpostSum, hlam⟩ := verifyAndUpdateWork_eq_ok hwork
    rw [hsplit, hnew, hpreSum, hpostSum]
    simp only [List.map_append, List.map_cons, List.sum_append, List.sum_cons, hlam]
    push_cast
    omega
  have hmeasure := tryEach_measure _ _ hstep hloop
  simp only [List.map_const', List.sum_replicate, nsmul_zero, add_zero, hsum,
    add_sub_cancel_right] at hmeasure
  unfold Balanced
  rw [hpre, ← h]
  exact_mod_cast hmeasure

/-- A call through `native_invoke` that passed leaves the snapshots' lamports as they were, if
running the callee does. -/
lemma invoked (h : Balanced start top st) {instruction : Instruction Key} {signers : List Key}
    {execute : InvokeState Key → InvokeState Key × Except InstructionError Unit}
    (hexecute : ∀ s s', Balanced start top s → execute s = (s', .ok ()) → Balanced start top s')
    (hres : nativeInvoke env instruction signers execute st = (st', .ok ())) :
    Balanced start top st' := by
  obtain ⟨instructionAccounts, programIndices, hprep, hprocess⟩ := nativeInvoke_eq_ok hres
  obtain ⟨ctx, rest, hstack, -⟩ := prepareInstruction_eq_ok hprep
  obtain ⟨st₁, st₂, st₃, hcaller, hexec, hcallee, rfl⟩ :=
    processInstruction_of_ne_nil_eq_ok (by simp [hstack]) hprocess
  have h₁ := h.verified hcaller
  have h₂ := hexecute { st₁ with instructionStack :=
    ⟨programIndices, instructionAccounts⟩ :: st₁.instructionStack } st₂ h₁ hexec
  exact (h₂.verified hcallee : Balanced start top st₃)

end Balanced

end Steps

/-! ### Whole runs -/

section Runs

variable {env : InvokeEnv Key} {start : ℕ → Account Key} {top : List InstructionAccount}
  {tree : Set Key}

/-- Running a program that invokes only programs of the tree keeps the invariant, whatever the
calls return and whatever the program does with their results. -/
theorem Program.run_inv (hkeys : env.KeysDistinct) (program : Program Key)
    (hinvokes : program.InvokesOnly tree) :
    ∀ {st}, Inv env start top tree st → Inv env start top tree (program.run env st).1 := by
  induction program with
  | ret result => exact fun h => h
  | write index account next ih =>
    intro st h
    exact ih hinvokes (h.written index account)
  | invoke instruction signers callee next ihc ihn =>
    obtain ⟨hprogram, hcallee, hnext⟩ := hinvokes
    intro st h
    rcases hres : nativeInvoke env instruction signers (callee.run env) st with ⟨st₁, result⟩
    have h₁ : Inv env start top tree st₁ := by
      have h₁ : Inv env start top tree
          (nativeInvoke env instruction signers (callee.run env) st).1 :=
        h.invoked hkeys hprogram fun s hs => ihc hcallee hs
      rwa [hres] at h₁
    simp only [Program.run, hres]
    exact ihn result (hnext result) h₁

/-- A run that ends Ok of a program that passes errors on leaves the snapshots' lamports as they
were: every call in it passed its checks. -/
theorem Program.run_balanced (program : Program Key) (hprop : program.Propagates) :
    ∀ {st st'}, Balanced start top st → program.run env st = (st', .ok ()) →
      Balanced start top st' := by
  induction program with
  | ret result =>
    intro st st' h hrun
    simp only [Program.run, Prod.mk.injEq] at hrun
    rw [← hrun.1]
    exact h
  | write index account next ih =>
    intro st st' h hrun
    exact ih hprop (h.written index account) hrun
  | invoke instruction signers callee next ihc ihn =>
    obtain ⟨hcallee, herror, hok⟩ := hprop
    intro st st' h hrun
    rcases hres : nativeInvoke env instruction signers (callee.run env) st with
      ⟨st₁, e | ⟨⟩⟩
    · -- the error of a failed call is passed on, so the run does not end Ok
      simp only [Program.run, hres, herror, Prod.mk.injEq, reduceCtorEq, and_false] at hrun
    simp only [Program.run, hres] at hrun
    exact ihn (.ok ()) hok (h.invoked (fun s s' hs hexec => ihc hcallee hs hexec) hres) hrun

end Runs

/-! ### The top-level instruction -/

section TopLevel

variable {env : InvokeEnv Key} {top : List InstructionAccount} {tree : Set Key}
  {programIndices : List ℕ} {programIndex : ℕ}

/-- The top-level push starts the invariant and the balance, from the accounts as they are. -/
lemma push_starts_inv {st st₁ : InvokeState Key} (hnil : st.instructionStack = [])
    (hlast : programIndices.getLast? = some programIndex)
    (htop : env.accountKeys programIndex ∈ tree)
    (hpush : push env st top programIndices = (st₁, .ok ())) :
    Inv env st.accounts top tree st₁ ∧ Balanced st.accounts top st₁ := by
  obtain ⟨hacc, hstack, hpre, hlt⟩ := push_of_nil hnil hpush
  have hsnap : SnapshotsOk env st.accounts top tree st₁.preAccounts := by
    refine ⟨by rw [hpre, List.map_map]; rfl, fun p hp => ?_⟩
    rw [hpre] at hp
    obtain ⟨ia, hia, rfl⟩ := List.mem_map.mp hp
    exact ⟨ia.indexInTransaction, hlt ia (mem_of_mem_firstOccurrences _ hia), rfl, Checked.refl⟩
  -- the top-level context keeps to itself, under the top-level program
  have hctx : ContextWithin env top tree ⟨programIndices, top⟩ := by
    refine ⟨fun ia hia => List.mem_map_of_mem hia, fun ia hia hw => ⟨ia, hia, rfl, hw⟩,
      fun programId hid => ?_⟩
    rw [InstructionContext.getProgramKey_of_getLast? env hlast] at hid
    obtain ⟨-, hid⟩ := env.getKeyOfAccountAtIndex_eq_ok.mp hid
    exact hid ▸ htop
  refine ⟨⟨hlt, hsnap, fun j _ => by rw [hacc], fun ctx hctx' => ?_⟩, ?_⟩
  · rw [hstack, List.mem_singleton] at hctx'
    exact hctx' ▸ hctx
  · unfold Balanced
    rw [hpre, List.map_map]
    rfl

/-- The loop of `verify` walks the snapshots in order: when their keys are those of the accounts
visited, each account passed the check against the snapshot with its key, the pre sum grows by
the snapshots' lamports and the post sum by the accounts'. -/
lemma tryEach_verifyWork_eq_ok {programId : Key} {accounts : ℕ → Account Key} :
    ∀ {l : List InstructionAccount} {vs vs' : VerifyState Key},
      (vs.preAccounts.drop vs.preAccountIndex).map PreAccount.key =
        l.map (fun ia => env.accountKeys ia.indexInTransaction) →
      tryEach (verifyWork env programId accounts) l vs = (vs', .ok ()) →
      (∀ ia ∈ l, ∃ p ∈ vs.preAccounts, p.key = env.accountKeys ia.indexInTransaction ∧
        VerifyOk p.account programId ia.isWritable (accounts ia.indexInTransaction)) ∧
      vs'.preSum = vs.preSum +
        ((vs.preAccounts.drop vs.preAccountIndex).map fun p => p.account.lamports).sum ∧
      vs'.postSum = vs.postSum + (l.map fun ia => (accounts ia.indexInTransaction).lamports).sum
  | [], vs, vs', hkeys, h => by
    simp only [tryEach_nil, Prod.mk.injEq] at h
    obtain ⟨rfl, -⟩ := h
    rw [List.map_nil, List.map_eq_nil_iff] at hkeys
    simp [hkeys]
  | ia :: l, vs, vs', hkeys, h => by
    obtain ⟨vs₁, hwork, hrest⟩ := tryEach_cons_eq_ok.mp h
    obtain ⟨-, p, hp, hok, hpre, hindex, hpreSum, hpostSum⟩ := verifyWork_eq_ok hwork
    -- the snapshot checked is the next one in order
    have hdrop : vs.preAccounts.drop vs.preAccountIndex =
        p :: vs.preAccounts.drop (vs.preAccountIndex + 1) := by
      obtain ⟨hlt, heq⟩ := List.getElem?_eq_some_iff.mp hp
      rw [List.drop_eq_getElem_cons hlt, heq]
    rw [hdrop, List.map_cons, List.map_cons, List.cons.injEq] at hkeys
    have hkeys₁ : (vs₁.preAccounts.drop vs₁.preAccountIndex).map PreAccount.key =
        l.map (fun ia => env.accountKeys ia.indexInTransaction) := by
      rw [hpre, hindex]
      exact hkeys.2
    obtain ⟨hall, hpre₁, hpost₁⟩ := tryEach_verifyWork_eq_ok hkeys₁ hrest
    refine ⟨fun ib hib => ?_, ?_, ?_⟩
    · rcases List.mem_cons.mp hib with rfl | hib
      · exact ⟨p, List.mem_of_getElem? hp, hkeys.1, hok⟩
      · rw [← hpre]
        exact hall ib hib
    · rw [hpre₁, hpre, hindex, hpreSum, hdrop, List.map_cons, List.sum_cons, add_assoc]
    · rw [hpost₁, hpostSum, List.map_cons, List.sum_cons, add_assoc]

/-- What the final `verify` gives: every account is within what the checks allow. Accounts outside
the instruction are as at the start; an account of it passed the check against the snapshot with
its key, which is within what the checks allow. -/
lemma Inv.verify_checked (hkeys : env.KeysDistinct) {start : ℕ → Account Key}
    {st st' : InvokeState Key} (h : Inv env start top tree st)
    (hverify : verify env st top programIndices = (st', .ok ())) (j : ℕ) :
    Checked (IsWritableIn top j) tree (start j) (st.accounts j) := by
  by_cases hj : j ∈ top.map InstructionAccount.indexInTransaction
  swap
  · rw [h.outside j hj]
    exact Checked.refl
  obtain ⟨-, -, -, ctx, programId, vs, hctx, hkey, hloop, -⟩ := verify_eq_ok hverify
  obtain ⟨rest, hstack⟩ := InvokeState.getCurrentInstructionContext_eq_ok.mp hctx
  have hprogram : programId ∈ tree := (h.stack ctx (by simp [hstack])).program programId hkey
  obtain ⟨hall, -, -⟩ := tryEach_verifyWork_eq_ok (by simpa using h.snapshots.1) hloop
  -- the first account with the index was checked against the snapshot with its key
  obtain ⟨ia₀, hia₀, rfl⟩ := List.mem_map.mp hj
  obtain ⟨ia, hia, hidx⟩ := exists_mem_firstOccurrences InstructionAccount.indexInTransaction hia₀
  have hiatop := mem_of_mem_firstOccurrences _ hia
  obtain ⟨p, hp, hpkey, hok⟩ := hall ia hia
  obtain ⟨j', hj', hpj', hchk⟩ := h.snapshots.2 p hp
  have hsame : ia.indexInTransaction = j' :=
    hkeys _ _ (h.inRange ia hiatop) hj' (hpkey.symm.trans hpj')
  subst hsame
  rw [← hidx]
  exact hchk.verify hok hprogram fun hw => ⟨ia, hiatop, rfl, hw⟩

omit [DecidableEq Key] in
/-- Two functions that agree off a list without duplicates and have the same sum over it have the
same sum over any set that contains it. -/
lemma sum_eq_of_sum_map_eq {f g : ℕ → ℕ} {s : Finset ℕ} {l : List ℕ} (hnodup : l.Nodup)
    (hsub : ∀ x ∈ l, x ∈ s) (hout : ∀ x ∈ s, x ∉ l → f x = g x)
    (hl : (l.map f).sum = (l.map g).sum) : ∑ x ∈ s, f x = ∑ x ∈ s, g x := by
  have hsub' : l.toFinset ⊆ s := fun x hx => hsub x (List.mem_toFinset.mp hx)
  rw [← Finset.sum_sdiff hsub', ← Finset.sum_sdiff hsub', List.sum_toFinset _ hnodup,
    List.sum_toFinset _ hnodup, hl]
  congr 1
  refine Finset.sum_congr rfl fun x hx => ?_
  rw [Finset.mem_sdiff, List.mem_toFinset] at hx
  exact hout x hx.1 hx.2

/-- What the final `verify` gives of balanced snapshots: the transaction's accounts hold the
lamports they held at the start, in sum. -/
lemma Balanced.verify_sum {start : ℕ → Account Key} {st st' : InvokeState Key}
    (h : Inv env start top tree st) (hb : Balanced start top st)
    (hverify : verify env st top programIndices = (st', .ok ())) :
    ∑ j ∈ Finset.range env.numberOfAccounts, (st.accounts j).lamports =
      ∑ j ∈ Finset.range env.numberOfAccounts, (start j).lamports := by
  obtain ⟨-, -, -, ctx, programId, vs, -, -, hloop, hsum⟩ := verify_eq_ok hverify
  obtain ⟨-, hpre, hpost⟩ := tryEach_verifyWork_eq_ok (by simpa using h.snapshots.1) hloop
  simp only [List.drop_zero, zero_add] at hpre hpost
  -- over the accounts of the instruction the check compared the two sums
  have hlist : ((firstOccurrences InstructionAccount.indexInTransaction top).map fun ia =>
      (st.accounts ia.indexInTransaction).lamports).sum =
      ((firstOccurrences InstructionAccount.indexInTransaction top).map fun ia =>
        (start ia.indexInTransaction).lamports).sum := by
    rw [← hpost, ← hsum, hpre]
    exact hb
  -- off the instruction's accounts nothing changed
  have hout : ∀ x, x ∉ (firstOccurrences InstructionAccount.indexInTransaction top).map
      InstructionAccount.indexInTransaction → st.accounts x = start x := by
    intro x hx
    refine h.outside x fun hmem => hx ?_
    obtain ⟨ia₀, hia₀, rfl⟩ := List.mem_map.mp hmem
    obtain ⟨ia, hia, hidx⟩ := exists_mem_firstOccurrences InstructionAccount.indexInTransaction hia₀
    exact List.mem_map.mpr ⟨ia, hia, hidx⟩
  refine sum_eq_of_sum_map_eq (nodup_map_firstOccurrences _ top) (fun x hx => ?_)
    (fun x _ hx => congrArg Account.lamports (hout x hx))
    (by rw [List.map_map, List.map_map]; exact hlist)
  obtain ⟨ia, hia, rfl⟩ := List.mem_map.mp hx
  exact Finset.mem_range.mpr (h.inRange ia (mem_of_mem_firstOccurrences _ hia))

theorem process_instruction_keeps_account_rules (hkeys : env.KeysDistinct)
    (hlast : programIndices.getLast? = some programIndex)
    (htop : env.accountKeys programIndex ∈ tree) {program : Program Key}
    (hinvokes : program.InvokesOnly tree) {st st' : InvokeState Key}
    (hnil : st.instructionStack = [])
    (h : processInstruction env top programIndices (program.run env) st = (st', .ok ())) :
    (program.Propagates →
      ∑ j ∈ Finset.range env.numberOfAccounts, (st'.accounts j).lamports =
        ∑ j ∈ Finset.range env.numberOfAccounts, (st.accounts j).lamports) ∧
    (∀ j, (∀ ia ∈ top, ia.indexInTransaction = j → ia.isWritable = false) →
      st'.accounts j = st.accounts j) ∧
    (∀ j, ((st.accounts j).executable = true →
        (st'.accounts j).lamports = (st.accounts j).lamports ∧
        (st'.accounts j).data = (st.accounts j).data) ∧
      (st'.accounts j).rentEpoch = (st.accounts j).rentEpoch) ∧
    (∀ j, (st.accounts j).owner ∉ tree →
      (st'.accounts j).owner = (st.accounts j).owner ∧
      (st'.accounts j).data = (st.accounts j).data ∧
      (st.accounts j).lamports ≤ (st'.accounts j).lamports) := by
  obtain ⟨st₁, st₂, st₃, hpush, hrun, hverify, rfl⟩ := processInstruction_of_nil_eq_ok hnil h
  obtain ⟨hinv₁, hbal₁⟩ := push_starts_inv hnil hlast htop hpush
  have hinv₂ : Inv env st.accounts top tree st₂ := by
    have hinv := Program.run_inv hkeys program hinvokes hinv₁
    rwa [hrun] at hinv
  -- the final check changes no account, and every account passed it
  have hacc : st₃.pop.accounts = st₂.accounts := (verify_eq_ok hverify).1
  have hchecked := hinv₂.verify_checked hkeys hverify
  rw [hacc]
  refine ⟨fun hprop => Balanced.verify_sum hinv₂ (Program.run_balanced program hprop hbal₁ hrun)
    hverify,
    fun j hro => (hchecked j).readonly ?_, fun j => ⟨fun hx => ?_, (hchecked j).rentEpoch⟩,
    fun j hown => (hchecked j).external hown⟩
  · rintro ⟨ia, hia, rfl, hw⟩
    rw [hro ia hia rfl] at hw
    cases hw
  · rw [(hchecked j).executable hx]
    exact ⟨rfl, rfl⟩

/-- A transaction of three accounts: the top-level program 0, an account 1 it owns, and the
program 2. -/
def callEnv : InvokeEnv (Fin 3) where
  accountKeys i := ⟨i % 3, Nat.mod_lt _ (by decide)⟩
  numberOfAccounts := 3
  instructionContextCapacity := 5
  maxInvokeDepth := 4
  featureSet := ⟨true, true, true, true⟩
  rent := ⟨fun _ _ => true⟩
  systemProgramId := 1
  bpfLoaderUpgradeableId := 2
  programdataAddress _ := .ok none

def callState : InvokeState (Fin 3) where
  accounts j := if j = 1 then ⟨10, [], 0, false, 0⟩ else ⟨1, [], 1, true, 0⟩
  instructionStack := []
  preAccounts := []
  accountsDataMeter := ⟨1000, 0, 0⟩

/-- The top-level instruction: account 1 writable, the program 2 read-only. -/
def callTop : List InstructionAccount := [⟨1, 1, false, true⟩, ⟨2, 2, false, false⟩]

/-- The call of program 2 on account 1. -/
def callInstruction : Instruction (Fin 3) := ⟨2, [⟨1, false, true⟩]⟩

/-- Calls program 2 and passes its result on. -/
def passingProgram : Program (Fin 3) :=
  .invoke callInstruction [] (.ret (.ok ())) fun result => .ret result

theorem passing_call_keeps_lamports :
    ∃ st', processInstruction callEnv callTop [0] (passingProgram.run callEnv) callState =
        (st', .ok ()) ∧
      ∑ j ∈ Finset.range callEnv.numberOfAccounts, (st'.accounts j).lamports =
        ∑ j ∈ Finset.range callEnv.numberOfAccounts, (callState.accounts j).lamports := by
  have hkeys : callEnv.KeysDistinct := by
    intro i j hi hj hij
    simp only [callEnv, Fin.mk.injEq] at hi hj hij
    omega
  have hinvokes : passingProgram.InvokesOnly ({0, 2} : Set (Fin 3)) :=
    ⟨by simp [callInstruction], trivial, fun _ => trivial⟩
  have hrun : processInstruction callEnv callTop [0] (passingProgram.run callEnv) callState =
      ((processInstruction callEnv callTop [0] (passingProgram.run callEnv) callState).1, .ok ()) :=
    Prod.ext rfl (by decide)
  exact ⟨_, hrun, (process_instruction_keeps_account_rules hkeys rfl (by simp [callEnv]) hinvokes
    rfl hrun).1 ⟨trivial, fun _ => rfl, trivial⟩⟩

/-- Burns 5 lamports of account 1, calls program 2, and returns Ok whatever the call returned. -/
def swallowingProgram : Program (Fin 3) :=
  .write 0 ⟨5, [], 0, false, 0⟩ (.invoke callInstruction [] (.ret (.ok ())) fun _ => .ret (.ok ()))

theorem swallowed_unbalanced_call_burns_lamports :
    ∃ st', processInstruction callEnv callTop [0] (swallowingProgram.run callEnv) callState =
        (st', .ok ()) ∧
      ∑ j ∈ Finset.range callEnv.numberOfAccounts, (st'.accounts j).lamports ≠
        ∑ j ∈ Finset.range callEnv.numberOfAccounts, (callState.accounts j).lamports :=
  ⟨_, Prod.ext rfl (by decide), by decide⟩

end TopLevel

end VelasChain.ProgramRuntime
