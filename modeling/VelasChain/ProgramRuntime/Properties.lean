import VelasChain.ProgramRuntime.InvokeContext

/-!
# What each method of the invoke context does

One inversion lemma per method of `InvokeContext`: what a successful call returns, and for the
methods that change the pre-accounts, what any call, failed or not, can have done to them. The
proofs about whole runs in `AccountChecks` use these lemmas and never unfold the methods.
-/

namespace VelasChain.ProgramRuntime

open Fallible

variable {Key : Type}

/-! ### The transaction and instruction contexts -/

section Contexts

@[simp] lemma InvokeState.pop_accounts (st : InvokeState Key) : st.pop.accounts = st.accounts := rfl

@[simp] lemma InvokeState.pop_preAccounts (st : InvokeState Key) :
    st.pop.preAccounts = st.preAccounts := rfl

@[simp] lemma InvokeState.pop_instructionStack (st : InvokeState Key) :
    st.pop.instructionStack = st.instructionStack.tail := rfl

@[simp] lemma InvokeState.writeInstructionAccount_preAccounts (st : InvokeState Key) (index : ℕ)
    (account : Account Key) : (st.writeInstructionAccount index account).preAccounts =
      st.preAccounts := by
  unfold InvokeState.writeInstructionAccount
  split
  · split <;> rfl
  · rfl

@[simp] lemma InvokeState.writeInstructionAccount_instructionStack (st : InvokeState Key)
    (index : ℕ) (account : Account Key) :
    (st.writeInstructionAccount index account).instructionStack = st.instructionStack := by
  unfold InvokeState.writeInstructionAccount
  split
  · split <;> rfl
  · rfl

/-- A program writes only an account of the current instruction. -/
lemma InvokeState.writeInstructionAccount_accounts (st : InvokeState Key) (index : ℕ)
    (account : Account Key) (j : ℕ) :
    (st.writeInstructionAccount index account).accounts j = st.accounts j ∨
      ∃ ctx ∈ st.instructionStack, ∃ ia ∈ ctx.instructionAccounts, ia.indexInTransaction = j := by
  unfold InvokeState.writeInstructionAccount
  split
  · rename_i ctx rest hstack
    split
    · rename_i ia hia
      by_cases hj : ia.indexInTransaction = j
      · exact .inr ⟨ctx, by simp [hstack], ia, List.mem_of_getElem? hia, hj⟩
      · exact .inl (Function.update_of_ne (Ne.symm hj) _ _)
    · exact .inl rfl
  · exact .inl rfl

lemma InvokeState.getCurrentInstructionContext_eq_ok {st : InvokeState Key}
    {ctx : InstructionContext} :
    st.getCurrentInstructionContext = .ok ctx ↔ ∃ rest, st.instructionStack = ctx :: rest := by
  unfold InvokeState.getCurrentInstructionContext
  split <;> simp_all

variable (env : InvokeEnv Key)

lemma InvokeEnv.getKeyOfAccountAtIndex_eq_ok {i : ℕ} {key : Key} :
    env.getKeyOfAccountAtIndex i = .ok key ↔ i < env.numberOfAccounts ∧ env.accountKeys i = key := by
  unfold InvokeEnv.getKeyOfAccountAtIndex
  split
  · simp_all
  · simp only [reduceCtorEq, false_iff, not_and]
    omega

variable [DecidableEq Key]

lemma InvokeEnv.findIndexOfAccount_eq_some {pubkey : Key} {i : ℕ}
    (h : env.findIndexOfAccount pubkey = some i) :
    i < env.numberOfAccounts ∧ env.accountKeys i = pubkey := by
  obtain ⟨hkey, hmem⟩ := List.find?_eq_some_iff_append.mp h |>.imp_right fun ⟨as, bs, heq, _⟩ =>
    show i ∈ List.range env.numberOfAccounts from heq ▸ by simp
  exact ⟨List.mem_range.mp hmem, by simpa using hkey⟩

lemma InvokeEnv.findIndexOfProgramAccount_lt {pubkey : Key} {i : ℕ}
    (h : env.findIndexOfProgramAccount pubkey = some i) : i < env.numberOfAccounts := by
  have hmem := List.mem_of_find?_eq_some h
  simpa using hmem

namespace InstructionContext

variable {ctx : InstructionContext}

/-- Past the program accounts, an index of the instruction is an index of its accounts. -/
lemma getIndexInTransaction_eq_ok {i t : ℕ} (hi : ctx.programAccounts.length ≤ i) :
    ctx.getIndexInTransaction i = .ok t ↔
      ∃ ia, ctx.instructionAccounts[i - ctx.programAccounts.length]? = some ia ∧
        ia.indexInTransaction = t := by
  unfold getIndexInTransaction
  rw [if_neg (by omega)]
  split <;> simp_all

omit [DecidableEq Key] in
lemma getProgramKey_of_getLast? {p : ℕ} (h : ctx.programAccounts.getLast? = some p) :
    ctx.getProgramKey env = env.getKeyOfAccountAtIndex p := by
  have hne : ctx.programAccounts ≠ [] := by
    rintro hnil
    simp [hnil] at h
  have hlt : ctx.programAccounts.length - 1 < ctx.programAccounts.length := by
    have := List.length_pos_of_ne_nil hne
    omega
  have hlast : ctx.programAccounts[ctx.programAccounts.length - 1] = p := by
    rw [List.getLast?_eq_getElem?, List.getElem?_eq_getElem hlt] at h
    exact Option.some.inj h
  simp [getProgramKey, getIndexInTransaction, hlt, hlast, bind, Except.bind]

omit [DecidableEq Key] in
lemma tryBorrowAccount_eq_ok {i t : ℕ} (h : ctx.tryBorrowAccount env i = .ok t) :
    t < env.numberOfAccounts ∧ ctx.getIndexInTransaction i = .ok t := by
  unfold tryBorrowAccount at h
  obtain ⟨t', ht', hrest⟩ := Except.bind_eq_ok_iff.mp h
  split at hrest
  · cases hrest
    exact ⟨‹_›, ht'⟩
  · cases hrest

lemma isWritable_eq_true {i : ℕ} (h : ctx.isWritable i = true) :
    ctx.programAccounts.length ≤ i ∧ ∃ ia, ctx.instructionAccounts[i - ctx.programAccounts.length]? =
      some ia ∧ ia.isWritable = true := by
  unfold isWritable at h
  split at h
  · cases h
  · refine ⟨by omega, ?_⟩
    cases hia : ctx.instructionAccounts[i - ctx.programAccounts.length]? with
    | none => simp [hia] at h
    | some ia => exact ⟨ia, rfl, by simpa [hia] using h⟩

lemma findIndexOfAccount_eq_some {pubkey : Key} {i : ℕ}
    (h : ctx.findIndexOfAccount env pubkey = some i) :
    ∃ p ia, ctx.instructionAccounts[p]? = some ia ∧
      env.accountKeys ia.indexInTransaction = pubkey ∧ i = p + ctx.programAccounts.length := by
  unfold findIndexOfAccount at h
  obtain ⟨p, hp, rfl⟩ := Option.map_eq_some_iff.mp h
  obtain ⟨hlt, hkey, -⟩ := List.findIdx?_eq_some_iff_getElem.mp hp
  exact ⟨p, _, List.getElem?_eq_getElem hlt, by simpa using hkey, rfl⟩

end InstructionContext

end Contexts

/-! ### `verify` -/

section Verify

variable {env : InvokeEnv Key} [DecidableEq Key]

omit [DecidableEq Key] in
lemma checkedAddSum_eq_ok {sum lamports total : ℕ} :
    checkedAddSum sum lamports = .ok total → total = sum + lamports := by
  unfold checkedAddSum
  split <;> intro h <;> cases h
  rfl

lemma verifyWork_eq_ok {programId : Key} {accounts : ℕ → Account Key} {vs vs' : VerifyState Key}
    {ia : InstructionAccount} (h : verifyWork env programId accounts vs ia = (vs', .ok ())) :
    ia.indexInTransaction < env.numberOfAccounts ∧ ∃ p,
      vs.preAccounts[vs.preAccountIndex]? = some p ∧
      VerifyOk p.account programId ia.isWritable (accounts ia.indexInTransaction) ∧
      vs'.preAccounts = vs.preAccounts ∧ vs'.preAccountIndex = vs.preAccountIndex + 1 ∧
      vs'.preSum = vs.preSum + p.account.lamports ∧
      vs'.postSum = vs.postSum + (accounts ia.indexInTransaction).lamports := by
  unfold verifyWork at h
  dsimp only at h
  split_ifs at h with hlt
  · refine ⟨hlt, ?_⟩
    split at h
    · cases h
    · rename_i p hp
      split at h
      · rename_i preSum postSum meter hchecked
        cases h
        obtain ⟨_, hverify, hrest⟩ := Except.bind_eq_ok_iff.mp hchecked
        obtain ⟨a, ha, hrest⟩ := Except.bind_eq_ok_iff.mp hrest
        obtain ⟨b, hb, hrest⟩ := Except.bind_eq_ok_iff.mp hrest
        obtain ⟨m, -, hrest⟩ := Except.bind_eq_ok_iff.mp hrest
        cases hrest
        rw [checkedAddSum_eq_ok ha, checkedAddSum_eq_ok hb]
        exact ⟨p, hp, PreAccount.verify_eq_ok hverify, rfl, rfl, rfl, rfl⟩
      · cases h
  · cases h

lemma verify_eq_ok {st st' : InvokeState Key} {instructionAccounts : List InstructionAccount}
    {programIndices : List ℕ} (h : verify env st instructionAccounts programIndices = (st', .ok ())) :
    st'.accounts = st.accounts ∧ st'.preAccounts = st.preAccounts ∧
      st'.instructionStack = st.instructionStack ∧ ∃ ctx programId vs,
        st.getCurrentInstructionContext = .ok ctx ∧ ctx.getProgramKey env = .ok programId ∧
        tryEach (verifyWork env programId st.accounts)
          (firstOccurrences InstructionAccount.indexInTransaction instructionAccounts)
          ⟨st.preAccounts, st.accountsDataMeter, 0, 0, 0⟩ = (vs, .ok ()) ∧ vs.preSum = vs.postSum := by
  unfold verify at h
  rcases hctx : st.getCurrentInstructionContext with _ | ctx
  · simp [hctx, bind, Except.bind] at h
  rcases hkey : ctx.getProgramKey env with _ | programId
  · simp [hctx, hkey, bind, Except.bind] at h
  simp only [hctx, hkey, bind, Except.bind] at h
  have hindices : programIndices.all (· < env.numberOfAccounts) = true := by
    by_contra hne
    rw [if_neg hne] at h
    cases h
  rw [if_pos hindices] at h
  rcases hloop : visitEachAccountOnce instructionAccounts (verifyWork env programId st.accounts)
    ⟨st.preAccounts, st.accountsDataMeter, 0, 0, 0⟩ with ⟨vs, _ | ⟨⟩⟩
  · simp [hloop] at h
  simp only [hloop] at h
  have hsum : vs.preSum = vs.postSum := by
    by_contra hne
    rw [if_neg hne] at h
    cases h
  rw [if_pos hsum] at h
  cases h
  refine ⟨rfl, rfl, rfl, ctx, programId, vs, rfl, hkey, ?_, hsum⟩
  rwa [visitEachAccountOnce, visitOnce_eq] at hloop

/-- The snapshot `checkPreAccount` leaves: the same one, or, once checked, moved to a writable,
non-executable account. -/
lemma checkPreAccount_fst (programId : Key) (isWritable : Bool) (account : Account Key)
    (vs : VerifyState Key) (p : PreAccount Key) :
    (checkPreAccount env programId isWritable account vs p).1 = p ∨
      VerifyOk p.account programId isWritable account ∧ isWritable = true ∧
        (checkPreAccount env programId isWritable account vs p).1 = p.update account := by
  unfold checkPreAccount
  dsimp only
  split
  · exact .inl rfl
  · rename_i preSum postSum hchecked
    obtain ⟨_, hverify, -⟩ := Except.bind_eq_ok_iff.mp hchecked
    by_cases hupdate : isWritable = true ∧ p.account.executable = false
    · exact .inr ⟨PreAccount.verify_eq_ok hverify, hupdate.1, by simp [hupdate]⟩
    · exact .inl (by simp [hupdate])

/-- A successful `checkPreAccount` adds the snapshot's and the account's lamports to the sums,
and leaves a snapshot with the account's lamports. -/
lemma checkPreAccount_snd_eq_ok {programId : Key} {isWritable : Bool} {account : Account Key}
    {vs : VerifyState Key} {p : PreAccount Key} {preSum postSum : ℕ} {meter : AccountsDataMeter}
    (h : (checkPreAccount env programId isWritable account vs p).2 = .ok (preSum, postSum, meter)) :
    VerifyOk p.account programId isWritable account ∧ preSum = vs.preSum + p.account.lamports ∧
      postSum = vs.postSum + account.lamports ∧
      (checkPreAccount env programId isWritable account vs p).1.account.lamports =
        account.lamports := by
  unfold checkPreAccount at h ⊢
  dsimp only at h ⊢
  split at h
  · cases h
  · rename_i a b hchecked
    obtain ⟨_, hverify, hrest⟩ := Except.bind_eq_ok_iff.mp hchecked
    obtain ⟨a', ha, hrest⟩ := Except.bind_eq_ok_iff.mp hrest
    obtain ⟨b', hb, hrest⟩ := Except.bind_eq_ok_iff.mp hrest
    cases hrest
    obtain ⟨m, -, hm⟩ := Except.map_eq_ok_iff.mp h
    cases hm
    have hok := PreAccount.verify_eq_ok hverify
    refine ⟨hok, checkedAddSum_eq_ok ha, checkedAddSum_eq_ok hb, ?_⟩
    by_cases hupdate : isWritable = true ∧ p.account.executable = false
    · simp [hupdate, PreAccount.update]
    · rw [if_neg hupdate]
      refine (hok.lamports_eq ?_).symm
      cases isWritable <;> cases hx : p.account.executable <;> simp_all

/-- The writability `verify_and_update` checks an account under: the caller's before the callee
is pushed, the callee's after it returned. -/
def verifiedWritability (ctx : InstructionContext) (beforeInstructionContextPush : Bool)
    (instructionAccount : InstructionAccount) : Bool :=
  if beforeInstructionContextPush then ctx.isWritable instructionAccount.indexInCaller
  else instructionAccount.isWritable

omit [DecidableEq Key] in
lemma verifyAndUpdateIsWritable_eq_ok {ctx : InstructionContext} {before : Bool}
    {ia : InstructionAccount} {w : Bool}
    (h : verifyAndUpdateIsWritable env ctx before ia = .ok w) :
    w = verifiedWritability ctx before ia := by
  unfold verifyAndUpdateIsWritable at h
  unfold verifiedWritability
  cases before
  · simpa using h.symm
  · obtain ⟨_, -, hw⟩ := Except.map_eq_ok_iff.mp (by simpa using h)
    simp [hw]

/-- What one step of `verify_and_update` can do to the snapshots, whatever its result: nothing,
or replace the snapshot with the account's key by what `checkPreAccount` made of it. -/
lemma verifyAndUpdateWork_preAccounts {accounts : ℕ → Account Key} {ctx : InstructionContext}
    {programId : Key} {before : Bool} {vs vs' : VerifyState Key} {ia : InstructionAccount}
    {r : Except InstructionError Unit}
    (h : verifyAndUpdateWork env accounts ctx programId before vs ia = (vs', r)) :
    vs'.preAccounts = vs.preAccounts ∨ ∃ l₁ p l₂, vs.preAccounts = l₁ ++ p :: l₂ ∧
      ia.indexInTransaction < env.numberOfAccounts ∧
      p.key = env.accountKeys ia.indexInTransaction ∧
      vs'.preAccounts = l₁ ++ (checkPreAccount env programId (verifiedWritability ctx before ia)
        (accounts ia.indexInTransaction) vs p).1 :: l₂ := by
  unfold verifyAndUpdateWork at h
  dsimp only at h
  by_cases hlt : ia.indexInTransaction < env.numberOfAccounts
  swap
  · rw [if_neg hlt] at h
    cases h
    exact .inl rfl
  rw [if_pos hlt] at h
  rcases hw : verifyAndUpdateIsWritable env ctx before ia with e | w
  · rw [hw] at h
    cases h
    exact .inl rfl
  rw [hw] at h
  dsimp only at h
  rw [← verifyAndUpdateIsWritable_eq_ok hw]
  by_cases hfound : ∃ p ∈ vs.preAccounts,
      decide (env.accountKeys ia.indexInTransaction = p.key) = true
  · obtain ⟨l₁, p, l₂, hsplit, hkey, heq⟩ := modifyFirst_eq_split
      (checkPreAccount env programId w (accounts ia.indexInTransaction) vs)
      InstructionError.missingAccount hfound
    rw [heq] at h
    refine .inr ⟨l₁, p, l₂, hsplit, hlt, (of_decide_eq_true hkey).symm, ?_⟩
    dsimp only at h
    split at h <;> cases h <;> rfl
  · push Not at hfound
    rw [modifyFirst_of_forall_not (by simpa using hfound)] at h
    dsimp only at h
    cases h
    exact .inl rfl

lemma verifyAndUpdateWork_eq_ok {accounts : ℕ → Account Key} {ctx : InstructionContext}
    {programId : Key} {before : Bool} {vs vs' : VerifyState Key} {ia : InstructionAccount}
    (h : verifyAndUpdateWork env accounts ctx programId before vs ia = (vs', .ok ())) :
    ∃ l₁ p l₂, vs.preAccounts = l₁ ++ p :: l₂ ∧
      vs'.preAccounts = l₁ ++ (checkPreAccount env programId (verifiedWritability ctx before ia)
        (accounts ia.indexInTransaction) vs p).1 :: l₂ ∧
      vs'.preSum = vs.preSum + p.account.lamports ∧
      vs'.postSum = vs.postSum + (accounts ia.indexInTransaction).lamports ∧
      (checkPreAccount env programId (verifiedWritability ctx before ia)
        (accounts ia.indexInTransaction) vs p).1.account.lamports =
        (accounts ia.indexInTransaction).lamports := by
  unfold verifyAndUpdateWork at h
  dsimp only at h
  by_cases hlt : ia.indexInTransaction < env.numberOfAccounts
  swap
  · rw [if_neg hlt] at h
    cases h
  rw [if_pos hlt] at h
  rcases hw : verifyAndUpdateIsWritable env ctx before ia with e | w
  · rw [hw] at h
    cases h
  rw [hw] at h
  dsimp only at h
  rw [← verifyAndUpdateIsWritable_eq_ok hw]
  by_cases hfound : ∃ p ∈ vs.preAccounts,
      decide (env.accountKeys ia.indexInTransaction = p.key) = true
  · obtain ⟨l₁, p, l₂, hsplit, -, heq⟩ := modifyFirst_eq_split
      (checkPreAccount env programId w (accounts ia.indexInTransaction) vs)
      InstructionError.missingAccount hfound
    rw [heq] at h
    dsimp only at h
    split at h
    · rename_i preSum postSum meter hcheck
      cases h
      obtain ⟨-, hpre, hpost, hlam⟩ := checkPreAccount_snd_eq_ok hcheck
      exact ⟨l₁, p, l₂, hsplit, rfl, hpre, hpost, hlam⟩
    · cases h
  · push Not at hfound
    rw [modifyFirst_of_forall_not (by simpa using hfound)] at h
    dsimp only at h
    cases h

/-- `verify_and_update` changes only the snapshots, through its loop, also when it fails. -/
lemma verifyAndUpdate_fst {st st' : InvokeState Key} {instructionAccounts : List InstructionAccount}
    {before : Bool} {r : Except InstructionError Unit}
    (h : verifyAndUpdate env st instructionAccounts before = (st', r)) :
    st'.accounts = st.accounts ∧ st'.instructionStack = st.instructionStack ∧
      (st'.preAccounts = st.preAccounts ∨ ∃ ctx rest programId,
        st.instructionStack = ctx :: rest ∧ ctx.getProgramKey env = .ok programId ∧
        st'.preAccounts = (tryEach (verifyAndUpdateWork env st.accounts ctx programId before)
          (firstOccurrences InstructionAccount.indexInTransaction instructionAccounts)
          ⟨st.preAccounts, st.accountsDataMeter, 0, 0, 0⟩).1.preAccounts) := by
  unfold verifyAndUpdate at h
  rcases hctx : st.getCurrentInstructionContext with _ | ctx
  · simp only [hctx] at h
    cases h
    exact ⟨rfl, rfl, .inl rfl⟩
  rcases hkey : ctx.getProgramKey env with _ | programId
  · simp only [hctx, hkey] at h
    cases h
    exact ⟨rfl, rfl, .inl rfl⟩
  obtain ⟨rest, hstack⟩ := InvokeState.getCurrentInstructionContext_eq_ok.mp hctx
  simp only [hctx, hkey] at h
  rw [visitEachAccountOnce, visitOnce_eq] at h
  rcases hloop : tryEach (verifyAndUpdateWork env st.accounts ctx programId before)
    (firstOccurrences InstructionAccount.indexInTransaction instructionAccounts)
    ⟨st.preAccounts, st.accountsDataMeter, 0, 0, 0⟩ with ⟨vs, result⟩
  rw [hloop] at h
  dsimp only at h
  have hpre : st'.preAccounts = vs.preAccounts := by
    split at h
    · cases h
      rfl
    · split_ifs at h <;> cases h <;> rfl
  have hframe : st'.accounts = st.accounts ∧ st'.instructionStack = st.instructionStack := by
    split at h
    · cases h
      exact ⟨rfl, rfl⟩
    · split_ifs at h <;> cases h <;> exact ⟨rfl, rfl⟩
  exact ⟨hframe.1, hframe.2, .inr ⟨ctx, rest, programId, hstack, hkey, by rw [hpre, hloop]⟩⟩

lemma verifyAndUpdate_eq_ok {st st' : InvokeState Key}
    {instructionAccounts : List InstructionAccount} {before : Bool}
    (h : verifyAndUpdate env st instructionAccounts before = (st', .ok ())) :
    st'.accounts = st.accounts ∧ st'.instructionStack = st.instructionStack ∧
      ∃ ctx rest programId vs, st.instructionStack = ctx :: rest ∧
        ctx.getProgramKey env = .ok programId ∧
        tryEach (verifyAndUpdateWork env st.accounts ctx programId before)
          (firstOccurrences InstructionAccount.indexInTransaction instructionAccounts)
          ⟨st.preAccounts, st.accountsDataMeter, 0, 0, 0⟩ = (vs, .ok ()) ∧
        vs.preSum = vs.postSum ∧ st'.preAccounts = vs.preAccounts := by
  unfold verifyAndUpdate at h
  rcases hctx : st.getCurrentInstructionContext with _ | ctx
  · simp only [hctx] at h
    cases h
  rcases hkey : ctx.getProgramKey env with _ | programId
  · simp only [hctx, hkey] at h
    cases h
  obtain ⟨rest, hstack⟩ := InvokeState.getCurrentInstructionContext_eq_ok.mp hctx
  simp only [hctx, hkey] at h
  rw [visitEachAccountOnce, visitOnce_eq] at h
  rcases hloop : tryEach (verifyAndUpdateWork env st.accounts ctx programId before)
    (firstOccurrences InstructionAccount.indexInTransaction instructionAccounts)
    ⟨st.preAccounts, st.accountsDataMeter, 0, 0, 0⟩ with ⟨vs, _ | ⟨⟩⟩
  · rw [hloop] at h
    cases h
  rw [hloop] at h
  dsimp only at h
  have hsum : vs.preSum = vs.postSum := by
    by_contra hne
    rw [if_neg hne] at h
    cases h
  rw [if_pos hsum] at h
  cases h
  exact ⟨rfl, rfl, ctx, rest, programId, vs, hstack, hkey, hloop, hsum, rfl⟩

end Verify

/-! ### `prepare_instruction` -/

section Prepare

variable {env : InvokeEnv Key} [DecidableEq Key]

/-- An account of a callee as `prepare_instruction` makes it: a transaction account, whose
`indexInCaller` names an account of the caller's instruction with the same key. -/
def CallerAccount (env : InvokeEnv Key) (ctx : InstructionContext) (ia : InstructionAccount) :
    Prop :=
  ia.indexInTransaction < env.numberOfAccounts ∧ ∃ callerAccount,
    ctx.programAccounts.length ≤ ia.indexInCaller ∧
    ctx.instructionAccounts[ia.indexInCaller - ctx.programAccounts.length]? = some callerAccount ∧
    env.accountKeys callerAccount.indexInTransaction = env.accountKeys ia.indexInTransaction

omit [DecidableEq Key] in
private lemma mem_modify {α : Type} {l : List α} {i : ℕ} {f : α → α} {x : α}
    (h : x ∈ l.modify i f) : x ∈ l ∨ ∃ y ∈ l, x = f y := by
  rw [List.modify_eq_set_getElem?] at h
  cases hi : l[i]? with
  | none =>
    rw [hi] at h
    exact .inl h
  | some y =>
    rw [hi] at h
    rcases List.mem_or_eq_of_mem_set h with h | rfl
    · exact .inl h
    · exact .inr ⟨y, List.mem_of_getElem? hi, rfl⟩

/-- Each account the deduplication keeps is found in the caller; merging the privileges of a
duplicate keeps where it is found. -/
lemma deduplicateAccount_callerAccount {ctx : InstructionContext}
    {acc acc' : List InstructionAccount × List ℕ} {accountMeta : AccountMeta Key}
    (hacc : ∀ ia ∈ acc.1, CallerAccount env ctx ia)
    (h : deduplicateAccount env ctx acc accountMeta = .ok acc') :
    ∀ ia ∈ acc'.1, CallerAccount env ctx ia := by
  obtain ⟨deduplicated, duplicateIndices⟩ := acc
  unfold deduplicateAccount at h
  dsimp only at h
  split at h
  · cases h
  rename_i indexInTransaction hfound
  obtain ⟨hlt, hkey⟩ := env.findIndexOfAccount_eq_some hfound
  split at h
  · cases h
    intro ia hia
    rcases mem_modify hia with hia | ⟨y, hy, rfl⟩
    · exact hacc ia hia
    · exact hacc y hy
  · split at h
    · cases h
    · rename_i indexInCaller hcaller
      cases h
      intro ia hia
      rcases List.mem_append.mp hia with hia | hia
      · exact hacc ia hia
      · rw [List.mem_singleton] at hia
        subst hia
        obtain ⟨p, callerAccount, hp, hcallerKey, rfl⟩ := ctx.findIndexOfAccount_eq_some env hcaller
        refine ⟨hlt, callerAccount, Nat.le_add_left _ _, by simpa using hp, ?_⟩
        rw [hcallerKey, hkey]

/-- The privilege check lets a writable callee account through only if the caller's is
writable. -/
lemma checkPrivileges_writable {ctx : InstructionContext} {signers : List Key}
    {ia : InstructionAccount} (h : checkPrivileges env ctx signers ia = .ok ())
    (hw : ia.isWritable = true) : ctx.isWritable ia.indexInCaller = true := by
  unfold checkPrivileges at h
  obtain ⟨_, -, hrest⟩ := Except.bind_eq_ok_iff.mp h
  simp only [Except.failIf_bind_eq_ok, not_and, Bool.not_eq_false] at hrest
  exact hrest.1 hw

/-- What a prepared instruction holds: its accounts are found in the caller, writable there if
they are in the callee, and its last program account is the instruction's program. -/
theorem prepareInstruction_eq_ok {st : InvokeState Key} {instruction : Instruction Key}
    {signers : List Key} {instructionAccounts : List InstructionAccount} {programIndices : List ℕ}
    (h : prepareInstruction env st instruction signers = .ok (instructionAccounts, programIndices)) :
    ∃ ctx rest, st.instructionStack = ctx :: rest ∧
      (∀ ia ∈ instructionAccounts, CallerAccount env ctx ia ∧
        (ia.isWritable = true → ctx.isWritable ia.indexInCaller = true)) ∧
      ∃ programIndex, programIndices.getLast? = some programIndex ∧
        programIndex < env.numberOfAccounts ∧ env.accountKeys programIndex = instruction.programId := by
  unfold prepareInstruction at h
  obtain ⟨ctx, hctx, h⟩ := Except.bind_eq_ok_iff.mp h
  obtain ⟨rest, hstack⟩ := InvokeState.getCurrentInstructionContext_eq_ok.mp hctx
  obtain ⟨⟨deduplicated, duplicateIndices⟩, hfold, h⟩ := Except.bind_eq_ok_iff.mp h
  obtain ⟨⟨⟩, hchecks, h⟩ := Except.bind_eq_ok_iff.mp h
  obtain ⟨prepared, hmap, h⟩ := Except.bind_eq_ok_iff.mp h
  obtain ⟨programAccountIndex, hprogram, h⟩ := Except.bind_eq_ok_iff.mp h
  obtain ⟨programIndex, hborrow, h⟩ := Except.bind_eq_ok_iff.mp h
  simp only [Except.failIf_bind_eq_ok] at h
  obtain ⟨-, h⟩ := h
  obtain ⟨programdata, -, h⟩ := Except.bind_eq_ok_iff.mp h
  cases h
  -- the deduplicated accounts are found in the caller, and the outputs are among them
  have hdedup : ∀ ia ∈ deduplicated, CallerAccount env ctx ia :=
    Except.foldlM_invariant (fun acc => ∀ ia ∈ acc.1, CallerAccount env ctx ia)
      (fun _ _ _ hacc hstep => deduplicateAccount_callerAccount hacc hstep) (by simp) hfold
  have hout : ∀ ia ∈ instructionAccounts, ia ∈ deduplicated := by
    intro ia hia
    obtain ⟨i, -, hi⟩ := Except.mapM_eq_ok_mem hmap ia hia
    exact List.mem_of_getElem? (Except.okOr_eq_ok.mp hi)
  refine ⟨ctx, rest, hstack, fun ia hia => ⟨hdedup ia (hout ia hia), fun hw =>
    checkPrivileges_writable (Except.forM_eq_ok hchecks ia (hout ia hia)) hw⟩, ?_⟩
  -- the program is the caller's account with the instruction's program id
  have hfound := Except.okOr_eq_ok.mp hprogram
  obtain ⟨p, callerAccount, hp, hkey, rfl⟩ := ctx.findIndexOfAccount_eq_some env hfound
  obtain ⟨hlt, hindex⟩ := ctx.tryBorrowAccount_eq_ok env hborrow
  obtain ⟨ia, hia, hidx⟩ := (ctx.getIndexInTransaction_eq_ok (by omega)).mp hindex
  rw [Nat.add_sub_cancel, hp] at hia
  cases hia
  exact ⟨programIndex, by simp, hlt, hidx ▸ hkey⟩

end Prepare

/-! ### `push`, `process_instruction` and `native_invoke` -/

section Process

variable {env : InvokeEnv Key} [DecidableEq Key]

omit [DecidableEq Key] in
/-- The top-level snapshot holds every visited account in order, under its key. -/
lemma tryEach_snapshotWork {accounts : ℕ → Account Key} :
    ∀ {l : List InstructionAccount} {acc preAccounts : List (PreAccount Key)},
      tryEach (snapshotWork env accounts) l acc = (preAccounts, .ok ()) →
      preAccounts = acc ++ l.map fun ia =>
        ⟨env.accountKeys ia.indexInTransaction, accounts ia.indexInTransaction⟩
  | [], acc, preAccounts, h => by
    simp only [tryEach_nil, Prod.mk.injEq] at h
    simp [h.1]
  | ia :: l, acc, preAccounts, h => by
    obtain ⟨acc₁, hwork, hrest⟩ := tryEach_cons_eq_ok.mp h
    unfold snapshotWork at hwork
    split_ifs at hwork
    · cases hwork
      rw [tryEach_snapshotWork hrest]
      simp
    · cases hwork

omit [DecidableEq Key] in
lemma pushInstructionContext_cases (st : InvokeState Key)
    (instructionAccounts : List InstructionAccount) (programIndices : List ℕ) :
    (pushInstructionContext env st instructionAccounts programIndices =
        ({ st with instructionStack :=
          ⟨programIndices, instructionAccounts⟩ :: st.instructionStack }, .ok ()) ∧
      ∀ ia ∈ instructionAccounts, ia.indexInTransaction < env.numberOfAccounts) ∨
    ∃ e, pushInstructionContext env st instructionAccounts programIndices = (st, .error e) := by
  unfold pushInstructionContext
  by_cases hall : programIndices.all (· < env.numberOfAccounts) = true ∧
      instructionAccounts.all (·.indexInTransaction < env.numberOfAccounts) = true
  · rw [if_pos hall]
    split_ifs
    · exact .inr ⟨_, rfl⟩
    · refine .inl ⟨rfl, fun ia hia => ?_⟩
      have := List.all_eq_true.mp hall.2 ia hia
      simpa using this
  · rw [if_neg hall]
    exact .inr ⟨_, rfl⟩

/-- A nested `push` pushes the context or fails without a change. -/
lemma push_of_ne_nil {st : InvokeState Key} (hne : st.instructionStack ≠ [])
    (instructionAccounts : List InstructionAccount) (programIndices : List ℕ) :
    push env st instructionAccounts programIndices =
        ({ st with instructionStack :=
          ⟨programIndices, instructionAccounts⟩ :: st.instructionStack }, .ok ()) ∨
    ∃ e, push env st instructionAccounts programIndices = (st, .error e) := by
  unfold push
  by_cases hdepth : env.featureSet.recordInstructionInTransactionContextPush = false ∧
      st.instructionStack.length > env.maxInvokeDepth
  · rw [if_pos hdepth]
    exact .inr ⟨_, rfl⟩
  rw [if_neg hdepth]
  rcases env.programIdOf programIndices with e | programId
  · exact .inr ⟨e, rfl⟩
  dsimp only
  by_cases hempty : programId = none ∧ env.featureSet.rejectEmptyInstructionWithoutProgram = true
  · rw [if_pos hempty]
    exact .inr ⟨_, rfl⟩
  rw [if_neg hempty, if_neg hne]
  rcases checkReentrancy env st.instructionStack programId with e | ⟨⟩
  · exact .inr ⟨e, rfl⟩
  rw [andThen_ok]
  rcases pushInstructionContext_cases st instructionAccounts programIndices with ⟨h, -⟩ | ⟨e, h⟩
  · exact .inl h
  · exact .inr ⟨e, h⟩

/-- The top-level `push`: the snapshots of the instruction's accounts, once each, and the
instruction's context alone on the stack. -/
lemma push_of_nil {st st' : InvokeState Key} {instructionAccounts : List InstructionAccount}
    {programIndices : List ℕ} (hnil : st.instructionStack = [])
    (h : push env st instructionAccounts programIndices = (st', .ok ())) :
    st'.accounts = st.accounts ∧
      st'.instructionStack = [⟨programIndices, instructionAccounts⟩] ∧
      st'.preAccounts = (firstOccurrences InstructionAccount.indexInTransaction
        instructionAccounts).map (fun ia =>
          ⟨env.accountKeys ia.indexInTransaction, st.accounts ia.indexInTransaction⟩) ∧
      ∀ ia ∈ instructionAccounts, ia.indexInTransaction < env.numberOfAccounts := by
  unfold push at h
  have hdepth : ¬(env.featureSet.recordInstructionInTransactionContextPush = false ∧
      st.instructionStack.length > env.maxInvokeDepth) := by
    simp [hnil]
  rw [if_neg hdepth] at h
  rcases hpid : env.programIdOf programIndices with e | programId
  · rw [hpid] at h
    cases h
  rw [hpid] at h
  dsimp only at h
  have hempty : ¬(programId = none ∧
      env.featureSet.rejectEmptyInstructionWithoutProgram = true) := by
    intro hempty
    rw [if_pos hempty] at h
    cases h
  rw [if_neg hempty, if_pos hnil, visitEachAccountOnce, visitOnce_eq] at h
  rcases hloop : tryEach (snapshotWork env st.accounts)
    (firstOccurrences InstructionAccount.indexInTransaction instructionAccounts) [] with
    ⟨preAccounts, _ | ⟨⟩⟩
  · rw [hloop] at h
    cases h
  rw [hloop] at h
  simp only [andThen_ok] at h
  rcases pushInstructionContext_cases { st with preAccounts := preAccounts } instructionAccounts
    programIndices with ⟨hpush, hlt⟩ | ⟨e, hpush⟩
  · rw [hpush] at h
    cases h
    refine ⟨rfl, by simp [hnil], ?_, hlt⟩
    simpa using tryEach_snapshotWork hloop
  · rw [hpush] at h
    cases h

variable {instructionAccounts : List InstructionAccount} {programIndices : List ℕ}
  {execute : InvokeState Key → InvokeState Key × Except InstructionError Unit}

/-- A top-level instruction that succeeded: pushed, run and verified, then popped. -/
lemma processInstruction_of_nil_eq_ok {st st' : InvokeState Key} (hnil : st.instructionStack = [])
    (h : processInstruction env instructionAccounts programIndices execute st = (st', .ok ())) :
    ∃ st₁ st₂ st₃, push env st instructionAccounts programIndices = (st₁, .ok ()) ∧
      execute st₁ = (st₂, .ok ()) ∧ verify env st₂ instructionAccounts programIndices = (st₃, .ok ()) ∧
      st' = st₃.pop := by
  unfold processInstruction at h
  split at h
  · cases h
  dsimp only at h
  rw [if_pos hnil, andThen_ok] at h
  rcases hpush : push env st instructionAccounts programIndices with ⟨st₁, _ | ⟨⟩⟩
  · rw [hpush] at h
    cases h
  rw [hpush, andThen_ok] at h
  rcases hexec : execute st₁ with ⟨st₂, _ | ⟨⟩⟩
  · rw [hexec] at h
    cases h
  rw [hexec, andThen_ok, if_pos hnil] at h
  rcases hverify : verify env st₂ instructionAccounts programIndices with ⟨st₃, _ | ⟨⟩⟩
  · rw [hverify] at h
    cases h
  rw [hverify] at h
  cases h
  exact ⟨st₁, st₂, st₃, rfl, hexec, hverify, rfl⟩

/-- A nested instruction that succeeded: the caller verified, the context pushed, the callee run
and verified, then popped. -/
lemma processInstruction_of_ne_nil_eq_ok {st st' : InvokeState Key}
    (hne : st.instructionStack ≠ [])
    (h : processInstruction env instructionAccounts programIndices execute st = (st', .ok ())) :
    ∃ st₁ st₂ st₃, verifyAndUpdate env st instructionAccounts true = (st₁, .ok ()) ∧
      execute { st₁ with instructionStack :=
        ⟨programIndices, instructionAccounts⟩ :: st₁.instructionStack } = (st₂, .ok ()) ∧
      verifyAndUpdate env st₂ instructionAccounts false = (st₃, .ok ()) ∧ st' = st₃.pop := by
  unfold processInstruction at h
  split at h
  · cases h
  dsimp only at h
  rw [if_neg hne] at h
  rcases hcaller : verifyAndUpdate env st instructionAccounts true with ⟨st₁, _ | ⟨⟩⟩
  · rw [hcaller] at h
    cases h
  rw [hcaller, andThen_ok] at h
  have hne₁ : st₁.instructionStack ≠ [] := by
    rw [(verifyAndUpdate_fst hcaller).2.1]
    exact hne
  rcases push_of_ne_nil hne₁ instructionAccounts programIndices with hpush | ⟨e, hpush⟩
  swap
  · rw [hpush] at h
    cases h
  rw [hpush, andThen_ok] at h
  rcases hexec : execute { st₁ with instructionStack :=
    ⟨programIndices, instructionAccounts⟩ :: st₁.instructionStack } with ⟨st₂, _ | ⟨⟩⟩
  · rw [hexec] at h
    cases h
  rw [hexec, andThen_ok, if_neg hne] at h
  rcases hcallee : verifyAndUpdate env st₂ instructionAccounts false with ⟨st₃, _ | ⟨⟩⟩
  · rw [hcallee] at h
    cases h
  rw [hcallee] at h
  cases h
  exact ⟨st₁, st₂, st₃, rfl, hexec, hcallee, rfl⟩

/-- What a nested instruction keeps, failed or not: a property of the state that the caller's
check, a push, the callee, the callee's check and the pop each keep. -/
theorem processInstruction_invariant (P : InvokeState Key → Prop) {st : InvokeState Key}
    (hne : st.instructionStack ≠ []) (hst : P st)
    (hcaller : P (verifyAndUpdate env st instructionAccounts true).1)
    (hpush : ∀ s, P s → s.instructionStack = st.instructionStack →
      P { s with instructionStack := ⟨programIndices, instructionAccounts⟩ :: s.instructionStack })
    (hexecute : ∀ s, P s → P (execute s).1)
    (hcallee : ∀ s, P s → P (verifyAndUpdate env s instructionAccounts false).1)
    (hpop : ∀ s, P s → P s.pop) :
    P (processInstruction env instructionAccounts programIndices execute st).1 := by
  unfold processInstruction
  split
  · exact hst
  dsimp only
  rw [if_neg hne]
  rcases hcaller' : verifyAndUpdate env st instructionAccounts true with ⟨st₁, _ | ⟨⟩⟩
  · simpa [hcaller'] using hcaller
  rw [andThen_ok]
  have hP₁ : P st₁ := by simpa [hcaller'] using hcaller
  have hstack₁ := (verifyAndUpdate_fst hcaller').2.1
  refine hpop _ ?_
  rcases push_of_ne_nil (hstack₁ ▸ hne) instructionAccounts programIndices with hpush' | ⟨e, hpush'⟩
  · rw [hpush', andThen_ok]
    refine andThen_invariant P (hexecute _ (hpush st₁ hP₁ hstack₁)) ?_
    intro s _ _ hs
    rw [if_neg hne]
    exact hcallee s hs
  · rw [hpush']
    exact hP₁

/-- A call through `native_invoke` leaves the state as it was, or as the instruction it prepared
left it. -/
lemma nativeInvoke_fst {instruction : Instruction Key} {signers : List Key} {st : InvokeState Key} :
    (nativeInvoke env instruction signers execute st).1 = st ∨
      ∃ instructionAccounts programIndices,
        prepareInstruction env st instruction signers = .ok (instructionAccounts, programIndices) ∧
        (nativeInvoke env instruction signers execute st).1 =
          (processInstruction env instructionAccounts programIndices execute st).1 := by
  unfold nativeInvoke
  split
  · exact .inl rfl
  · rename_i instructionAccounts programIndices hprepare
    refine .inr ⟨instructionAccounts, programIndices, hprepare, ?_⟩
    rcases processInstruction env instructionAccounts programIndices execute st with
      ⟨st₁, _ | ⟨⟩⟩
    · rfl
    · simp only [andThen_ok]
      split_ifs <;> rfl

lemma nativeInvoke_eq_ok {instruction : Instruction Key} {signers : List Key}
    {st st' : InvokeState Key} (h : nativeInvoke env instruction signers execute st = (st', .ok ())) :
    ∃ instructionAccounts programIndices,
      prepareInstruction env st instruction signers = .ok (instructionAccounts, programIndices) ∧
      processInstruction env instructionAccounts programIndices execute st = (st', .ok ()) := by
  unfold nativeInvoke at h
  split at h
  · cases h
  · rename_i instructionAccounts programIndices hprepare
    refine ⟨instructionAccounts, programIndices, hprepare, ?_⟩
    rcases hprocess : processInstruction env instructionAccounts programIndices execute st with
      ⟨st₁, _ | ⟨⟩⟩
    · rw [hprocess] at h
      cases h
    · rw [hprocess, andThen_ok] at h
      split_ifs at h
      · cases h
      · cases h
        rfl

end Process

end VelasChain.ProgramRuntime
