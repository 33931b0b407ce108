import VelasChain.Vote.VoteState
import VelasChain.Lib.ForkTree
import VelasChain.Lib.Transition

/-!
# The tower

A validator's `Tower` holds its own copy of the vote state. Before it votes for the bank at a
slot, `is_locked_out` simulates the vote on a copy of the vote state and refuses the slot if a
vote that survives the simulation lies on another fork; it also asserts that the root after
the simulation is an ancestor of the slot. `record_bank_vote_and_update_lockouts` then makes
the vote for real through the same `process_vote_unchecked`.

Safety over a fork tree: a vote that `is_locked_out` allowed leaves every vote and the root at
or below the voted slot, and from a tower initialized from a bank, the root assertion never
fires for a slot that descends from the root. The second fact rests on the invariant
`OnOneFork`: the root and the votes, oldest first, form a chain of ancestors.
-/

namespace VelasChain.Consensus

open VoteProgram

structure VoteStateUpdate where
  lockouts : List Lockout
  root : Option Slot
  hash : Hash
  timestamp : Option ℤ
  deriving DecidableEq, Repr

inductive VoteTransaction where
  | vote (vote : Vote)
  | voteStateUpdate (update : VoteStateUpdate)
  deriving DecidableEq, Repr

namespace VoteTransaction

def slots : VoteTransaction → List Slot
  | .vote v => v.slots
  | .voteStateUpdate u => u.lockouts.map (·.slot)

def setTimestamp : VoteTransaction → Option ℤ → VoteTransaction
  | .vote v, ts => .vote { v with timestamp := ts }
  | .voteStateUpdate u, ts => .voteStateUpdate { u with timestamp := ts }

end VoteTransaction

structure BlockTimestamp where
  slot : Slot
  timestamp : ℤ
  deriving DecidableEq, Repr

/-- The fields of `Tower` that voting reads and writes. -/
structure Tower where
  voteState : VoteState
  lastVote : VoteTransaction
  lastTimestamp : BlockTimestamp
  deriving DecidableEq, Repr

namespace Tower

/-- `Tower::default`: the root of a tower is always set. -/
def default : Tower :=
  ⟨{ VoteState.default with rootSlot := some 0 }, .voteStateUpdate ⟨[], none, 0, none⟩, ⟨0, 0⟩⟩

/-- `Tower::new` through `initialize_lockouts_from_bank`: the vote state of the vote account in
the bank (`none` when the bank has no such account), the root set, and only the votes above
the root kept. -/
def new (root : Slot) (bankVoteState : Option VoteState) : Tower :=
  match bankVoteState with
  | some vs =>
    { default with
      voteState := { vs with rootSlot := some root, votes := vs.votes.filter (·.slot > root) } }
  | none => { default with voteState := { default.voteState with rootSlot := some root } }

/-- `Tower::root`, which unwraps the root: `none` is the panic. -/
def root (T : Tower) : Option Slot := T.voteState.rootSlot

/-- `Tower::last_voted_slot`: the last slot of the last vote transaction. -/
def lastVotedSlot (T : Tower) : Option Slot := T.lastVote.slots.getLast?

def isRecent (T : Tower) (slot : Slot) : Bool :=
  match T.voteState.lastVotedSlot with
  | some lastVotedSlot => !decide (slot ≤ lastVotedSlot)
  | none =>
    match T.voteState.rootSlot with
    | some root => !decide (slot ≤ root)
    | none => true

/-- `Tower::is_locked_out`; `none` is the failed root assertion. -/
def isLockedOut (T : Tower) (slot : Slot) (ancestors : List Slot) : Option Bool :=
  if !T.isRecent slot then some true
  else
    let vs := T.voteState.processSlotVoteUnchecked slot
    if vs.votes.any fun vote => slot ≠ vote.slot && !ancestors.contains vote.slot then some true
    else
      match vs.rootSlot with
      | some rootSlot => if slot ≠ rootSlot && !ancestors.contains rootSlot then none else some false
      | none => some false

/-- `maybe_timestamp`, with `now` the clock's reading. -/
def maybeTimestamp (T : Tower) (currentSlot : Slot) (now : ℤ) : Option ℤ × Tower :=
  if currentSlot > T.lastTimestamp.slot ∨
      (T.lastTimestamp.slot = 0 ∧ currentSlot = T.lastTimestamp.slot) then
    if now ≥ T.lastTimestamp.timestamp then
      (some now, { T with lastTimestamp := ⟨currentSlot, now⟩ })
    else (none, T)
  else (none, T)

def applyVoteAndGenerateVoteDiff (localVoteState : VoteState) (slot : Slot) (hash : Hash)
    (lastVotedSlotInBank : Option Slot) : VoteState × VoteTransaction :=
  let vs := localVoteState.processVoteUnchecked ⟨[slot], hash, none⟩
  let slots :=
    match lastVotedSlotInBank with
    | some lastVotedSlot => (vs.votes.map (·.slot)).dropWhile (· ≤ lastVotedSlot)
    | none => vs.votes.map (·.slot)
  (vs, .vote ⟨slots, hash, none⟩)

/-- `record_bank_vote_and_update_lockouts`, with `now` the clock's reading; it returns the new
root when the vote made one, and `none` when `root()` panics. -/
def recordBankVoteAndUpdateLockouts (T : Tower) (voteSlot : Slot) (voteHash : Hash)
    (lastVotedSlotInBank : Option Slot) (isDirectVoteStateUpdateEnabled : Bool) (now : ℤ) :
    Option (Tower × Option Slot) := do
  let oldRoot ← T.root
  let (voteState, newVote) :=
    if isDirectVoteStateUpdateEnabled then
      let vs := T.voteState.processVoteUnchecked ⟨[voteSlot], voteHash, none⟩
      (vs, VoteTransaction.voteStateUpdate ⟨vs.votes, vs.rootSlot, voteHash, none⟩)
    else applyVoteAndGenerateVoteDiff T.voteState voteSlot voteHash lastVotedSlotInBank
  let T := { T with voteState }
  -- the timestamp is taken at the slot of the previous vote transaction
  let (timestamp, T) := T.maybeTimestamp (T.lastVotedSlot.getD 0) now
  let T := { T with lastVote := newVote.setTimestamp timestamp }
  let newRoot ← T.root
  pure (T, if oldRoot ≠ newRoot then some newRoot else none)

/-! ### What a vote does to the tower -/

@[simp] lemma maybeTimestamp_voteState (T : Tower) (currentSlot : Slot) (now : ℤ) :
    (T.maybeTimestamp currentSlot now).2.voteState = T.voteState := by
  unfold maybeTimestamp
  split
  · split <;> rfl
  · rfl

/-- Both branches of `record_bank_vote_and_update_lockouts` vote through
`process_vote_unchecked`, which for one slot is `process_next_vote_slot`; a recorded vote
leaves the root set. -/
lemma recordBankVoteAndUpdateLockouts_voteState {T T' : Tower} {slot : Slot} {hash : Hash}
    {lastVotedSlotInBank : Option Slot} {isDirect : Bool} {now : ℤ} {newRoot : Option Slot}
    (h : T.recordBankVoteAndUpdateLockouts slot hash lastVotedSlotInBank isDirect now =
      some (T', newRoot)) :
    T'.voteState = T.voteState.processNextVoteSlot slot T.voteState.currentEpoch ∧
      T'.voteState.rootSlot.isSome := by
  simp only [recordBankVoteAndUpdateLockouts, root, Option.bind_eq_bind, Option.bind_eq_some_iff,
    Option.pure_def, Option.some.injEq, Prod.mk.injEq] at h
  obtain ⟨_, _, _, hnew, rfl, -⟩ := h
  cases isDirect <;> simp_all [applyVoteAndGenerateVoteDiff, VoteState.processVoteUnchecked_single]

/-- A slot is recent when it is newer than the newest of the root and the votes. -/
lemma isRecent_eq (T : Tower) (slot : Slot) :
    T.isRecent slot = (T.voteState.rootedSlots.getLast?).all (· < slot) := by
  unfold isRecent
  cases hv : T.voteState.lastVotedSlot with
  | some last =>
    have hlast : (T.voteState.votes.map (·.slot)).getLast? = some last := by
      simpa [VoteState.lastVotedSlot, VoteState.lastLockout, List.getLast?_map] using hv
    simp only [VoteState.rootedSlots, List.getLast?_append, hlast, Option.some_or, Option.all_some]
    simp only [← decide_not, Nat.not_le]
  | none =>
    have hnil : T.voteState.votes = [] := by
      simpa [VoteState.lastVotedSlot, VoteState.lastLockout] using hv
    cases hr : T.voteState.rootSlot with
    | none => simp [VoteState.rootedSlots, hnil, hr]
    | some root =>
      simp only [VoteState.rootedSlots, hnil, hr, Option.toList_some, List.map_nil, List.append_nil,
        List.getLast?_singleton, Option.all_some]
      simp only [← decide_not, Nat.not_le]

/-- The loop of `is_locked_out` passes when every simulated vote is the slot itself or one of
the given ancestors. -/
lemma any_eq_false_iff_slots {votes : List Lockout} {slot : Slot} {ancestors : List Slot} :
    (votes.any fun vote => slot ≠ vote.slot && !ancestors.contains vote.slot) = false ↔
      ∀ x ∈ votes.map (·.slot), x = slot ∨ x ∈ ancestors := by
  simp only [List.any_eq_false, List.mem_map, forall_exists_index, and_imp,
    forall_apply_eq_imp_iff₂]
  refine forall₂_congr fun v _ => ?_
  by_cases hs : slot = v.slot
  · simp [hs]
  · have hs' : v.slot ≠ slot := fun h => hs h.symm
    simp [hs, hs']

lemma isLockedOut_eq_some_false {T : Tower} {slot : Slot} {ancestors : List Slot}
    (h : T.isLockedOut slot ancestors = some false) :
    T.isRecent slot = true ∧
      ∀ x ∈ (T.voteState.processSlotVoteUnchecked slot).rootedSlots, x = slot ∨ x ∈ ancestors := by
  unfold isLockedOut at h
  by_cases hrec : T.isRecent slot = true
  swap
  · simp [hrec] at h
  refine ⟨hrec, ?_⟩
  simp only [hrec, Bool.not_true, Bool.false_eq_true, if_false] at h
  split at h
  · simp at h
  rename_i hany
  rw [Bool.not_eq_true, any_eq_false_iff_slots] at hany
  -- the root assertion held too
  have hroot : ∀ r ∈ (T.voteState.processSlotVoteUnchecked slot).rootSlot,
      r = slot ∨ r ∈ ancestors := by
    intro r hr
    rw [Option.mem_def] at hr
    rw [hr] at h
    by_contra hne
    push Not at hne
    simp [hne.1.symm, hne.2] at h
  intro x hx
  rw [VoteState.rootedSlots, List.mem_append, Option.mem_toList] at hx
  rcases hx with hx | hx
  · exact hroot x hx
  · exact hany x hx

lemma lastVotedSlot_any_of_isRecent {T : Tower} {slot : Slot} (h : T.isRecent slot = true) :
    T.voteState.lastVotedSlot.any (slot ≤ ·) = false := by
  unfold isRecent at h
  cases hv : T.voteState.lastVotedSlot with
  | none => rfl
  | some last => simpa [hv] using h

/-! ### Safety over a fork tree -/

variable (t : ForkTree)

/-- A vote of the runs considered: `is_locked_out` allowed the slot, and the tower recorded
the vote. -/
def Voted (slot : Slot) (T T' : Tower) : Prop :=
  T.isLockedOut slot (t.ancestors slot) = some false ∧
    ∃ hash lastVotedSlotInBank isDirect now newRoot,
      T.recordBankVoteAndUpdateLockouts slot hash lastVotedSlotInBank isDirect now =
        some (T', newRoot)

def VoteStep (T T' : Tower) : Prop := ∃ slot, Voted t slot T T'

/-- A tower built by `Tower::new` at a root at or below the bank's slot, from a vote account
whose votes are increasing and lie at or below the bank's slot. -/
def Initialized (T : Tower) : Prop :=
  ∃ root bankSlot bankVoteState, T = Tower.new root bankVoteState ∧
    t.AncestorOrSelf root bankSlot ∧
    ∀ vs ∈ bankVoteState, (vs.votes.map (·.slot)).Pairwise (· < ·) ∧
      ∀ v ∈ vs.votes, t.AncestorOrSelf v.slot bankSlot

/-- The root is set, and the root and the votes, oldest first, form a chain of ancestors. -/
def OnOneFork (T : Tower) : Prop :=
  T.voteState.rootSlot.isSome ∧ T.voteState.rootedSlots.Pairwise t.Ancestor

variable {t}

/-- A vote that `is_locked_out` allowed leaves the root and every vote at or below the voted
slot, whatever the tower was. -/
theorem Voted.rootedSlots_ancestorOrSelf {slot : Slot} {T T' : Tower} (hv : Voted t slot T T') :
    T'.voteState.lastVotedSlot = some slot ∧
      ∀ x ∈ T'.voteState.rootedSlots, t.AncestorOrSelf x slot := by
  obtain ⟨hlock, _, _, _, _, _, hrec⟩ := hv
  obtain ⟨hrecent, hsim⟩ := isLockedOut_eq_some_false hlock
  have hvs := (recordBankVoteAndUpdateLockouts_voteState hrec).1
  rw [VoteState.processSlotVoteUnchecked_eq, ← hvs] at hsim
  refine ⟨?_, fun x hx => ?_⟩
  · rw [hvs]
    exact VoteState.lastVotedSlot_processNextVoteSlot _ (lastVotedSlot_any_of_isRecent hrecent)
  · rcases hsim x hx with rfl | hanc
    · exact .refl x
    · exact (ForkTree.mem_ancestors.mp hanc).ancestorOrSelf

lemma OnOneFork.lt_of_isRecent {T : Tower} {slot : Slot} (hinv : OnOneFork t T)
    (hrec : T.isRecent slot = true) : ∀ x ∈ T.voteState.rootedSlots, x < slot := by
  intro x hx
  have hsorted : T.voteState.rootedSlots.Pairwise (· ≤ ·) :=
    hinv.2.imp fun h => Nat.le_of_lt h.lt
  have hle := hsorted.rel_getLast hx
  rw [isRecent_eq, List.getLast?_eq_some_getLast (List.ne_nil_of_mem hx)] at hrec
  simp only [Option.all_some, decide_eq_true_eq] at hrec
  exact Nat.lt_of_le_of_lt hle hrec

/-- One vote keeps the tower on one fork. -/
theorem OnOneFork.voted {slot : Slot} {T T' : Tower} (hinv : OnOneFork t T)
    (hv : Voted t slot T T') : OnOneFork t T' := by
  obtain ⟨hlock, _, _, _, _, _, hrec⟩ := hv
  obtain ⟨hrecent, hsim⟩ := isLockedOut_eq_some_false hlock
  obtain ⟨hvs, hsome⟩ := recordBankVoteAndUpdateLockouts_voteState hrec
  rw [VoteState.processSlotVoteUnchecked_eq, ← hvs] at hsim
  obtain ⟨kept, hsub, hslots⟩ := VoteState.rootedSlots_processNextVoteSlot
    T.voteState.currentEpoch (lastVotedSlot_any_of_isRecent hrecent)
  rw [← hvs] at hslots
  have hlt := hinv.lt_of_isRecent hrecent
  refine ⟨hsome, ?_⟩
  rw [hslots, List.pairwise_append]
  refine ⟨hinv.2.sublist hsub, List.pairwise_singleton _ _, ?_⟩
  intro x hx y hy
  rw [List.mem_singleton] at hy
  subst hy
  have hx' : x ∈ T'.voteState.rootedSlots := by
    rw [hslots]
    exact List.mem_append_left _ hx
  -- the kept slots are older than the new vote, so the check found each an ancestor
  rcases hsim x hx' with rfl | hanc
  · exact absurd (hlt _ (hsub.subset hx)) (Nat.lt_irrefl _)
  · exact ForkTree.mem_ancestors.mp hanc

/-- From a tower on one fork, `is_locked_out` never fails its root assertion for a slot at or
below which the root lies. -/
theorem OnOneFork.isLockedOut_ne_none {T : Tower} {r slot : Slot} (hinv : OnOneFork t T)
    (hr : T.voteState.rootSlot = some r) (hrs : t.AncestorOrSelf r slot) :
    T.isLockedOut slot (t.ancestors slot) ≠ none := by
  unfold isLockedOut
  by_cases hrec : T.isRecent slot = true
  swap
  · simp [hrec]
  simp only [hrec, Bool.not_true, Bool.false_eq_true, if_false]
  split
  · simp
  rename_i hany
  rw [Bool.not_eq_true, any_eq_false_iff_slots, VoteState.processSlotVoteUnchecked_eq] at hany
  rw [VoteState.processSlotVoteUnchecked_eq]
  suffices hroot : ∀ r' ∈ (T.voteState.processNextVoteSlot slot T.voteState.currentEpoch).rootSlot,
      r' = slot ∨ t.Ancestor r' slot by
    split
    · rename_i r' hr'
      rcases hroot r' hr' with rfl | hanc
      · simp
      · simp [ForkTree.mem_ancestors.mpr hanc]
    · simp
  have hnew := lastVotedSlot_any_of_isRecent hrec
  have hlt := hinv.lt_of_isRecent hrec
  intro r' hr'
  rw [Option.mem_def] at hr'
  by_cases hfull : (T.voteState.popExpiredVotes slot).votes.length = maxLockoutHistory
  · -- the oldest kept vote became the root; the second one stays a vote, and the loop
    -- found it an ancestor of the slot
    obtain ⟨oldest, rest, hkept, hroot, hv⟩ := VoteState.processNextVoteSlot_of_full _ hnew hfull
    obtain ⟨second, rest', rfl⟩ : ∃ second rest', rest = second :: rest' := by
      cases rest with
      | nil => simp [hkept, maxLockoutHistory] at hfull
      | cons second rest' => exact ⟨second, rest', rfl⟩
    rw [hroot, Option.some.injEq] at hr'
    subst hr'
    have hpair : [oldest.slot, second.slot].Sublist T.voteState.rootedSlots := by
      have hpre := (VoteState.popExpiredVotes_isPrefix T.voteState slot).sublist.map (·.slot)
      rw [hkept] at hpre
      refine List.Sublist.trans ?_ (hpre.trans (List.sublist_append_right _ _))
      simp
    have hsecond : second.slot = slot ∨ second.slot ∈ t.ancestors slot :=
      hany _ (by rw [hv]; simp)
    have hlt2 : second.slot < slot := hlt _ (hpair.subset (by simp))
    rcases hsecond with heq | hanc
    · exact absurd heq (Nat.ne_of_lt hlt2)
    · exact Or.inr ((List.pairwise_pair.mp (hinv.2.sublist hpair)).trans
        (ForkTree.mem_ancestors.mp hanc))
  · -- the root is unchanged
    rw [(VoteState.processNextVoteSlot_of_not_full _ hnew hfull).1, hr, Option.some.injEq] at hr'
    subst hr'
    exact (ForkTree.ancestorOrSelf_iff_eq_or_ancestor.mp hrs)

/-- A tower built from a bank is on one fork. -/
theorem Initialized.onOneFork {T : Tower} (h : Initialized t T) : OnOneFork t T := by
  obtain ⟨root, bankSlot, bankVoteState, rfl, hroot, hbank⟩ := h
  cases bankVoteState with
  | none => exact ⟨rfl, by simp [Tower.new, VoteState.rootedSlots, default, VoteState.default]⟩
  | some vs =>
    obtain ⟨hsorted, hbelow⟩ := hbank vs rfl
    refine ⟨rfl, ForkTree.pairwise_ancestor_of_lt (c := bankSlot) ?_ ?_⟩
    · -- the root and every kept vote lie at or below the bank
      intro x hx
      simp only [Tower.new, VoteState.rootedSlots, Option.toList_some, List.singleton_append,
        List.mem_cons, List.mem_map, List.mem_filter] at hx
      rcases hx with rfl | ⟨v, ⟨hv, _⟩, rfl⟩
      · exact hroot
      · exact hbelow v hv
    · -- the kept votes are above the root and keep their order
      simp only [Tower.new, VoteState.rootedSlots, Option.toList_some, List.singleton_append,
        List.pairwise_cons, List.mem_map, List.mem_filter]
      refine ⟨?_, hsorted.sublist (List.filter_sublist.map _)⟩
      rintro _ ⟨v, ⟨_, hgt⟩, rfl⟩
      simpa using hgt

/-- Tower lockout safety. Along every run of votes that `is_locked_out` allowed, from a tower
built from a bank: each vote leaves the root and every vote at or below the slot voted, and
`is_locked_out` never fails its root assertion for a slot at or below which the root lies. -/
theorem tower_votes_stay_on_one_fork {T : Tower} (hT : Reachable (Initialized t) (VoteStep t) T) :
    (∀ slot T', Voted t slot T T' →
      T'.voteState.lastVotedSlot = some slot ∧
        (∀ v ∈ T'.voteState.votes, t.AncestorOrSelf v.slot slot) ∧
        ∀ r ∈ T'.voteState.rootSlot, t.AncestorOrSelf r slot) ∧
      ∀ r ∈ T.voteState.rootSlot, ∀ slot, t.AncestorOrSelf r slot →
        T.isLockedOut slot (t.ancestors slot) ≠ none := by
  have hinv : OnOneFork t T :=
    hT.inv (fun _ h => h.onOneFork) (fun _ _ h ⟨_, hv⟩ => h.voted hv)
  refine ⟨fun slot T' hv => ?_, fun r hr slot hrs => hinv.isLockedOut_ne_none hr hrs⟩
  obtain ⟨hlast, hall⟩ := hv.rootedSlots_ancestorOrSelf
  refine ⟨hlast, fun v hv => hall _ ?_, fun r hr => hall _ ?_⟩
  · simp only [VoteState.rootedSlots, List.mem_append, List.mem_map]
    exact Or.inr ⟨v, hv, rfl⟩
  · simp only [VoteState.rootedSlots, List.mem_append, Option.mem_toList]
    exact Or.inl hr

theorem tower_votes_stay_on_one_fork_after_one_vote :
    let t : ForkTree :=
      ⟨fun s => if s = 3 then some 1 else if s = 0 then none else some (s - 1), by
        intro c p h
        split at h
        · cases h; omega
        · split at h
          · cases h
          · cases h; omega⟩
    let T : Tower := ⟨⟨[⟨1, 1⟩], some 0, [], ⟨0, 0⟩⟩, .voteStateUpdate ⟨[⟨1, 1⟩], some 0, 0, some 0⟩, ⟨0, 0⟩⟩
    (∀ slot T', Voted t slot T T' →
      T'.voteState.lastVotedSlot = some slot ∧
        (∀ v ∈ T'.voteState.votes, t.AncestorOrSelf v.slot slot) ∧
        ∀ r ∈ T'.voteState.rootSlot, t.AncestorOrSelf r slot) ∧
      ∀ r ∈ T.voteState.rootSlot, ∀ slot, t.AncestorOrSelf r slot →
        T.isLockedOut slot (t.ancestors slot) ≠ none := by
  intro t T
  exact tower_votes_stay_on_one_fork
    (.step (.init ⟨0, 0, none, rfl, .refl 0, by simp⟩) ⟨1, by decide, 0, none, true, 0, none, by decide⟩)

end Tower

end VelasChain.Consensus
