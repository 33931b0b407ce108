import VelasChain.Vote.VoteState
import Mathlib.Logic.Relation

/-!
# A proposed vote state against the incremental vote path

`process_new_vote_state` replaces the lockouts and the root of a vote state by proposed ones
after checking them: the proposed lockouts must make a well-formed tower on their own, the root
must not go back, and every lockout of the current state that the proposal drops must have
expired before the next proposed slot above it.

The incremental path, `process_next_vote_slot`, builds towers one slot at a time. Every tower it
builds from `VoteState::default()` is well formed (`WellFormed.processNextVoteSlot`), and the
lockouts of an earlier state are kept, rooted or expired in every later one
(`Follows.processNextVoteSlot`). These are the facts the checks ask for, so a state reached by
further votes is accepted as a proposal by every state before it (`processNewVoteState_follows`),
unless its tower is empty: `process_new_vote_state` asserts that the proposal has a lockout.
-/

namespace VelasChain.VoteProgram

namespace VoteState

/-- `VoteState::process_timestamp`. -/
def processTimestamp (vs : VoteState) (slot : Slot) (timestamp : ℤ) : Except VoteError VoteState :=
  if (slot < vs.lastTimestamp.slot ∨ timestamp < vs.lastTimestamp.timestamp) ∨
      (slot = vs.lastTimestamp.slot ∧ (⟨slot, timestamp⟩ : BlockTimestamp) ≠ vs.lastTimestamp ∧
        vs.lastTimestamp.slot ≠ 0) then
    .error .timestampTooOld
  else .ok { vs with lastTimestamp := ⟨slot, timestamp⟩ }

/-- The first loop of `process_new_vote_state`, over the proposed lockouts with the one before
each: a confirmation count in `1..=MAX_LOCKOUT_HISTORY`, a slot above a nonzero new root, and
above the lockout before it a larger slot, a smaller count and a slot that lockout still locks. -/
def checkNewState (newRoot : Option Slot) : Option Lockout → List Lockout → Except VoteError Unit
  | _, [] => pure ()
  | previousVote, vote :: rest => do
    if vote.confirmationCount = 0 then throw .zeroConfirmations
    else if vote.confirmationCount > maxLockoutHistory then throw .confirmationTooLarge
    else if newRoot.any fun newRoot => vote.slot ≤ newRoot ∧ newRoot ≠ 0 then
      throw .slotSmallerThanRoot
    if let some previousVote := previousVote then
      if previousVote.slot ≥ vote.slot then throw .slotsNotOrdered
      else if previousVote.confirmationCount ≤ vote.confirmationCount then
        throw .confirmationsNotOrdered
      else if vote.slot > previousVote.lastLockedOutSlot then
        throw .newVoteStateLockoutMismatch
    checkNewState newRoot (some vote) rest

/-- The `while` loop of `process_new_vote_state`, its two indices as the suffixes of the current
and the proposed lockouts they have not passed. A current lockout below the next proposed slot
is one the proposal dropped: it must have expired before that slot. A lockout in both must not
lose confirmations. -/
def checkLockouts : List Lockout → List Lockout → Except VoteError Unit
  | currentVote :: currentRest, newVote :: newRest =>
    match compare currentVote.slot newVote.slot with
    | .lt =>
      if currentVote.lastLockedOutSlot ≥ newVote.slot then throw .lockoutConflict
      else checkLockouts currentRest (newVote :: newRest)
    | .eq =>
      if newVote.confirmationCount < currentVote.confirmationCount then
        throw .confirmationRollBack
      else checkLockouts currentRest newRest
    | .gt => checkLockouts (currentVote :: currentRest) newRest
  | _, _ => pure ()
termination_by current new => current.length + new.length

/-- `VoteState::process_new_vote_state`; `none` where its `assert!(!new_state.is_empty())`
fails. The current lockouts the loop walks start after those at or below the new root. -/
def processNewVoteState (vs : VoteState) (newState : List Lockout) (newRoot : Option Slot)
    (timestamp : Option ℤ) (epoch : Epoch) : Option (Except VoteError VoteState) :=
  if h : newState = [] then none
  else some do
    if newState.length > maxLockoutHistory then throw .tooManyVotes
    match newRoot, vs.rootSlot with
    | some newRoot, some currentRoot => if newRoot < currentRoot then throw .rootRollBack
    | none, some _ => throw .rootRollBack
    | _, _ => pure ()
    checkNewState newRoot none newState
    checkLockouts (vs.votes.dropWhile fun v => newRoot.any (v.slot ≤ ·)) newState
    let vs := if vs.rootSlot ≠ newRoot then vs.incrementCredits epoch else vs
    let vs ← match timestamp with
      | some timestamp => vs.processTimestamp (newState.getLast h).slot timestamp
      | none => pure vs
    pure { vs with rootSlot := newRoot, votes := newState }

/-- The proposal of an empty tower makes `process_new_vote_state` panic. -/
theorem new_vote_state_of_default_panics :
    default.processNewVoteState default.votes default.rootSlot none 0 = none := rfl

end VoteState

namespace Lockout

lemma lastLockedOutSlot_le {v v' : Lockout} (hslot : v.slot = v'.slot)
    (hcount : v.confirmationCount ≤ v'.confirmationCount) :
    v.lastLockedOutSlot ≤ v'.lastLockedOutSlot := by
  simp only [lastLockedOutSlot, lockout, hslot]
  exact Nat.add_le_add_left (Nat.pow_le_pow_right (by decide) hcount) _

/-- `upper` sits right above `lower` in a tower: a later slot, fewer confirmations, and a slot
`lower` still locks. -/
def Below (lower upper : Lockout) : Prop :=
  lower.slot < upper.slot ∧ upper.confirmationCount < lower.confirmationCount ∧
    upper.slot ≤ lower.lastLockedOutSlot

end Lockout

namespace VoteState

/-! ### One vote of the incremental path -/

@[simp] lemma length_doubleLockouts (vs : VoteState) :
    vs.doubleLockouts.votes.length = vs.votes.length := by
  simp [doubleLockouts]

section Doubling

variable (vs : VoteState) {i : ℕ} (h : i < vs.votes.length)
  (h' : i < vs.doubleLockouts.votes.length)
include h h'

/-- Doubling keeps the slot at every position of the stack. -/
@[simp] lemma slot_getElem_doubleLockouts : vs.doubleLockouts.votes[i].slot = vs.votes[i].slot := by
  simp only [doubleLockouts, List.getElem_mapIdx]
  split <;> rfl

/-- The count doubling gives the lockout at position `i`: one more once the stack above it is
deeper than its count. -/
lemma confirmationCount_getElem_doubleLockouts :
    vs.doubleLockouts.votes[i].confirmationCount =
      if vs.votes.length > i + vs.votes[i].confirmationCount then
        vs.votes[i].confirmationCount + 1
      else vs.votes[i].confirmationCount := by
  simp only [doubleLockouts, List.getElem_mapIdx]
  split <;> rfl

end Doubling

/-- Where the counts of two neighbours differ by one, the same depth doubles both or neither,
so a smaller count above a larger one stays smaller. -/
lemma bump_lt {d i a b : ℕ} (hab : b < a) :
    (if d > i + 1 + b then b + 1 else b) < (if d > i + a then a + 1 else a) := by
  split_ifs <;> omega

/-- At the top of the stack the new lockout keeps its one confirmation, and the lockout below it
gains one if it had only one. -/
lemma bump_top {i a : ℕ} (ha : 0 < a) :
    (if i + 2 > i + 1 + 1 then 1 + 1 else 1) < (if i + 2 > i + a then a + 1 else a) := by
  split_ifs <;> omega

section NextVote

variable {vs : VoteState} {slot : Slot}

/-- `pop_expired_votes` splits the stack into the lockouts it keeps and those it pops. -/
lemma popExpiredVotes_append_rtakeWhile (vs : VoteState) (slot : Slot) :
    (vs.popExpiredVotes slot).votes ++ vs.votes.rtakeWhile (fun v => !v.isLockedOutAtSlot slot) =
      vs.votes :=
  List.rdropWhile_append_rtakeWhile

/-- A popped lockout no longer locks the slot. -/
lemma lastLockedOutSlot_lt_of_mem_rtakeWhile {v : Lockout}
    (hv : v ∈ vs.votes.rtakeWhile fun v => !v.isLockedOutAtSlot slot) :
    v.lastLockedOutSlot < slot := by
  have hpopped := List.mem_rtakeWhile_imp hv
  simpa [Lockout.isLockedOutAtSlot] using hpopped

/-- The top lockout `pop_expired_votes` keeps still locks the slot. -/
lemma le_lastLockedOutSlot_of_mem_getLast? {v : Lockout}
    (hv : v ∈ (vs.popExpiredVotes slot).votes.getLast?) : slot ≤ v.lastLockedOutSlot := by
  have hne : (vs.popExpiredVotes slot).votes ≠ [] := by
    rintro hnil
    simp [hnil] at hv
  have hkept := List.rdropWhile_last_not (fun v : Lockout => !v.isLockedOutAtSlot slot) vs.votes hne
  rw [List.getLast?_eq_some_getLast hne, Option.mem_some_iff] at hv
  subst hv
  simpa [popExpiredVotes, Lockout.isLockedOutAtSlot] using hkept

variable (epoch : Epoch)

/-- What `process_next_vote_slot` does with a slot newer than the last vote: the lockouts that
still lock the slot are kept, the oldest of them goes into the root when they fill the stack,
and the stack with the new lockout on top is doubled. -/
lemma processNextVoteSlot_cases (h : vs.lastVotedSlot.any (slot ≤ ·) = false) :
    ∃ pre : VoteState, ∃ kept : List Lockout,
      vs.processNextVoteSlot slot epoch = pre.doubleLockouts ∧
        pre.votes = kept ++ [Lockout.new slot] ∧
        ((kept = (vs.popExpiredVotes slot).votes ∧ kept.length ≠ maxLockoutHistory ∧
            pre.rootSlot = vs.rootSlot) ∨
          ∃ oldest, (vs.popExpiredVotes slot).votes = oldest :: kept ∧
            kept.length + 1 = maxLockoutHistory ∧ pre.rootSlot = some oldest.slot) := by
  by_cases hfull : (vs.popExpiredVotes slot).votes.length = maxLockoutHistory
  · obtain ⟨oldest, rest, hkept⟩ :
        ∃ oldest rest, (vs.popExpiredVotes slot).votes = oldest :: rest := by
      cases hk : (vs.popExpiredVotes slot).votes with
      | nil => simp [hk, maxLockoutHistory] at hfull
      | cons oldest rest => exact ⟨oldest, rest, rfl⟩
    have hlength : rest.length + 1 = maxLockoutHistory := by
      rw [hkept, List.length_cons] at hfull
      exact hfull
    simp only [processNextVoteSlot, h, Bool.false_eq_true, if_false, hfull, if_true]
    rw [hkept]
    exact ⟨_, rest, rfl, rfl, .inr ⟨oldest, rfl, hlength, rfl⟩⟩
  · simp only [processNextVoteSlot, h, Bool.false_eq_true, if_false, hfull]
    exact ⟨_, _, rfl, rfl, .inl ⟨rfl, hfull, rfl⟩⟩

end NextVote

/-! ### Well-formed towers -/

/-- A well-formed tower: at most `MAX_LOCKOUT_HISTORY` lockouts, each right below the next, with
counts in `1..=MAX_LOCKOUT_HISTORY`, all above the root, and a root only under a nonempty stack. -/
structure WellFormed (vs : VoteState) : Prop where
  length_le : vs.votes.length ≤ maxLockoutHistory
  chain : vs.votes.IsChain Lockout.Below
  count_pos : ∀ v ∈ vs.votes, 0 < v.confirmationCount
  count_le : ∀ v ∈ vs.votes, v.confirmationCount ≤ maxLockoutHistory
  root : ∀ r ∈ vs.rootSlot, vs.votes ≠ [] ∧ ∀ v ∈ vs.votes, r < v.slot

lemma WellFormed.default : VoteState.default.WellFormed :=
  ⟨by decide, List.isChain_nil, by simp [VoteState.default], by simp [VoteState.default],
    by simp [VoteState.default]⟩

/-- The slots of a well-formed tower increase. -/
lemma WellFormed.pairwise {vs : VoteState} (hw : vs.WellFormed) :
    vs.votes.Pairwise fun a b => a.slot < b.slot := by
  have hslots : (vs.votes.map (·.slot)).IsChain (· < ·) :=
    (List.isChain_map _).mpr (hw.chain.imp fun _ _ hab => hab.1)
  exact List.pairwise_map.mp (List.isChain_iff_pairwise.mp hslots)

/-- The last vote of a well-formed tower is its newest slot. -/
lemma WellFormed.slot_le_lastVotedSlot {vs : VoteState} (hw : vs.WellFormed) {v : Lockout}
    (hv : v ∈ vs.votes) {l : Slot} (hl : vs.lastVotedSlot = some l) : v.slot ≤ l := by
  obtain ⟨last, hlast, rfl⟩ := Option.map_eq_some_iff.mp hl
  have hne : vs.votes ≠ [] := List.ne_nil_of_mem hv
  rw [lastLockout, List.getLast?_eq_some_getLast hne, Option.some_inj] at hlast
  subst hlast
  have hle : (vs.votes.map (·.slot)).Pairwise (· ≤ ·) :=
    List.pairwise_map.mpr (hw.pairwise.imp le_of_lt)
  have := hle.rel_getLast (List.mem_map_of_mem hv)
  simpa [List.getLast_map] using this

/-- Doubling a tower under a new lockout of one confirmation, which the old top still locks,
gives a tower. -/
lemma isChain_doubleLockouts {pre : VoteState} {kept : List Lockout} {slot : Slot}
    (hpre : pre.votes = kept ++ [Lockout.new slot]) (hkept : kept.IsChain Lockout.Below)
    (htop : ∀ k ∈ kept.getLast?, k.slot < slot ∧ slot ≤ k.lastLockedOutSlot)
    (hpos : ∀ k ∈ kept, 0 < k.confirmationCount) :
    pre.doubleLockouts.votes.IsChain Lockout.Below := by
  obtain ⟨votes, root, credits, timestamp⟩ := pre
  dsimp only at hpre
  subst hpre
  rw [List.isChain_iff_getElem]
  intro i hi
  have hi₁ : i + 1 < kept.length + 1 := by simpa using hi
  have hb₀ : i < (kept ++ [Lockout.new slot]).length := by simp; omega
  have hb₁ : i + 1 < (kept ++ [Lockout.new slot]).length := by simpa using hi₁
  -- the two neighbours before doubling: a pair of the tower, or its top under the new lockout
  have hpair : (kept ++ [Lockout.new slot])[i].slot < (kept ++ [Lockout.new slot])[i + 1].slot ∧
      (kept ++ [Lockout.new slot])[i + 1].slot ≤ (kept ++ [Lockout.new slot])[i].lastLockedOutSlot ∧
      ((kept ++ [Lockout.new slot])[i + 1].confirmationCount <
          (kept ++ [Lockout.new slot])[i].confirmationCount ∨
        i + 2 = kept.length + 1 ∧ (kept ++ [Lockout.new slot])[i + 1].confirmationCount = 1 ∧
          0 < (kept ++ [Lockout.new slot])[i].confirmationCount) := by
    by_cases hlt : i + 1 < kept.length
    · rw [List.getElem_append_left hlt, List.getElem_append_left (by omega)]
      obtain ⟨hs, hc, hl⟩ := hkept.getElem i hlt
      exact ⟨hs, hl, .inl hc⟩
    · have hik : i < kept.length := by omega
      have hlast : kept[i] ∈ kept.getLast? := by
        rw [List.getLast?_eq_getElem?, show kept.length - 1 = i by omega]
        exact List.getElem?_eq_getElem _
      rw [List.getElem_append_left (by omega), List.getElem_append_right (by omega)]
      obtain ⟨hs, hl⟩ := htop _ hlast
      simp only [show i + 1 - kept.length = 0 by omega, List.getElem_singleton]
      exact ⟨hs, hl, .inr ⟨by omega, rfl, hpos _ (List.getElem_mem _)⟩⟩
  obtain ⟨hslot, hlocked, hcount⟩ := hpair
  have hcount' := confirmationCount_getElem_doubleLockouts
    ⟨kept ++ [Lockout.new slot], root, credits, timestamp⟩ (i := i) (by simp; omega) (by simp; omega)
  have hcount₁ := confirmationCount_getElem_doubleLockouts
    ⟨kept ++ [Lockout.new slot], root, credits, timestamp⟩ (i := i + 1) (by simpa using hi₁)
    (by simpa using hi₁)
  have hslot₀ := slot_getElem_doubleLockouts
    ⟨kept ++ [Lockout.new slot], root, credits, timestamp⟩ hb₀ (by simpa using hb₀)
  have hslot₁ := slot_getElem_doubleLockouts
    ⟨kept ++ [Lockout.new slot], root, credits, timestamp⟩ hb₁ (by simpa using hb₁)
  refine ⟨?_, ?_, ?_⟩
  · rw [hslot₀, hslot₁]
    exact hslot
  · rw [hcount', hcount₁]
    dsimp only
    rcases hcount with hlt | ⟨hdepth, hone, hposi⟩
    · exact bump_lt hlt
    · have hlen : (kept ++ [Lockout.new slot]).length = i + 2 := by simp; omega
      simp only [hlen, hone]
      exact bump_top hposi
  · -- doubling only lengthens the lockout of the lower neighbour
    rw [hslot₁]
    refine hlocked.trans (Lockout.lastLockedOutSlot_le hslot₀.symm ?_)
    rw [hcount']
    dsimp only
    split <;> omega

/-- Doubling keeps the counts in `1..=MAX_LOCKOUT_HISTORY` in a stack no deeper than that. -/
lemma count_doubleLockouts {pre : VoteState} (hlen : pre.votes.length ≤ maxLockoutHistory)
    (hpos : ∀ v ∈ pre.votes, 0 < v.confirmationCount)
    (hle : ∀ v ∈ pre.votes, v.confirmationCount ≤ maxLockoutHistory) {v : Lockout}
    (hv : v ∈ pre.doubleLockouts.votes) :
    0 < v.confirmationCount ∧ v.confirmationCount ≤ maxLockoutHistory := by
  obtain ⟨i, hi, rfl⟩ := List.mem_iff_getElem.mp hv
  have hi₀ : i < pre.votes.length := by simpa using hi
  have hpos₀ := hpos _ (List.getElem_mem hi₀)
  have hle₀ := hle _ (List.getElem_mem hi₀)
  rw [confirmationCount_getElem_doubleLockouts pre hi₀ hi]
  split <;> omega

/-- Every lockout of the stack is still there after doubling, with at least its count. -/
lemma exists_mem_doubleLockouts {pre : VoteState} {v : Lockout} (hv : v ∈ pre.votes) :
    ∃ v' ∈ pre.doubleLockouts.votes, v'.slot = v.slot ∧
      v.confirmationCount ≤ v'.confirmationCount := by
  obtain ⟨i, hi, rfl⟩ := List.mem_iff_getElem.mp hv
  have hi' : i < pre.doubleLockouts.votes.length := by simpa using hi
  refine ⟨_, List.getElem_mem hi', slot_getElem_doubleLockouts pre hi hi', ?_⟩
  rw [confirmationCount_getElem_doubleLockouts pre hi hi']
  split <;> omega

/-- Doubling adds no slot. -/
lemma exists_slot_of_mem_doubleLockouts {pre : VoteState} {v : Lockout}
    (hv : v ∈ pre.doubleLockouts.votes) : ∃ u ∈ pre.votes, u.slot = v.slot := by
  have hslot : v.slot ∈ pre.doubleLockouts.votes.map (·.slot) := List.mem_map_of_mem hv
  rw [doubleLockouts_slots, List.mem_map] at hslot
  exact hslot

/-- A slot `process_next_vote_slot` does not ignore is newer than every slot of the tower. -/
lemma WellFormed.slot_lt {vs : VoteState} (hw : vs.WellFormed) {slot : Slot}
    (hnew : vs.lastVotedSlot.any (slot ≤ ·) = false) {v : Lockout} (hv : v ∈ vs.votes) :
    v.slot < slot := by
  cases hl : vs.lastVotedSlot with
  | none =>
    simp only [lastVotedSlot, lastLockout, Option.map_eq_none_iff, List.getLast?_eq_none_iff] at hl
    simp [hl] at hv
  | some l =>
    have hle := hw.slot_le_lastVotedSlot hv hl
    rw [hl] at hnew
    simp only [Option.any_some, decide_eq_false_iff_not, not_le] at hnew
    exact lt_of_le_of_lt hle hnew

/-- `process_next_vote_slot` keeps a tower well formed. -/
theorem WellFormed.processNextVoteSlot {vs : VoteState} (hw : vs.WellFormed) (slot : Slot)
    (epoch : Epoch) : (vs.processNextVoteSlot slot epoch).WellFormed := by
  cases hnew : vs.lastVotedSlot.any (slot ≤ ·)
  · obtain ⟨pre, kept, heq, hpre, hcases⟩ := processNextVoteSlot_cases epoch hnew
    have hpop := popExpiredVotes_isPrefix vs slot
    -- the kept lockouts are the tower's bottom, without its oldest lockout when it was full
    have hkeptIn : kept <:+: vs.votes := by
      rcases hcases with ⟨rfl, -, -⟩ | ⟨oldest, hkept, -, -⟩
      · exact hpop.isInfix
      · rw [hkept] at hpop
        exact (List.suffix_cons oldest kept).isInfix.trans hpop.isInfix
    have hlen : kept.length + 1 ≤ maxLockoutHistory := by
      rcases hcases with ⟨rfl, hne, -⟩ | ⟨oldest, -, hlen, -⟩
      · have := hpop.length_le
        have := hw.length_le
        omega
      · omega
    have htop : ∀ k ∈ kept.getLast?, k.slot < slot ∧ slot ≤ k.lastLockedOutSlot := by
      intro k hk
      have hkpop : k ∈ (vs.popExpiredVotes slot).votes.getLast? := by
        rcases hcases with ⟨rfl, -, -⟩ | ⟨oldest, hkept, -, -⟩
        · exact hk
        · rw [hkept, List.getLast?_cons, Option.mem_def.mp hk]
          rfl
      have hmem : k ∈ vs.votes :=
        hkeptIn.subset (List.mem_of_getLast? hk)
      exact ⟨hw.slot_lt hnew hmem, le_lastLockedOutSlot_of_mem_getLast? hkpop⟩
    have hkeptMem : ∀ k ∈ kept, k ∈ vs.votes := fun k hk => hkeptIn.subset hk
    -- every slot of the new stack is above the root the vote leaves
    have hroot : ∀ r ∈ pre.rootSlot, ∀ u ∈ pre.votes, r < u.slot := by
      intro r hr u hu
      rw [hpre, List.mem_append, List.mem_singleton] at hu
      rcases hcases with ⟨rfl, -, hpreRoot⟩ | ⟨oldest, hkept, -, hpreRoot⟩
      · rw [hpreRoot] at hr
        obtain ⟨hne, hbelow⟩ := hw.root r hr
        rcases hu with hu | rfl
        · exact hbelow u (hkeptMem u hu)
        · obtain ⟨v, hv⟩ := List.exists_mem_of_ne_nil _ hne
          exact (hbelow v hv).trans (hw.slot_lt hnew hv)
      · rw [hpreRoot, Option.mem_some_iff] at hr
        subst hr
        have holdest : oldest ∈ vs.votes := hpop.subset (by simp [hkept])
        rcases hu with hu | rfl
        · have hpair := (hw.pairwise.sublist hpop.sublist)
          rw [hkept, List.pairwise_cons] at hpair
          exact hpair.1 u hu
        · exact hw.slot_lt hnew holdest
    have hpreLen : pre.votes.length ≤ maxLockoutHistory := by simpa [hpre] using hlen
    have hpreCount : ∀ u ∈ pre.votes, 0 < u.confirmationCount ∧
        u.confirmationCount ≤ maxLockoutHistory := by
      intro u hu
      rw [hpre, List.mem_append, List.mem_singleton] at hu
      rcases hu with hu | rfl
      · exact ⟨hw.count_pos u (hkeptMem u hu), hw.count_le u (hkeptMem u hu)⟩
      · exact ⟨Nat.one_pos, by simp [Lockout.new, maxLockoutHistory]⟩
    have hcount := @count_doubleLockouts pre hpreLen (fun u hu => (hpreCount u hu).1)
      (fun u hu => (hpreCount u hu).2)
    rw [heq]
    refine ⟨by simpa using hpreLen,
      isChain_doubleLockouts hpre ( List.IsChain.infix hw.chain hkeptIn) htop
        (fun k hk => hw.count_pos k (hkeptMem k hk)),
      fun v hv => (hcount hv).1, fun v hv => (hcount hv).2, ?_⟩
    intro r hr
    rw [doubleLockouts_rootSlot] at hr
    refine ⟨List.ne_nil_of_length_pos (by simp [hpre]), fun v hv => ?_⟩
    obtain ⟨u, hu, hslot⟩ := exists_slot_of_mem_doubleLockouts hv
    exact hslot ▸ hroot r hr u hu
  · rw [processNextVoteSlot_of_le hnew]
    exact hw

/-! ### What a later state keeps of an earlier one -/

/-- What became of a lockout `v` of an earlier state in `vs`: it is still there with at least its
confirmations, it went into the root, or it expired before the last vote and before every
lockout at or above its slot. -/
def Settled (vs : VoteState) (v : Lockout) : Prop :=
  (∃ v' ∈ vs.votes, v'.slot = v.slot ∧ v.confirmationCount ≤ v'.confirmationCount) ∨
    (∃ r ∈ vs.rootSlot, v.slot ≤ r) ∨
    ((∃ l ∈ vs.lastVotedSlot, v.lastLockedOutSlot < l) ∧
      ∀ w ∈ vs.votes, v.slot ≤ w.slot → v.lastLockedOutSlot < w.slot)

/-- `vs'` follows `vs`: its root is no older, and every lockout of `vs` is settled in it. -/
structure Follows (vs vs' : VoteState) : Prop where
  root : ∀ r ∈ vs.rootSlot, ∃ r' ∈ vs'.rootSlot, r ≤ r'
  settled : ∀ v ∈ vs.votes, vs'.Settled v

lemma Follows.refl (vs : VoteState) : Follows vs vs :=
  ⟨fun r hr => ⟨r, hr, le_rfl⟩, fun v hv => .inl ⟨v, hv, rfl, le_rfl⟩⟩

section Step

variable {vs : VoteState} (hw : vs.WellFormed) (slot : Slot) (epoch : Epoch)
include hw

/-- A vote never moves the root back. -/
lemma root_le_processNextVoteSlot {r : Slot} (hr : r ∈ vs.rootSlot) :
    ∃ r' ∈ (vs.processNextVoteSlot slot epoch).rootSlot, r ≤ r' := by
  cases hnew : vs.lastVotedSlot.any (slot ≤ ·)
  · obtain ⟨pre, kept, heq, -, hcases⟩ := processNextVoteSlot_cases epoch hnew
    rw [heq, doubleLockouts_rootSlot]
    rcases hcases with ⟨-, -, hroot⟩ | ⟨oldest, hkept, -, hroot⟩
    · exact ⟨r, hroot ▸ hr, le_rfl⟩
    · have holdest : oldest ∈ vs.votes := (popExpiredVotes_isPrefix vs slot).subset (by simp [hkept])
      exact ⟨oldest.slot, by simp [hroot], ((hw.root r hr).2 oldest holdest).le⟩
  · rw [processNextVoteSlot_of_le hnew]
    exact ⟨r, hr, le_rfl⟩

/-- A vote keeps every earlier lockout settled: one still on the stack is kept with at least its
count, goes into the root, or is popped because the new slot is past its lockout. -/
lemma Settled.processNextVoteSlot {v : Lockout} (hv : vs.Settled v) :
    (vs.processNextVoteSlot slot epoch).Settled v := by
  cases hnew : vs.lastVotedSlot.any (slot ≤ ·)
  · obtain ⟨pre, kept, heq, hpre, hcases⟩ := processNextVoteSlot_cases epoch hnew
    have hlast := lastVotedSlot_processNextVoteSlot epoch hnew
    have hpop := popExpiredVotes_isPrefix vs slot
    have hkeptPop : ∀ u ∈ kept, u ∈ (vs.popExpiredVotes slot).votes := by
      rcases hcases with ⟨rfl, -, -⟩ | ⟨oldest, hkept, -, -⟩
      · exact fun u hu => hu
      · exact fun u hu => by simp [hkept, hu]
    -- the lockouts of the new stack: those kept, doubled, and the new one
    have hnewSlots : ∀ w ∈ (vs.processNextVoteSlot slot epoch).votes,
        w.slot = slot ∨ ∃ u ∈ kept, u.slot = w.slot := by
      intro w hw'
      rw [heq] at hw'
      obtain ⟨u, hu, hslot⟩ := exists_slot_of_mem_doubleLockouts hw'
      rw [hpre, List.mem_append, List.mem_singleton] at hu
      rcases hu with hu | rfl
      · exact .inr ⟨u, hu, hslot⟩
      · exact .inl hslot.symm
    rcases hv with ⟨v', hv', hslot, hcount⟩ | ⟨r, hr, hle⟩ | ⟨⟨l, hl, hlt⟩, hall⟩
    · have hsplit := popExpiredVotes_append_rtakeWhile vs slot
      rw [← hsplit, List.mem_append] at hv'
      rcases hv' with hkept' | hpopped
      · rcases hcases with ⟨rfl, -, -⟩ | ⟨oldest, hkept, -, hroot⟩
        · obtain ⟨v'', hv'', hslot', hcount'⟩ := exists_mem_doubleLockouts (hpre ▸ List.mem_append_left _ hkept')
          exact .inl ⟨v'', heq ▸ hv'', hslot'.trans hslot, hcount.trans hcount'⟩
        · rw [hkept, List.mem_cons] at hkept'
          rcases hkept' with rfl | hkept'
          · -- the oldest kept lockout goes into the root
            exact .inr (.inl ⟨v'.slot, by rw [heq, doubleLockouts_rootSlot, hroot]; rfl, hslot.ge⟩)
          · obtain ⟨v'', hv'', hslot', hcount'⟩ :=
              exists_mem_doubleLockouts (hpre ▸ List.mem_append_left _ hkept')
            exact .inl ⟨v'', heq ▸ hv'', hslot'.trans hslot, hcount.trans hcount'⟩
      · -- popped: the new slot is past its lockout, and every kept lockout is below it
        have hexpired : v.lastLockedOutSlot < slot :=
          (Lockout.lastLockedOutSlot_le hslot.symm hcount).trans_lt
            (lastLockedOutSlot_lt_of_mem_rtakeWhile hpopped)
        have hbelow : ∀ u ∈ (vs.popExpiredVotes slot).votes, u.slot < v'.slot := by
          have hpair := hw.pairwise
          rw [← hsplit, List.pairwise_append] at hpair
          exact fun u hu => hpair.2.2 u hu v' hpopped
        refine .inr (.inr ⟨⟨slot, hlast, hexpired⟩, fun w hw' hvw => ?_⟩)
        rcases hnewSlots w hw' with hws | ⟨u, hu, hus⟩
        · exact hws ▸ hexpired
        · -- no kept lockout reaches the popped slot
          have hlt := hbelow u (hkeptPop u hu)
          rw [hus, hslot] at hlt
          exact absurd hvw (not_le.mpr hlt)
    · obtain ⟨r', hr', hrr'⟩ := root_le_processNextVoteSlot hw slot epoch hr
      exact .inr (.inl ⟨r', hr', hle.trans hrr'⟩)
    · have hls : l < slot := by
        rw [Option.mem_def] at hl
        rw [hl] at hnew
        simpa using hnew
      refine .inr (.inr ⟨⟨slot, hlast, hlt.trans hls⟩, fun w hw' hvw => ?_⟩)
      rcases hnewSlots w hw' with hws | ⟨u, hu, hus⟩
      · exact hws ▸ hlt.trans hls
      · have hmem : u ∈ vs.votes := hpop.subset (hkeptPop u hu)
        exact hus ▸ hall u hmem (hus ▸ hvw)
  · rw [processNextVoteSlot_of_le hnew]
    exact hv

/-- A vote keeps a later state following an earlier one. -/
lemma Follows.processNextVoteSlot {vs₀ : VoteState} (hf : Follows vs₀ vs) :
    Follows vs₀ (vs.processNextVoteSlot slot epoch) := by
  refine ⟨fun r hr => ?_, fun v hv => (hf.settled v hv).processNextVoteSlot hw slot epoch⟩
  obtain ⟨r', hr', hrr'⟩ := hf.root r hr
  obtain ⟨r'', hr'', hr'r''⟩ := root_le_processNextVoteSlot hw slot epoch hr'
  exact ⟨r'', hr'', hrr'.trans hr'r''⟩

end Step

/-! ### The checks of a proposal -/

/-- The first loop accepts a well-formed tower whose slots are above the new root. -/
lemma checkNewState_eq_ok {newRoot : Option Slot} {previousVote : Option Lockout}
    {votes : List Lockout} (hchain : (previousVote.toList ++ votes).IsChain Lockout.Below)
    (hcount : ∀ v ∈ votes, 0 < v.confirmationCount ∧ v.confirmationCount ≤ maxLockoutHistory)
    (hroot : ∀ r ∈ newRoot, ∀ v ∈ votes, r < v.slot) :
    checkNewState newRoot previousVote votes = .ok () := by
  induction votes generalizing previousVote with
  | nil => rfl
  | cons vote rest ih =>
    obtain ⟨hpos, hle⟩ := hcount vote (List.mem_cons_self ..)
    have hnotRoot : (newRoot.any fun r => decide (vote.slot ≤ r ∧ r ≠ 0)) = false := by
      cases newRoot with
      | none => rfl
      | some r => simpa using fun hle' => absurd hle' (not_le.mpr (hroot r rfl vote (by simp)))
    have hrest : checkNewState newRoot (some vote) rest = .ok () :=
      ih ( List.IsChain.infix hchain (List.suffix_append _ _).isInfix)
        (fun v hv => hcount v (List.mem_cons_of_mem _ hv))
        (fun r hr v hv => hroot r hr v (List.mem_cons_of_mem _ hv))
    have hzero : vote.confirmationCount ≠ 0 := Nat.pos_iff_ne_zero.mp hpos
    have hlarge : ¬vote.confirmationCount > maxLockoutHistory := not_lt.mpr hle
    simp only [checkNewState, hzero, hlarge, hnotRoot, Bool.false_eq_true, if_false]
    cases previousVote with
    | none => exact hrest
    | some previousVote =>
      obtain ⟨hslot, hcount', hlocked⟩ := (List.isChain_cons_cons.mp hchain).1
      simp only [ge_iff_le, gt_iff_lt, not_le.mpr hslot, not_le.mpr hcount', not_lt.mpr hlocked,
        if_false]
      exact hrest
  
/-- The walk accepts when every current lockout is in the proposal with no more confirmations,
or expired before every proposed slot at or above its own. -/
lemma checkLockouts_eq_ok {current new : List Lockout}
    (hcurrent : current.Pairwise fun a b => a.slot < b.slot)
    (hnew : new.Pairwise fun a b => a.slot < b.slot)
    (hsettled : ∀ v ∈ current,
      (∃ v' ∈ new, v'.slot = v.slot ∧ v.confirmationCount ≤ v'.confirmationCount) ∨
        ∀ w ∈ new, v.slot ≤ w.slot → v.lastLockedOutSlot < w.slot) :
    checkLockouts current new = .ok () := by
  fun_induction checkLockouts current new with
  | case1 currentVote currentRest newVote newRest hlt hlocked =>
    -- a dropped lockout still locks the next proposed slot: it can be neither kept nor expired
    have hslot : currentVote.slot < newVote.slot := compare_lt_iff_lt.mp hlt
    rcases hsettled currentVote (List.mem_cons_self ..) with ⟨v', hv', hs, -⟩ | hexpired
    · rcases List.mem_cons.mp hv' with rfl | hv'
      · exact absurd hs hslot.ne'
      · exact absurd hs (hslot.trans (List.rel_of_pairwise_cons hnew hv')).ne'
    · exact absurd (hexpired newVote (List.mem_cons_self ..) hslot.le) (not_lt.mpr hlocked)
  | case2 currentVote currentRest newVote newRest hlt hlocked ih =>
    exact ih hcurrent.of_cons hnew fun v hv => hsettled v (List.mem_cons_of_mem _ hv)
  | case3 currentVote currentRest newVote newRest heq hrollback =>
    -- a lockout in both: the proposal has it with at least its confirmations
    have hslot : currentVote.slot = newVote.slot := compare_eq_iff_eq.mp heq
    rcases hsettled currentVote (List.mem_cons_self ..) with ⟨v', hv', hs, hcount⟩ | hexpired
    · rcases List.mem_cons.mp hv' with rfl | hv'
      · exact absurd hcount (not_le.mpr hrollback)
      · exact absurd (hs.trans hslot) (List.rel_of_pairwise_cons hnew hv').ne'
    · have hlt := hexpired newVote (List.mem_cons_self ..) hslot.le
      rw [← hslot] at hlt
      exact absurd hlt (not_lt.mpr (Nat.le_add_right _ _))
  | case4 currentVote currentRest newVote newRest heq hrollback ih =>
    have hslot : currentVote.slot = newVote.slot := compare_eq_iff_eq.mp heq
    refine ih hcurrent.of_cons hnew.of_cons fun v hv => ?_
    have habove : currentVote.slot < v.slot := List.rel_of_pairwise_cons hcurrent hv
    rcases hsettled v (List.mem_cons_of_mem _ hv) with ⟨v', hv', hs, hcount⟩ | hexpired
    · rcases List.mem_cons.mp hv' with rfl | hv'
      · exact absurd (hs ▸ hslot ▸ habove) (lt_irrefl _)
      · exact .inl ⟨v', hv', hs, hcount⟩
    · exact .inr fun w hw => hexpired w (List.mem_cons_of_mem _ hw)
  | case5 currentVote currentRest newVote newRest hgt ih =>
    have hslot : newVote.slot < currentVote.slot := compare_gt_iff_gt.mp hgt
    refine ih hcurrent hnew.of_cons fun v hv => ?_
    have habove : newVote.slot < v.slot := by
      rcases List.mem_cons.mp hv with rfl | hv
      · exact hslot
      · exact hslot.trans (List.rel_of_pairwise_cons hcurrent hv)
    rcases hsettled v hv with ⟨v', hv', hs, hcount⟩ | hexpired
    · rcases List.mem_cons.mp hv' with rfl | hv'
      · exact absurd (hs ▸ habove) (lt_irrefl _)
      · exact .inl ⟨v', hv', hs, hcount⟩
    · exact .inr fun w hw => hexpired w (List.mem_cons_of_mem _ hw)
  | case6 => rfl

/-- Past the lockouts at or below the new root, every lockout of a tower is above it. -/
lemma lt_of_mem_dropWhile {votes : List Lockout}
    (hsorted : votes.Pairwise fun a b => a.slot < b.slot) {newRoot : Option Slot} {v : Lockout}
    (hv : v ∈ votes.dropWhile fun v => newRoot.any (v.slot ≤ ·)) : ∀ r ∈ newRoot, r < v.slot := by
  intro r hr
  rw [Option.mem_def] at hr
  subst hr
  have hsuffix := List.dropWhile_suffix (l := votes) fun v : Lockout => (some r).any (v.slot ≤ ·)
  have hhead := List.head_dropWhile_not (fun v : Lockout => (some r).any (v.slot ≤ ·))
    (l := votes) (List.ne_nil_of_mem hv)
  generalize votes.dropWhile (fun v : Lockout => (some r).any (v.slot ≤ ·)) = dropped
    at hv hsuffix hhead
  cases dropped with
  | nil => simp at hv
  | cons first rest =>
    -- the first lockout kept is above the root, and the rest are above it
    simp only [List.head_cons, Option.any_some] at hhead
    have hfirst : r < first.slot := not_le.mp (of_decide_eq_false hhead)
    rcases List.mem_cons.mp hv with rfl | hv
    · exact hfirst
    · exact hfirst.trans (List.rel_of_pairwise_cons (hsorted.sublist hsuffix.sublist) hv)

/-- A proposal of a nonempty well-formed tower that follows the current state is accepted, and
replaces the lockouts and the root. -/
theorem processNewVoteState_follows {vs vs' : VoteState} (hw : vs.WellFormed)
    (hw' : vs'.WellFormed) (hf : Follows vs vs') (hne : vs'.votes ≠ []) (epoch : Epoch) :
    ∃ vs'', vs.processNewVoteState vs'.votes vs'.rootSlot none epoch = some (.ok vs'') ∧
      vs''.votes = vs'.votes ∧ vs''.rootSlot = vs'.rootSlot := by
  have hlen : ¬vs'.votes.length > maxLockoutHistory := not_lt.mpr hw'.length_le
  have hcheckNew : checkNewState vs'.rootSlot none vs'.votes = pure () :=
    checkNewState_eq_ok (by simpa using hw'.chain)
      (fun v hv => ⟨hw'.count_pos v hv, hw'.count_le v hv⟩) (fun r hr v hv => (hw'.root r hr).2 v hv)
  have hcheckLockouts :
      checkLockouts (vs.votes.dropWhile fun v => vs'.rootSlot.any (v.slot ≤ ·)) vs'.votes =
        pure () := by
    have hsuffix := List.dropWhile_suffix (l := vs.votes) fun v : Lockout => vs'.rootSlot.any (v.slot ≤ ·)
    refine checkLockouts_eq_ok (hw.pairwise.sublist hsuffix.sublist) hw'.pairwise fun v hv => ?_
    -- a lockout past the new root cannot have gone into it
    have habove := lt_of_mem_dropWhile hw.pairwise hv
    rcases hf.settled v (hsuffix.subset hv) with hkept | ⟨r, hr, hle⟩ | ⟨-, hexpired⟩
    · exact .inl hkept
    · exact absurd hle (not_le.mpr (habove r hr))
    · exact .inr hexpired
  refine ⟨{ (if vs.rootSlot ≠ vs'.rootSlot then vs.incrementCredits epoch else vs) with
    rootSlot := vs'.rootSlot, votes := vs'.votes }, ?_, rfl, rfl⟩
  simp only [processNewVoteState, hne, dite_false, hlen, if_false, hcheckNew, hcheckLockouts,
    pure_bind]
  split
  · rename_i newRoot currentRoot hnew hcurrent
    -- the root does not go back
    obtain ⟨r', hr', hle⟩ := hf.root currentRoot hcurrent
    rw [hnew, Option.mem_some_iff] at hr'
    subst hr'
    simp only [not_lt.mpr hle, if_false]
    rfl
  · rename_i currentRoot hnone hcurrent
    obtain ⟨r', hr', -⟩ := hf.root currentRoot hcurrent
    simp [hnone] at hr'
  · rfl

/-! ### Towers of the incremental path -/

/-- One call of `process_next_vote_slot`, at any slot and epoch. -/
def NextVote (vs vs' : VoteState) : Prop := ∃ slot epoch, vs' = vs.processNextVoteSlot slot epoch

/-- Every tower the votes reach from a well-formed one is well formed. -/
lemma WellFormed.of_reflTransGen {vs vs' : VoteState} (hw : vs.WellFormed)
    (h : Relation.ReflTransGen NextVote vs vs') : vs'.WellFormed := by
  induction h with
  | refl => exact hw
  | tail _ hstep ih =>
    obtain ⟨slot, epoch, rfl⟩ := hstep
    exact ih.processNextVoteSlot slot epoch

/-- A state the votes reach from a well-formed one follows it. -/
lemma Follows.of_reflTransGen {vs vs' : VoteState} (hw : vs.WellFormed)
    (h : Relation.ReflTransGen NextVote vs vs') : Follows vs vs' := by
  induction h with
  | refl => exact Follows.refl vs
  | tail hreach hstep ih =>
    obtain ⟨slot, epoch, rfl⟩ := hstep
    exact ih.processNextVoteSlot (hw.of_reflTransGen hreach) slot epoch

theorem process_new_vote_state_accepts_incremental_towers {vs vs' : VoteState}
    (hvs : Relation.ReflTransGen NextVote default vs)
    (hvs' : Relation.ReflTransGen NextVote vs vs') (hne : vs'.votes ≠ []) (epoch : Epoch) :
    vs'.WellFormed ∧
      ∃ vs'', vs.processNewVoteState vs'.votes vs'.rootSlot none epoch = some (.ok vs'') ∧
        vs''.votes = vs'.votes ∧ vs''.rootSlot = vs'.rootSlot := by
  have hw := WellFormed.default.of_reflTransGen hvs
  have hw' := hw.of_reflTransGen hvs'
  exact ⟨hw', processNewVoteState_follows hw hw' (Follows.of_reflTransGen hw hvs') hne epoch⟩

theorem process_new_vote_state_accepts_one_vote :
    Relation.ReflTransGen NextVote default default ∧
      Relation.ReflTransGen NextVote default (default.processNextVoteSlot 5 0) ∧
      (default.processNextVoteSlot 5 0).votes ≠ [] ∧
      ((default.processNextVoteSlot 5 0).WellFormed ∧
        ∃ vs'', default.processNewVoteState (default.processNextVoteSlot 5 0).votes
            (default.processNextVoteSlot 5 0).rootSlot none 0 = some (.ok vs'') ∧
          vs''.votes = (default.processNextVoteSlot 5 0).votes ∧
          vs''.rootSlot = (default.processNextVoteSlot 5 0).rootSlot) :=
  ⟨.refl, .single ⟨5, 0, rfl⟩, by decide,
    process_new_vote_state_accepts_incremental_towers .refl (.single ⟨5, 0, rfl⟩) (by decide) 0⟩

end VoteState

end VelasChain.VoteProgram
