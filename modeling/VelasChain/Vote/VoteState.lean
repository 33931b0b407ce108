import Mathlib

/-!
# The vote state of the vote program

`VoteState` keeps a stack of lockouts, oldest first, and a root: the slot of the last lockout
that reached the bottom of a full stack. A vote for a newer slot pops the lockouts that have
expired at that slot, moves the oldest lockout into the root when the stack is full, pushes
the new slot and doubles the lockouts that have gained enough confirmations.

`process_vote` first checks the vote's slots against the slot hashes it is given;
`process_vote_unchecked`, which the tower uses, builds those slot hashes from the vote
itself and discards the result. For a vote for one slot the check only asks that the slot
be newer than the last vote (`processVoteUnchecked_single`).
-/

namespace VelasChain.VoteProgram

/-- `Slot`. -/
abbrev Slot := ℕ

/-- `Epoch`. -/
abbrev Epoch := ℕ

/-- `Hash`. -/
abbrev Hash := BitVec 256

/-- `MAX_LOCKOUT_HISTORY`. -/
def maxLockoutHistory : ℕ := 31

/-- `INITIAL_LOCKOUT`. -/
def initialLockout : ℕ := 2

/-- `MAX_EPOCH_CREDITS_HISTORY`. -/
def maxEpochCreditsHistory : ℕ := 64

structure Lockout where
  slot : Slot
  confirmationCount : ℕ
  deriving DecidableEq, Repr

namespace Lockout

def new (slot : Slot) : Lockout := ⟨slot, 1⟩

/-- The number of slots for which this vote is locked. -/
def lockout (l : Lockout) : ℕ := initialLockout ^ l.confirmationCount

def lastLockedOutSlot (l : Lockout) : Slot := l.slot + l.lockout

def isLockedOutAtSlot (l : Lockout) (slot : Slot) : Bool := decide (l.lastLockedOutSlot ≥ slot)

end Lockout

structure Vote where
  slots : List Slot
  hash : Hash
  timestamp : Option ℤ
  deriving DecidableEq, Repr

/-- `BlockTimestamp`. -/
structure BlockTimestamp where
  slot : Slot
  timestamp : ℤ
  deriving DecidableEq, Repr

/-- The fields of `VoteState` that vote processing reads and writes. -/
structure VoteState where
  votes : List Lockout
  rootSlot : Option Slot
  epochCredits : List (Epoch × ℕ × ℕ)
  lastTimestamp : BlockTimestamp
  deriving DecidableEq, Repr

inductive VoteError where
  | emptySlots
  | votesTooOldAllFiltered
  | voteTooOld
  | slotsMismatch
  | slotHashMismatch
  | timestampTooOld
  | lockoutConflict
  | newVoteStateLockoutMismatch
  | slotsNotOrdered
  | confirmationsNotOrdered
  | zeroConfirmations
  | confirmationTooLarge
  | rootRollBack
  | confirmationRollBack
  | slotSmallerThanRoot
  | tooManyVotes
  | rootOnDifferentFork
  | tooSoonToReauthorize
  deriving DecidableEq, Repr

/-- The feature of the bank's feature set that `process_vote` reads. -/
structure FeatureSet where
  filterVotesOutsideSlotHashes : Bool
  deriving DecidableEq, Repr

namespace VoteState

def default : VoteState := ⟨[], none, [], ⟨0, 0⟩⟩

def lastLockout (vs : VoteState) : Option Lockout := vs.votes.getLast?

def lastVotedSlot (vs : VoteState) : Option Slot := vs.lastLockout.map (·.slot)

def currentEpoch (vs : VoteState) : Epoch := (vs.epochCredits.getLast?.map (·.1)).getD 0

/-- The root followed by the voted slots, oldest first. -/
def rootedSlots (vs : VoteState) : List Slot := vs.rootSlot.toList ++ vs.votes.map (·.slot)

/-! ### One vote for a new slot -/

/-- `increment_credits`: move the credit history to `epoch` and add one credit. -/
def incrementCredits (vs : VoteState) (epoch : Epoch) : VoteState :=
  let epochCredits :=
    match vs.epochCredits.getLast? with
    -- never seen a credit
    | none => [(epoch, 0, 0)]
    | some (lastEpoch, credits, prevCredits) =>
      if epoch ≠ lastEpoch then
        let ec :=
          if credits ≠ prevCredits then vs.epochCredits ++ [(epoch, credits, credits)]
          else vs.epochCredits.dropLast ++ [(epoch, credits, prevCredits)]
        -- remove too old epoch_credits
        if ec.length > maxEpochCreditsHistory then ec.drop 1 else ec
      else vs.epochCredits
  { vs with epochCredits := epochCredits.modifyLast fun (e, c, p) => (e, c + 1, p) }

/-- `pop_expired_votes`: pop from the top every vote not locked out at `nextVoteSlot`. -/
def popExpiredVotes (vs : VoteState) (nextVoteSlot : Slot) : VoteState :=
  { vs with votes := vs.votes.rdropWhile fun v => !v.isLockedOutAtSlot nextVoteSlot }

/-- `double_lockouts`: a vote gains a confirmation once the stack above it is deeper than
its confirmation count. -/
def doubleLockouts (vs : VoteState) : VoteState :=
  let stackDepth := vs.votes.length
  { vs with
    votes := vs.votes.mapIdx fun i v =>
      if stackDepth > i + v.confirmationCount then
        { v with confirmationCount := v.confirmationCount + 1 }
      else v }

/-- `process_next_vote_slot`. -/
def processNextVoteSlot (vs : VoteState) (nextVoteSlot : Slot) (epoch : Epoch) : VoteState :=
  -- ignore votes for slots earlier than we already have votes for
  if vs.lastVotedSlot.any (nextVoteSlot ≤ ·) then vs
  else
    let vote := Lockout.new nextVoteSlot
    let vs := vs.popExpiredVotes nextVoteSlot
    -- once the stack is full, pop the oldest lockout into the root and distribute rewards
    let vs :=
      if vs.votes.length = maxLockoutHistory then
        match vs.votes with
        | oldest :: rest =>
          incrementCredits { vs with votes := rest, rootSlot := some oldest.slot } epoch
        | [] => vs
      else vs
    doubleLockouts { vs with votes := vs.votes ++ [vote] }

/-! ### Processing a vote -/

/-- The loop of `check_slots_are_valid`: `i` walks the vote's slots from the oldest, `j`
counts the slot hashes not yet passed (they are newest first). Every iteration raises `i` or
lowers `j`, so `voteSlots.length + slotHashes.length` iterations reach the loop's exit. -/
def checkSlotsLoop (lastVotedSlot : Option Slot) (voteSlots : List Slot)
    (slotHashes : List (Slot × Hash)) : ℕ → ℕ → ℕ → ℕ × ℕ
  | 0, i, j => (i, j)
  | fuel + 1, i, j =>
    if h : i < voteSlots.length ∧ j > 0 then
      if lastVotedSlot.any (voteSlots[i] ≤ ·) then
        checkSlotsLoop lastVotedSlot voteSlots slotHashes fuel (i + 1) j
      else
        match slotHashes[j - 1]? with
        | some (slot, _) =>
          if voteSlots[i] ≠ slot then
            checkSlotsLoop lastVotedSlot voteSlots slotHashes fuel i (j - 1)
          else checkSlotsLoop lastVotedSlot voteSlots slotHashes fuel (i + 1) (j - 1)
        -- `j` never exceeds the number of slot hashes
        | none => (i, j)
    else (i, j)

/-- `check_slots_are_valid`. -/
def checkSlotsAreValid (vs : VoteState) (voteSlots : List Slot) (voteHash : Hash)
    (slotHashes : List (Slot × Hash)) : Except VoteError Unit :=
  let (i, j) := checkSlotsLoop vs.lastVotedSlot voteSlots slotHashes
    (voteSlots.length + slotHashes.length) 0 slotHashes.length
  if j = slotHashes.length then .error .voteTooOld
  else if i ≠ voteSlots.length then .error .slotsMismatch
  else if (slotHashes[j]?.map (·.2)) ≠ some voteHash then .error .slotHashMismatch
  else .ok ()

/-- `VoteState::process_vote`: on an error the state is left as it was. -/
def processVote (vs : VoteState) (vote : Vote) (slotHashes : List (Slot × Hash))
    (epoch : Epoch) (featureSet : Option FeatureSet) : Except VoteError VoteState := do
  if vote.slots.isEmpty then throw .emptySlots
  let filteredVoteSlots := featureSet.bind fun fs =>
    if fs.filterVotesOutsideSlotHashes then
      let earliestSlotInHistory := (slotHashes.getLast?.map (·.1)).getD 0
      some (vote.slots.filter (· ≥ earliestSlotInHistory))
    else none
  let voteSlots := filteredVoteSlots.getD vote.slots
  if voteSlots.isEmpty then throw .votesTooOldAllFiltered
  vs.checkSlotsAreValid voteSlots vote.hash slotHashes
  pure (voteSlots.foldl (fun vs s => vs.processNextVoteSlot s epoch) vs)

/-- `process_vote_unchecked`: the slot hashes are the vote's own slots with its hash, and an
error is ignored. -/
def processVoteUnchecked (vs : VoteState) (vote : Vote) : VoteState :=
  let slotHashes := vote.slots.reverse.map fun s => (s, vote.hash)
  match vs.processVote vote slotHashes vs.currentEpoch none with
  | .ok vs' => vs'
  | .error _ => vs

/-- `process_slot_vote_unchecked`. -/
def processSlotVoteUnchecked (vs : VoteState) (slot : Slot) : VoteState :=
  vs.processVoteUnchecked ⟨[slot], 0, none⟩

/-! ### What one vote does to the stack and the root -/

@[simp] lemma incrementCredits_votes (vs : VoteState) (epoch : Epoch) :
    (vs.incrementCredits epoch).votes = vs.votes := rfl

@[simp] lemma incrementCredits_rootSlot (vs : VoteState) (epoch : Epoch) :
    (vs.incrementCredits epoch).rootSlot = vs.rootSlot := rfl

@[simp] lemma popExpiredVotes_rootSlot (vs : VoteState) (slot : Slot) :
    (vs.popExpiredVotes slot).rootSlot = vs.rootSlot := rfl

lemma popExpiredVotes_isPrefix (vs : VoteState) (slot : Slot) :
    (vs.popExpiredVotes slot).votes <+: vs.votes :=
  List.rdropWhile_prefix _ _

@[simp] lemma doubleLockouts_rootSlot (vs : VoteState) :
    vs.doubleLockouts.rootSlot = vs.rootSlot := rfl

/-- Doubling changes confirmation counts only. -/
@[simp] lemma doubleLockouts_slots (vs : VoteState) :
    vs.doubleLockouts.votes.map (·.slot) = vs.votes.map (·.slot) := by
  apply List.ext_getElem (by simp [doubleLockouts])
  intro i h₁ h₂
  simp only [doubleLockouts, List.getElem_map, List.getElem_mapIdx]
  split <;> rfl

lemma processNextVoteSlot_of_le {vs : VoteState} {slot : Slot}
    (h : vs.lastVotedSlot.any (slot ≤ ·)) (epoch : Epoch) :
    vs.processNextVoteSlot slot epoch = vs := by
  simp only [processNextVoteSlot, h, if_true]

section NewSlot

variable {vs : VoteState} {slot : Slot} (epoch : Epoch)

/-- A vote on a slot newer than the last vote, when the stack is not full after the expired
votes are popped: the root stays and the slot goes on top of the votes still locked out. -/
lemma processNextVoteSlot_of_not_full (h : vs.lastVotedSlot.any (slot ≤ ·) = false)
    (hfull : (vs.popExpiredVotes slot).votes.length ≠ maxLockoutHistory) :
    (vs.processNextVoteSlot slot epoch).rootSlot = vs.rootSlot ∧
      (vs.processNextVoteSlot slot epoch).votes.map (·.slot) =
        (vs.popExpiredVotes slot).votes.map (·.slot) ++ [slot] := by
  simp only [processNextVoteSlot, h, Bool.false_eq_true, if_false, hfull]
  simp [Lockout.new]

/-- The same vote when the stack is full: the oldest vote still locked out becomes the root. -/
lemma processNextVoteSlot_of_full (h : vs.lastVotedSlot.any (slot ≤ ·) = false)
    (hfull : (vs.popExpiredVotes slot).votes.length = maxLockoutHistory) :
    ∃ oldest rest, (vs.popExpiredVotes slot).votes = oldest :: rest ∧
      (vs.processNextVoteSlot slot epoch).rootSlot = some oldest.slot ∧
      (vs.processNextVoteSlot slot epoch).votes.map (·.slot) = rest.map (·.slot) ++ [slot] := by
  obtain ⟨oldest, rest, hkept⟩ : ∃ oldest rest, (vs.popExpiredVotes slot).votes = oldest :: rest := by
    cases hk : (vs.popExpiredVotes slot).votes with
    | nil => simp [hk, maxLockoutHistory] at hfull
    | cons oldest rest => exact ⟨oldest, rest, rfl⟩
  refine ⟨oldest, rest, hkept, ?_⟩
  simp only [processNextVoteSlot, h, Bool.false_eq_true, if_false, hfull, if_true]
  rw [hkept]
  simp [Lockout.new]

lemma lastVotedSlot_processNextVoteSlot (h : vs.lastVotedSlot.any (slot ≤ ·) = false) :
    (vs.processNextVoteSlot slot epoch).lastVotedSlot = some slot := by
  have hslots : ((vs.processNextVoteSlot slot epoch).votes.map (·.slot)).getLast? = some slot := by
    by_cases hfull : (vs.popExpiredVotes slot).votes.length = maxLockoutHistory
    · obtain ⟨_, _, _, _, hv⟩ := processNextVoteSlot_of_full epoch h hfull
      simp [hv]
    · simp [(processNextVoteSlot_of_not_full epoch h hfull).2]
  simpa [lastVotedSlot, lastLockout, List.getLast?_map] using hslots

/-- A vote on a new slot keeps an ordered selection of the old root and votes, and puts the
slot on top. -/
theorem rootedSlots_processNextVoteSlot (h : vs.lastVotedSlot.any (slot ≤ ·) = false) :
    ∃ kept, kept.Sublist vs.rootedSlots ∧
      (vs.processNextVoteSlot slot epoch).rootedSlots = kept ++ [slot] := by
  have hpre := (popExpiredVotes_isPrefix vs slot).sublist.map (·.slot)
  by_cases hfull : (vs.popExpiredVotes slot).votes.length = maxLockoutHistory
  · -- the oldest kept vote moves into the root: the new list is the kept votes
    obtain ⟨oldest, rest, hkept, hroot, hv⟩ := processNextVoteSlot_of_full epoch h hfull
    refine ⟨(oldest :: rest).map (·.slot), ?_, ?_⟩
    · rw [← hkept]
      exact hpre.trans (List.sublist_append_right _ _)
    · simp [rootedSlots, hroot, hv]
  · obtain ⟨hroot, hv⟩ := processNextVoteSlot_of_not_full epoch h hfull
    refine ⟨vs.rootSlot.toList ++ (vs.popExpiredVotes slot).votes.map (·.slot), ?_, ?_⟩
    · exact List.Sublist.append_left hpre _
    · simp [rootedSlots, hroot, hv]

end NewSlot

/-! ### A vote for one slot -/

/-- With the vote's own slot hash, the check of a vote for one slot fails exactly when the
slot is not newer than the last vote. -/
lemma checkSlotsAreValid_single (vs : VoteState) (slot : Slot) (hash : Hash) :
    vs.checkSlotsAreValid [slot] hash [(slot, hash)] =
      if vs.lastVotedSlot.any (slot ≤ ·) then .error .voteTooOld else .ok () := by
  by_cases h : vs.lastVotedSlot.any (slot ≤ ·)
  · simp [checkSlotsAreValid, checkSlotsLoop, h]
  · simp [checkSlotsAreValid, checkSlotsLoop, h]

/-- `process_vote_unchecked` of a vote for one slot is `process_next_vote_slot` in the current
epoch, whatever the vote's hash: a slot the check rejects is one `process_next_vote_slot`
ignores. -/
theorem processVoteUnchecked_single (vs : VoteState) (slot : Slot) (hash : Hash)
    (timestamp : Option ℤ) :
    vs.processVoteUnchecked ⟨[slot], hash, timestamp⟩ =
      vs.processNextVoteSlot slot vs.currentEpoch := by
  by_cases h : vs.lastVotedSlot.any (slot ≤ ·)
  · rw [processNextVoteSlot_of_le h]
    simp [processVoteUnchecked, processVote, checkSlotsAreValid_single, h]
  · simp [processVoteUnchecked, processVote, checkSlotsAreValid_single, h]

lemma processSlotVoteUnchecked_eq (vs : VoteState) (slot : Slot) :
    vs.processSlotVoteUnchecked slot = vs.processNextVoteSlot slot vs.currentEpoch :=
  processVoteUnchecked_single vs slot 0 none

end VoteState

end VelasChain.VoteProgram
