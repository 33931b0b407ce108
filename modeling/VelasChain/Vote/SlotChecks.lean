import Mathlib.Data.List.Nodup
import VelasChain.Vote.VoteState
import VelasChain.Lib.GreedyMatch

/-!
# The checks of a vote's slots against the slot hashes

`check_slots_are_valid` walks the vote's slots from the oldest and the slot hashes from the
oldest (the end of the list) with two indexes. Over what is left of the two lists that loop is
greedy matching (`GreedyMatch.run`): a slot not newer than the last vote is passed over, a slot
equal to the slot of the current slot hash consumes both, and any other slot waits while the
slot hash is passed over (`checkSlotsLoop_eq`).

With the slot hashes newest first and their slots strictly decreasing, the check accepts exactly
when the vote's slots after the last vote are a subsequence of the slot-hash slots read oldest
first, the slot hash of the last of them holds the vote's hash, and, where the last of them is
the newest slot hash, the vote ends with it: the loop stops as soon as the slot hashes run out,
so an older slot after the match of the newest one is left unread and the check fails with
`SlotsMismatch` (`checkSlotsAreValid_iff`).
-/

namespace VelasChain.VoteProgram

open scoped List

namespace VoteState

/-- The vote's slots the check compares: those newer than the last vote, in their order. -/
def slotsAfterLastVote (vs : VoteState) (voteSlots : List Slot) : List Slot :=
  voteSlots.filter fun s => vs.lastVotedSlot.all (· < s)

/-- The vote's slots after its last vote match the slot hashes: they are a subsequence of the
slot-hash slots read oldest first and, unless they already are one without the newest slot,
the vote's last slot is among them. -/
def SlotsMatch (vs : VoteState) (voteSlots : List Slot) (slotHashes : List (Slot × Hash)) :
    Prop :=
  vs.slotsAfterLastVote voteSlots <+ (slotHashes.map (·.1)).reverse ∧
    (vs.slotsAfterLastVote voteSlots <+ (slotHashes.map (·.1)).reverse.dropLast ∨
      voteSlots.getLast? = (vs.slotsAfterLastVote voteSlots).getLast?)

lemma slotsAfterLastVote_eq (vs : VoteState) (voteSlots : List Slot) :
    vs.slotsAfterLastVote voteSlots =
      voteSlots.filter fun s => !(vs.lastVotedSlot.any (s ≤ ·)) := by
  apply List.filter_congr
  intro s _
  cases vs.lastVotedSlot with
  | none => rfl
  | some last =>
    simp only [Option.all_some, Option.any_some, ← decide_not, not_le]

/-! ### The loop as greedy matching -/

/-- From indexes `i` and `j`, with enough fuel, the loop of `check_slots_are_valid` ends where
greedy matching of the vote's slots from `i` against the slot hashes below `j`, oldest first,
leaves the two lists. -/
lemma checkSlotsLoop_eq (last : Option Slot) (voteSlots : List Slot)
    (slotHashes : List (Slot × Hash)) :
    ∀ fuel i j, i ≤ voteSlots.length → j ≤ slotHashes.length →
      voteSlots.length - i + j ≤ fuel →
      checkSlotsLoop last voteSlots slotHashes fuel i j =
        (voteSlots.length - (GreedyMatch.run (fun s => last.any (s ≤ ·)) Prod.fst
            (voteSlots.drop i) (slotHashes.take j).reverse).1.length,
          (GreedyMatch.run (fun s => last.any (s ≤ ·)) Prod.fst
            (voteSlots.drop i) (slotHashes.take j).reverse).2.length)
  | 0, i, j, hi, _, hfuel => by
    obtain ⟨rfl, rfl⟩ : i = voteSlots.length ∧ j = 0 := by omega
    simp [checkSlotsLoop]
  | fuel + 1, i, j, hi, hj, hfuel => by
    unfold checkSlotsLoop
    by_cases hloop : i < voteSlots.length ∧ j > 0
    · rw [dif_pos hloop]
      have hdrop : voteSlots.drop i = voteSlots[i] :: voteSlots.drop (i + 1) :=
        List.drop_eq_getElem_cons hloop.1
      obtain ⟨k, rfl⟩ : ∃ k, j = k + 1 := ⟨j - 1, by omega⟩
      have hk : k < slotHashes.length := by omega
      have htake : (slotHashes.take (k + 1)).reverse =
          slotHashes[k] :: (slotHashes.take k).reverse := by
        rw [List.take_add_one, List.getElem?_eq_getElem hk]
        simp
      have ihSkip := checkSlotsLoop_eq last voteSlots slotHashes fuel (i + 1) (k + 1) hloop.1 hj
        (by omega)
      have ihMatch := checkSlotsLoop_eq last voteSlots slotHashes fuel (i + 1) k hloop.1 hk.le
        (by omega)
      have ihWait := checkSlotsLoop_eq last voteSlots slotHashes fuel i k hi hk.le (by omega)
      rw [htake] at ihSkip
      rw [hdrop] at ihWait
      rw [hdrop, htake, GreedyMatch.run, Nat.add_sub_cancel, List.getElem?_eq_getElem hk]
      generalize slotHashes[k] = p at ihSkip ⊢
      obtain ⟨slot, hash⟩ := p
      dsimp only
      by_cases hskip : last.any (voteSlots[i] ≤ ·)
      · rw [if_pos hskip, if_pos hskip]
        exact ihSkip
      · rw [if_neg hskip, if_neg hskip]
        by_cases hmatch : voteSlots[i] = slot
        · rw [if_neg (not_not.mpr hmatch), if_pos hmatch]
          exact ihMatch
        · rw [if_pos hmatch, if_neg hmatch]
          exact ihWait
    · rw [dif_neg hloop]
      rcases Nat.lt_or_ge i voteSlots.length with hlt | hge
      · obtain rfl : j = 0 := by omega
        simp only [List.take_zero, List.reverse_nil, GreedyMatch.run_nil_right, List.length_drop,
          List.length_nil, Prod.mk.injEq, and_true]
        omega
      · obtain rfl : i = voteSlots.length := by omega
        simp [List.length_take, Nat.min_eq_left hj]

/-- `check_slots_are_valid`, with its loop replaced by greedy matching of the vote's slots
against the slot hashes read oldest first. -/
lemma checkSlotsAreValid_eq (vs : VoteState) (voteSlots : List Slot) (voteHash : Hash)
    (slotHashes : List (Slot × Hash)) :
    vs.checkSlotsAreValid voteSlots voteHash slotHashes =
      let r := GreedyMatch.run (fun s => vs.lastVotedSlot.any (s ≤ ·)) Prod.fst voteSlots
        slotHashes.reverse
      if r.2.length = slotHashes.length then .error .voteTooOld
      else if r.1 ≠ [] then .error .slotsMismatch
      else if (slotHashes[r.2.length]?.map (·.2)) ≠ some voteHash then .error .slotHashMismatch
      else .ok () := by
  have hloop := checkSlotsLoop_eq vs.lastVotedSlot voteSlots slotHashes
    (voteSlots.length + slotHashes.length) 0 slotHashes.length (Nat.zero_le _) le_rfl (by omega)
  simp only [List.drop_zero, List.take_length] at hloop
  have hle : (GreedyMatch.run (fun s => vs.lastVotedSlot.any (s ≤ ·)) Prod.fst voteSlots
      slotHashes.reverse).1.length ≤ voteSlots.length :=
    (GreedyMatch.run_fst_suffix _ _).length_le
  unfold checkSlotsAreValid
  rw [hloop]
  dsimp only
  by_cases hnil : (GreedyMatch.run (fun s => vs.lastVotedSlot.any (s ≤ ·)) Prod.fst voteSlots
      slotHashes.reverse).1 = []
  · simp [hnil]
  · have hpos := List.length_pos_of_ne_nil hnil
    simp only [ne_eq, hnil, not_false_eq_true, if_true]
    split_ifs <;> first | rfl | omega

/-! ### What the check decides -/

section Decide

variable (vs : VoteState) (voteSlots : List Slot) (slotHashes : List (Slot × Hash))

/-- No slot hash is passed over exactly when no slot is newer than the last vote or there are no
slot hashes. -/
lemma length_run_snd_eq_iff :
    (GreedyMatch.run (fun s => vs.lastVotedSlot.any (s ≤ ·)) Prod.fst voteSlots
        slotHashes.reverse).2.length = slotHashes.length ↔
      vs.slotsAfterLastVote voteSlots = [] ∨ slotHashes = [] := by
  rw [slotsAfterLastVote_eq]
  constructor
  · intro h
    by_contra hne
    rw [not_or] at hne
    have hlt : (GreedyMatch.run (fun s => vs.lastVotedSlot.any (s ≤ ·)) Prod.fst voteSlots
        slotHashes.reverse).2.length < slotHashes.reverse.length :=
      GreedyMatch.length_run_snd_lt voteSlots slotHashes.reverse hne.1 (by simpa using hne.2)
    rw [List.length_reverse] at hlt
    omega
  · rintro (hT | rfl)
    · by_cases hnil : slotHashes = []
      · simp [hnil]
      · rw [GreedyMatch.run_of_filter_eq_nil (by simpa using hnil) hT, List.length_reverse]
    · simp

lemma run_fst_eq_nil_iff_slotsMatch (hT : vs.slotsAfterLastVote voteSlots ≠ []) :
    (GreedyMatch.run (fun s => vs.lastVotedSlot.any (s ≤ ·)) Prod.fst voteSlots
        slotHashes.reverse).1 = [] ↔ vs.SlotsMatch voteSlots slotHashes := by
  rw [slotsAfterLastVote_eq] at hT
  rw [GreedyMatch.run_fst_eq_nil_iff voteSlots slotHashes.reverse hT, SlotsMatch,
    slotsAfterLastVote_eq, List.map_reverse]

/-- When every vote slot is consumed, the slot hash the check reads is the match of the last
slot after the last vote. -/
lemma getElem?_length_run_snd (hT : vs.slotsAfterLastVote voteSlots ≠ [])
    (h : (GreedyMatch.run (fun s => vs.lastVotedSlot.any (s ≤ ·)) Prod.fst voteSlots
        slotHashes.reverse).1 = []) :
    ∃ b, slotHashes[(GreedyMatch.run (fun s => vs.lastVotedSlot.any (s ≤ ·)) Prod.fst voteSlots
        slotHashes.reverse).2.length]? = some b ∧
      some b.1 = (vs.slotsAfterLastVote voteSlots).getLast? := by
  have hT' := hT
  rw [slotsAfterLastVote_eq] at hT'
  obtain ⟨pre, b, hsplit, hb⟩ := GreedyMatch.exists_of_run_fst_eq_nil voteSlots slotHashes.reverse hT' h
  refine ⟨b, ?_, ?_⟩
  · generalize (GreedyMatch.run (fun s => vs.lastVotedSlot.any (s ≤ ·)) Prod.fst voteSlots
      slotHashes.reverse).2 = rest at hsplit ⊢
    have hrev := congrArg List.reverse hsplit
    rw [List.reverse_reverse] at hrev
    rw [hrev]
    simp
  · rw [slotsAfterLastVote_eq, List.getLast?_eq_some_getLast hT', hb]

/-- With strictly decreasing slots, the entry of a slot is the only one that can record a hash
for it. -/
lemma mem_slotHashes_iff (hsorted : (slotHashes.map (·.1)).Pairwise (· > ·)) {b : Slot × Hash}
    (hb : b ∈ slotHashes) (h : Hash) : (b.1, h) ∈ slotHashes ↔ b.2 = h := by
  have hnodup : (slotHashes.map (·.1)).Nodup := hsorted.imp ne_of_gt
  constructor
  · intro hmem
    rw [← List.inj_on_of_nodup_map hnodup hmem hb rfl]
  · rintro rfl
    exact hb

lemma slotHashes_ne_nil_of_slotsMatch (hT : vs.slotsAfterLastVote voteSlots ≠ [])
    (hmatch : vs.SlotsMatch voteSlots slotHashes) : slotHashes ≠ [] := by
  rintro rfl
  exact hT (List.sublist_nil.mp hmatch.1)

lemma pairwise_of_slotsMatch (hsorted : (slotHashes.map (·.1)).Pairwise (· > ·))
    (hmatch : vs.SlotsMatch voteSlots slotHashes) :
    (vs.slotsAfterLastVote voteSlots).Pairwise (· < ·) :=
  (List.pairwise_reverse.mpr hsorted).sublist hmatch.1

end Decide

/-- `check_slots_are_valid` against slot hashes whose slots strictly decrease: it accepts exactly
when the slots after the last vote are nonempty, increasing and match the slot hashes, and the
slot hash of the last of them records the vote's hash. It fails with `VoteTooOld` exactly when
no slot is newer than the last vote or there are no slot hashes, with `SlotsMismatch` when the
slots do not match, and with `SlotHashMismatch` when only the hash differs. -/
theorem check_slots_are_valid_decides_matching (vs : VoteState) (voteSlots : List Slot)
    (voteHash : Hash) (slotHashes : List (Slot × Hash))
    (hsorted : (slotHashes.map (·.1)).Pairwise (· > ·)) :
    (vs.checkSlotsAreValid voteSlots voteHash slotHashes = .ok () ↔
      vs.slotsAfterLastVote voteSlots ≠ [] ∧ (vs.slotsAfterLastVote voteSlots).Pairwise (· < ·) ∧
        vs.SlotsMatch voteSlots slotHashes ∧
        ∀ t ∈ (vs.slotsAfterLastVote voteSlots).getLast?, (t, voteHash) ∈ slotHashes) ∧
    (vs.checkSlotsAreValid voteSlots voteHash slotHashes = .error .voteTooOld ↔
      vs.slotsAfterLastVote voteSlots = [] ∨ slotHashes = []) ∧
    (vs.checkSlotsAreValid voteSlots voteHash slotHashes = .error .slotsMismatch ↔
      vs.slotsAfterLastVote voteSlots ≠ [] ∧ slotHashes ≠ [] ∧
        ¬ vs.SlotsMatch voteSlots slotHashes) ∧
    (vs.checkSlotsAreValid voteSlots voteHash slotHashes = .error .slotHashMismatch ↔
      vs.slotsAfterLastVote voteSlots ≠ [] ∧ vs.SlotsMatch voteSlots slotHashes ∧
        ∀ t ∈ (vs.slotsAfterLastVote voteSlots).getLast?, (t, voteHash) ∉ slotHashes) := by
  rw [checkSlotsAreValid_eq]
  dsimp only
  by_cases hold : vs.slotsAfterLastVote voteSlots = [] ∨ slotHashes = []
  · -- nothing newer than the last vote, or nothing to match it against
    have hnone : ¬ (vs.slotsAfterLastVote voteSlots ≠ [] ∧ vs.SlotsMatch voteSlots slotHashes) := by
      rintro ⟨hT, hmatch⟩
      rcases hold with hT' | hnil
      · exact hT hT'
      · exact slotHashes_ne_nil_of_slotsMatch vs voteSlots slotHashes hT hmatch hnil
    rw [if_pos ((length_run_snd_eq_iff vs voteSlots slotHashes).mpr hold)]
    refine ⟨?_, ?_, ?_, ?_⟩
    · simp only [reduceCtorEq, false_iff]
      exact fun h => hnone ⟨h.1, h.2.2.1⟩
    · simp only [true_iff]
      exact hold
    · simp only [Except.error.injEq, reduceCtorEq, false_iff]
      rintro ⟨hT, hnil, -⟩
      rcases hold with h | h
      · exact hT h
      · exact hnil h
    · simp only [Except.error.injEq, reduceCtorEq, false_iff]
      exact fun h => hnone ⟨h.1, h.2.1⟩
  · rw [not_or] at hold
    obtain ⟨hT, hnil⟩ := hold
    rw [if_neg (fun h => by
      rcases (length_run_snd_eq_iff vs voteSlots slotHashes).mp h with h' | h'
      · exact hT h'
      · exact hnil h')]
    by_cases hmatch : vs.SlotsMatch voteSlots slotHashes
    · -- every slot is consumed: only the hash remains to be compared
      have hrun := (run_fst_eq_nil_iff_slotsMatch vs voteSlots slotHashes hT).mpr hmatch
      obtain ⟨b, hb, hlast⟩ := getElem?_length_run_snd vs voteSlots slotHashes hT hrun
      have hmem : ∀ h, (∀ t ∈ (vs.slotsAfterLastVote voteSlots).getLast?, (t, h) ∈ slotHashes) ↔
          b.2 = h := by
        intro h
        rw [← hlast]
        simp only [Option.mem_def, Option.some.injEq, forall_eq']
        exact mem_slotHashes_iff slotHashes hsorted (List.mem_of_getElem? hb) h
      rw [if_neg (not_not.mpr hrun), hb]
      by_cases hhash : b.2 = voteHash
      · rw [if_neg (by simp [hhash])]
        refine ⟨?_, ?_, ?_, ?_⟩
        · simp only [true_iff]
          exact ⟨hT, pairwise_of_slotsMatch vs voteSlots slotHashes hsorted hmatch, hmatch,
            (hmem voteHash).mpr hhash⟩
        · simp only [reduceCtorEq, false_iff, not_or]
          exact ⟨hT, hnil⟩
        · simp only [reduceCtorEq, false_iff]
          exact fun h => h.2.2 hmatch
        · simp only [reduceCtorEq, false_iff]
          exact fun h => h.2.2 b.1 hlast.symm ((hmem voteHash).mpr hhash b.1 hlast.symm)
      · rw [if_pos (by simp [hhash])]
        refine ⟨?_, ?_, ?_, ?_⟩
        · simp only [reduceCtorEq, false_iff]
          exact fun h => hhash ((hmem voteHash).mp h.2.2.2)
        · simp only [Except.error.injEq, reduceCtorEq, false_iff, not_or]
          exact ⟨hT, hnil⟩
        · simp only [Except.error.injEq, reduceCtorEq, false_iff]
          exact fun h => h.2.2 hmatch
        · simp only [true_iff]
          refine ⟨hT, hmatch, fun t ht hin => hhash ?_⟩
          rw [← hlast, Option.mem_def, Option.some.injEq] at ht
          subst ht
          exact (mem_slotHashes_iff slotHashes hsorted (List.mem_of_getElem? hb) _).mp hin
    · have hrun : (GreedyMatch.run (fun s => vs.lastVotedSlot.any (s ≤ ·)) Prod.fst voteSlots
          slotHashes.reverse).1 ≠ [] :=
        fun h => hmatch ((run_fst_eq_nil_iff_slotsMatch vs voteSlots slotHashes hT).mp h)
      rw [if_pos hrun]
      refine ⟨?_, ?_, ?_, ?_⟩
      · simp only [reduceCtorEq, false_iff]
        exact fun h => hmatch h.2.2.1
      · simp only [Except.error.injEq, reduceCtorEq, false_iff, not_or]
        exact ⟨hT, hnil⟩
      · simp only [true_iff]
        exact ⟨hT, hnil, hmatch⟩
      · simp only [Except.error.injEq, reduceCtorEq, false_iff]
        exact fun h => hmatch h.2.1

theorem check_slots_are_valid_accepts_two_slots :
    ((⟨[], none, [], ⟨0, 0⟩⟩ : VoteState).checkSlotsAreValid [3, 4] 1 [(4, 1), (3, 0)] = .ok () ↔
      (⟨[], none, [], ⟨0, 0⟩⟩ : VoteState).slotsAfterLastVote [3, 4] ≠ [] ∧
      ((⟨[], none, [], ⟨0, 0⟩⟩ : VoteState).slotsAfterLastVote [3, 4]).Pairwise (· < ·) ∧
      (⟨[], none, [], ⟨0, 0⟩⟩ : VoteState).SlotsMatch [3, 4] [(4, 1), (3, 0)] ∧
      ∀ t ∈ ((⟨[], none, [], ⟨0, 0⟩⟩ : VoteState).slotsAfterLastVote [3, 4]).getLast?,
        (t, (1 : Hash)) ∈ [((4 : Slot), (1 : Hash)), (3, 0)]) :=
  (check_slots_are_valid_decides_matching _ [3, 4] 1 [(4, 1), (3, 0)] (by decide)).1

/-- After the last vote at slot 4, the vote for slots 5 and 3 against the one slot hash of slot 5
and the vote's hash: the slots after the last vote are `[5]`, increasing, a subsequence of the
slot-hash slots, and slot 5 records the vote's hash, yet the check fails, since the loop stops
when the slot hashes run out and leaves slot 3 unread. And a vote for slot 7 against that slot
hash matches nothing but fails with `SlotsMismatch`, not `VoteTooOld`. -/
theorem check_slots_are_valid_rejects_trailing_old_slot :
    (⟨[⟨4, 1⟩], none, [], ⟨0, 0⟩⟩ : VoteState).slotsAfterLastVote [5, 3] = [5] ∧
    [5] <+ (([((5 : Slot), (0 : Hash))]).map (·.1)).reverse ∧
    ((5 : Slot), (0 : Hash)) ∈ [((5 : Slot), (0 : Hash))] ∧
    (⟨[⟨4, 1⟩], none, [], ⟨0, 0⟩⟩ : VoteState).checkSlotsAreValid [5, 3] 0 [(5, 0)] =
      .error .slotsMismatch ∧
    (⟨[⟨4, 1⟩], none, [], ⟨0, 0⟩⟩ : VoteState).slotsAfterLastVote [7] = [7] ∧
    (⟨[⟨4, 1⟩], none, [], ⟨0, 0⟩⟩ : VoteState).checkSlotsAreValid [7] 0 [(5, 0)] =
      .error .slotsMismatch := by
  refine ⟨by decide, by decide, by decide, by decide, by decide, by decide⟩

end VoteState

end VelasChain.VoteProgram
