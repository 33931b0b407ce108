import VelasChain.Vote.UpdateSlotChecks
import VelasChain.Vote.NewVoteState
import VelasChain.Lib.Except

/-!
# A vote state update never escapes a lockout

`process_vote_state_update` checks a proposed tower against the slot hashes
(`check_update_vote_state_slots_are_valid`) and then installs it (`process_new_vote_state`).
The first check makes the proposal's last slot newer than the last vote. The walk of
`process_new_vote_state` then meets every current lockout above the new root before the
proposal runs out, and lets one go only if the proposal keeps it with no fewer confirmations or
its lockout has expired before the next proposed slot.

So a vote state that an update replaces is followed by its replacement (`Follows`, the relation
`process_next_vote_slot` keeps): the root does not go back, and every lockout of the old tower is
kept, rooted, or expired before every newer slot of the new one
(`process_vote_state_update_follows`). A validator cannot leave a fork it is locked on by
proposing a tower that drops the lock.
-/

namespace VelasChain.VoteProgram

open Consensus (VoteStateUpdate)
open Except (bind_eq_ok_iff)

namespace VoteState

/-- `process_vote_state_update` once the vote account is verified: the update is checked against
the slot hashes, and the checked update replaces the lockouts and the root; `none` where an
assertion fails. -/
def processVoteStateUpdate (vs : VoteState) (slotHashes : List (Slot × Hash)) (epoch : Epoch)
    (update : VoteStateUpdate) : Option (Except VoteError VoteState) :=
  (vs.checkUpdateVoteStateSlotsAreValid update slotHashes).bind fun
    | .error e => some (.error e)
    | .ok update => vs.processNewVoteState update.lockouts update.root update.timestamp epoch

/-! ### What the checks of `process_new_vote_state` guarantee -/

/-- A proposal that passes the first loop is a tower: each lockout right below the next. -/
lemma isChain_of_checkNewState {newRoot : Option Slot} {previousVote : Option Lockout}
    {votes : List Lockout} (h : checkNewState newRoot previousVote votes = .ok ()) :
    (previousVote.toList ++ votes).IsChain Lockout.Below := by
  induction votes generalizing previousVote with
  | nil => cases previousVote <;> simp
  | cons vote rest ih =>
    simp only [checkNewState] at h
    split_ifs at h with hzero hlarge hroot
    · cases h
    · cases h
    · cases h
    cases previousVote with
    | none => simpa using ih h
    | some previousVote =>
      -- the pair checks of the loop, on the lockout before this one
      simp only at h
      split_ifs at h with hslot hcount hlocked
      · cases h
      · cases h
      · cases h
      exact List.IsChain.cons_cons ⟨not_le.mp hslot, not_le.mp hcount, not_lt.mp hlocked⟩
        (by simpa using ih h)

/-- A lockout the prefix does not satisfy is left by `dropWhile`. -/
lemma mem_dropWhile_of_not {α : Type*} {p : α → Bool} {l : List α} {a : α} (ha : a ∈ l)
    (hp : p a = false) : a ∈ l.dropWhile p := by
  rw [← List.takeWhile_append_dropWhile (p := p) (l := l)] at ha
  rcases List.mem_append.mp ha with ha | ha
  · exact absurd (List.mem_takeWhile_imp ha) (by simp [hp])
  · exact ha

/-- The walk of `process_new_vote_state`, when it accepts and the proposal reaches every current
lockout, has kept each current lockout with no fewer confirmations or seen it expire before
every proposed slot at or above it. -/
lemma settled_of_checkLockouts {current new : List Lockout}
    (hcurrent : current.Pairwise fun a b => a.slot < b.slot)
    (hnew : new.Pairwise fun a b => a.slot < b.slot) (h : checkLockouts current new = .ok ())
    (hreach : ∀ v ∈ current, ∃ w ∈ new, v.slot ≤ w.slot) :
    ∀ v ∈ current,
      (∃ v' ∈ new, v'.slot = v.slot ∧ v.confirmationCount ≤ v'.confirmationCount) ∨
        ∀ w ∈ new, v.slot ≤ w.slot → v.lastLockedOutSlot < w.slot := by
  fun_induction checkLockouts current new with
  | case1 => cases h
  | case2 currentVote currentRest newVote newRest hlt hlocked ih =>
    -- the current lockout is passed: it expired before the proposed slot
    have hslot : currentVote.slot < newVote.slot := compare_lt_iff_lt.mp hlt
    have hexpired : currentVote.lastLockedOutSlot < newVote.slot := not_le.mp hlocked
    intro v hv
    rcases List.mem_cons.mp hv with rfl | hv
    · refine .inr fun w hw _ => ?_
      rcases List.mem_cons.mp hw with rfl | hw
      · exact hexpired
      · exact hexpired.trans (List.rel_of_pairwise_cons hnew hw)
    · exact ih hcurrent.of_cons hnew h (fun v hv => hreach v (List.mem_cons_of_mem _ hv)) v hv
  | case3 => cases h
  | case4 currentVote currentRest newVote newRest heq hrollback ih =>
    -- the same slot in both: kept, and the lockouts above it are met further on
    have hslot : currentVote.slot = newVote.slot := compare_eq_iff_eq.mp heq
    have habove : ∀ v ∈ currentRest, newVote.slot < v.slot := fun v hv =>
      hslot ▸ List.rel_of_pairwise_cons hcurrent hv
    have hreach' : ∀ v ∈ currentRest, ∃ w ∈ newRest, v.slot ≤ w.slot := by
      intro v hv
      obtain ⟨w, hw, hle⟩ := hreach v (List.mem_cons_of_mem _ hv)
      rcases List.mem_cons.mp hw with rfl | hw
      · exact absurd hle (not_le.mpr (habove v hv))
      · exact ⟨w, hw, hle⟩
    intro v hv
    rcases List.mem_cons.mp hv with rfl | hv
    · exact .inl ⟨newVote, List.mem_cons_self, hslot.symm, not_lt.mp hrollback⟩
    · rcases ih hcurrent.of_cons hnew.of_cons h hreach' v hv with ⟨v', hv', hs, hc⟩ | hexpired
      · exact .inl ⟨v', List.mem_cons_of_mem _ hv', hs, hc⟩
      · refine .inr fun w hw hle => ?_
        rcases List.mem_cons.mp hw with rfl | hw
        · exact absurd hle (not_le.mpr (habove v hv))
        · exact hexpired w hw hle
  | case5 currentVote currentRest newVote newRest hgt ih =>
    -- a proposed slot below the current lockout: the current lockouts are met further on
    have hslot : newVote.slot < currentVote.slot := compare_gt_iff_gt.mp hgt
    have habove : ∀ v ∈ currentVote :: currentRest, newVote.slot < v.slot := by
      intro v hv
      rcases List.mem_cons.mp hv with rfl | hv
      · exact hslot
      · exact hslot.trans (List.rel_of_pairwise_cons hcurrent hv)
    have hreach' : ∀ v ∈ currentVote :: currentRest, ∃ w ∈ newRest, v.slot ≤ w.slot := by
      intro v hv
      obtain ⟨w, hw, hle⟩ := hreach v hv
      rcases List.mem_cons.mp hw with rfl | hw
      · exact absurd hle (not_le.mpr (habove v hv))
      · exact ⟨w, hw, hle⟩
    intro v hv
    rcases ih hcurrent hnew.of_cons h hreach' v hv with ⟨v', hv', hs, hc⟩ | hexpired
    · exact .inl ⟨v', List.mem_cons_of_mem _ hv', hs, hc⟩
    · refine .inr fun w hw hle => ?_
      rcases List.mem_cons.mp hw with rfl | hw
      · exact absurd hle (not_le.mpr (habove v hv))
      · exact hexpired w hw hle
  | case6 current new hnot =>
    -- one side ran out: a current lockout left would have no proposed slot to reach
    intro v hv
    obtain ⟨w, hw, -⟩ := hreach v hv
    cases current with
    | nil => exact absurd hv List.not_mem_nil
    | cons c cs =>
      cases new with
      | nil => exact absurd hw List.not_mem_nil
      | cons n ns => exact (hnot c cs n ns rfl rfl).elim

/-- Both loops of `process_new_vote_state` passed before what follows them. -/
lemma checks_of_bind_eq_ok {c₁ c₂ : Except VoteError Unit} {T : Except VoteError VoteState}
    {vs' : VoteState} (h : (c₁ >>= fun _ => c₂ >>= fun _ => T) = .ok vs') :
    c₁ = .ok () ∧ c₂ = .ok () ∧ T = .ok vs' := by
  obtain ⟨⟨⟩, h₁, h⟩ := bind_eq_ok_iff.mp h
  obtain ⟨⟨⟩, h₂, h⟩ := bind_eq_ok_iff.mp h
  exact ⟨h₁, h₂, h⟩

/-- What an accepted proposal is: a nonempty tower passing both loops, whose root does not go
back, installed as the new lockouts and root. -/
lemma processNewVoteState_eq_ok {vs vs' : VoteState} {newState : List Lockout}
    {newRoot : Option Slot} {timestamp : Option ℤ} {epoch : Epoch}
    (h : vs.processNewVoteState newState newRoot timestamp epoch = some (.ok vs')) :
    newState ≠ [] ∧ (∀ r ∈ vs.rootSlot, ∃ r' ∈ newRoot, r ≤ r') ∧
      checkNewState newRoot none newState = .ok () ∧
      checkLockouts (vs.votes.dropWhile fun v => newRoot.any (v.slot ≤ ·)) newState = .ok () ∧
      vs'.votes = newState ∧ vs'.rootSlot = newRoot := by
  unfold processNewVoteState at h
  split at h
  · cases h
  rename_i hne
  simp only [Option.some.injEq] at h
  split at h
  · -- too many lockouts
    obtain ⟨_, hthrow, -⟩ := bind_eq_ok_iff.mp h
    cases hthrow
  -- the root checks: a path that passes them runs both loops and installs the proposal
  split at h
  · rename_i newRoot' currentRoot hcurrent
    split at h
    · obtain ⟨_, hthrow, -⟩ := bind_eq_ok_iff.mp h
      cases hthrow
    · rename_i hlt
      obtain ⟨hcheck, hwalk, hT⟩ := checks_of_bind_eq_ok h
      refine ⟨hne, fun r hr => ⟨newRoot', rfl, ?_⟩, hcheck, hwalk, ?_⟩
      · rw [hcurrent, Option.mem_some_iff] at hr
        exact hr ▸ not_lt.mp hlt
      · split at hT <;> obtain ⟨_, -, hT⟩ := bind_eq_ok_iff.mp hT <;> cases hT <;> exact ⟨rfl, rfl⟩
  · obtain ⟨_, hthrow, -⟩ := bind_eq_ok_iff.mp h
    cases hthrow
  · rename_i newRoot' _ _ hsome hnone
    obtain ⟨hcheck, hwalk, hT⟩ := checks_of_bind_eq_ok h
    refine ⟨hne, fun r hr => ?_, hcheck, hwalk, ?_⟩
    · -- a current root with the other two patterns excluded: a new root is there
      cases newRoot' with
      | none => exact (hnone r rfl hr).elim
      | some newRoot' => exact (hsome newRoot' r rfl hr).elim
    · split at hT <;> obtain ⟨_, -, hT⟩ := bind_eq_ok_iff.mp hT <;> cases hT <;> exact ⟨rfl, rfl⟩

/-- An accepted proposal whose slots reach beyond every current lockout follows the current
state. -/
theorem follows_of_processNewVoteState {vs vs' : VoteState} (hw : vs.WellFormed)
    {newState : List Lockout} {newRoot : Option Slot} {timestamp : Option ℤ} {epoch : Epoch}
    (h : vs.processNewVoteState newState newRoot timestamp epoch = some (.ok vs'))
    (hreach : ∀ v ∈ vs.votes, ∃ w ∈ newState, v.slot ≤ w.slot) : Follows vs vs' := by
  obtain ⟨hne, hroot, hcheck, hwalk, hvotes, hrootSlot⟩ := processNewVoteState_eq_ok h
  -- the proposal is a tower, so its slots increase up to its last
  have hchain : newState.IsChain Lockout.Below := by simpa using isChain_of_checkNewState hcheck
  have hsorted : newState.Pairwise fun a b => a.slot < b.slot := by
    have hslots : (newState.map (·.slot)).IsChain (· < ·) :=
      (List.isChain_map _).mpr (hchain.imp fun _ _ hab => hab.1)
    exact List.pairwise_map.mp (List.isChain_iff_pairwise.mp hslots)
  have hlast : ∀ w ∈ newState, w.slot ≤ (newState.getLast hne).slot := by
    intro w hw
    rcases List.mem_iff_append.mp hw with ⟨s, t, rfl⟩
    cases t using List.reverseRecOn with
    | nil => simp
    | append_singleton t x =>
      have hx := List.rel_of_pairwise_cons ((List.pairwise_append.mp hsorted).2.1)
        (List.mem_append_right t (List.mem_singleton_self x))
      simp only [← List.cons_append, ← List.append_assoc, List.getLast_append_singleton]
      exact hx.le
  have hlastVoted : vs'.lastVotedSlot = some (newState.getLast hne).slot := by
    simp [lastVotedSlot, lastLockout, hvotes, List.getLast?_eq_some_getLast hne]
  refine ⟨fun r hr => ?_, fun v hv => ?_⟩
  · rw [hrootSlot]
    exact hroot r hr
  -- a lockout at or below the new root is rooted; any other is met by the walk
  cases hnr : newRoot.any (v.slot ≤ ·) with
  | true =>
    cases newRoot with
    | none => cases hnr
    | some r => exact .inr (.inl ⟨r, by simp [hrootSlot], by simpa using hnr⟩)
  | false =>
    have hsuffix := mem_dropWhile_of_not hv (p := fun v => newRoot.any (v.slot ≤ ·)) hnr
    have hsub := List.dropWhile_sublist (l := vs.votes) fun v => newRoot.any (v.slot ≤ ·)
    rcases settled_of_checkLockouts (hw.pairwise.sublist hsub) hsorted hwalk
        (fun u hu => hreach u (hsub.subset hu)) v hsuffix with ⟨v', hv', hs, hc⟩ | hexpired
    · exact .inl ⟨v', hvotes ▸ hv', hs, hc⟩
    · obtain ⟨w, hw', hle⟩ := hreach v hv
      refine .inr (.inr ⟨⟨_, hlastVoted, ?_⟩, fun w' hw'' hle' => hexpired w' (hvotes ▸ hw'') hle'⟩)
      exact (hexpired w hw' hle).trans_le (hlast w hw')

/-! ### What the slot check guarantees -/

/-- An update the slot check accepts keeps its last lockout, which is newer than the last vote:
the last lockout is matched with a slot hash, so it is not below the oldest one and the filter
of unheld old slots leaves it. -/
lemma last_mem_of_checkUpdate {vs : VoteState} {update update' : VoteStateUpdate}
    {slotHashes : List (Slot × Hash)} (hsorted : (slotHashes.map (·.1)).Pairwise (· > ·))
    (h : vs.checkUpdateVoteStateSlotsAreValid update slotHashes = some (.ok update')) :
    ∃ last ∈ update'.lockouts, vs.lastVotedSlot.all (· < last.slot) := by
  cases hlast : update.lockouts.getLast? with
  | none => simp [checkUpdateVoteStateSlotsAreValid, hlast] at h
  | some last =>
  by_cases hold : vs.lastVotedSlot.any (last.slot ≤ ·)
  · simp [checkUpdateVoteStateSlotsAreValid, hlast, hold] at h
  cases hsh : slotHashes.getLast? with
  | none => simp [checkUpdateVoteStateSlotsAreValid, hlast, hold, hsh] at h
  | some eh =>
  obtain ⟨earliest, eh⟩ := eh
  by_cases hlt : last.slot < earliest
  · simp [checkUpdateVoteStateSlotsAreValid, hlast, hold, hsh, hlt] at h
  simp only [checkUpdateVoteStateSlotsAreValid, hlast, hold, hsh, hlt, Bool.false_eq_true,
    if_false] at h
  -- the loop accepts exactly what fits, and then its filter is that of the unheld old slots
  have hne : update.lockouts ≠ [] := fun h => by simp [h] at hlast
  obtain ⟨hsortedH, hlowH, hheadH⟩ := reverse_slotHashes hsorted hsh
  obtain ⟨hfit, hrej⟩ := vs.updateLoop_spec hne (fun _ hr hlt => vs.rootSlot_of_resetRoot hr hlt)
    hsortedH hlowH List.length_reverse hheadH
  by_cases hf : LoopFits earliest (vs.resetRoot earliest update.root) update.lockouts
    (slotHashes.reverse.map (·.1))
  swap
  · rcases hrej hf with ⟨e, he⟩ | ⟨i, rest, toFilter, hi, he⟩
    · simp [he] at h
    · simp [he, Nat.ne_of_lt hi] at h
  obtain ⟨rest, hloop, -⟩ := hfit hf
  simp only [hloop, Option.bind_some, ne_eq, not_true_eq_false, if_false] at h
  split at h
  · split_ifs at h
    · cases h
      refine ⟨last, ?_, all_lt_iff_not_any.mpr hold⟩
      rw [retainUnfiltered_indexesOf, List.mem_filter]
      exact ⟨List.mem_of_getLast? hlast, by simp [belowUnheld, hlt]⟩
    · cases h
  · cases h

/-! ### The update -/

/-- A vote state update accepted against slot hashes that strictly decrease replaces a
well-formed vote state by one that follows it: the root does not go back, and every lockout of
the old tower is kept with no fewer confirmations, rooted, or expired before the last vote and
every newer lockout of the new tower. -/
theorem process_vote_state_update_follows {vs vs' : VoteState} (hw : vs.WellFormed)
    {slotHashes : List (Slot × Hash)} (hsorted : (slotHashes.map (·.1)).Pairwise (· > ·))
    {epoch : Epoch} {update : VoteStateUpdate}
    (h : vs.processVoteStateUpdate slotHashes epoch update = some (.ok vs')) : Follows vs vs' := by
  obtain ⟨checked, hcheck, h⟩ := Option.bind_eq_some_iff.mp h
  rcases checked with e | update'
  · cases h
  obtain ⟨last, hlast, hnewer⟩ := last_mem_of_checkUpdate hsorted hcheck
  -- every current lockout is at most the last vote, so below the kept last lockout
  refine follows_of_processNewVoteState hw h fun v hv => ⟨last, hlast, ?_⟩
  cases hl : vs.lastVotedSlot with
  | none => simp [lastVotedSlot, lastLockout, List.getLast?_eq_none_iff] at hl; simp [hl] at hv
  | some l =>
    rw [hl, Option.all_some, decide_eq_true_eq] at hnewer
    exact (hw.slot_le_lastVotedSlot hv hl).trans hnewer.le

/-- A tower of one vote at slot 5, updated to the tower of slots 5 and 6 against the slot hashes
of slots 6 and 5: the vote at 5 is kept with one more confirmation. -/
theorem update_of_one_vote_follows :
    (⟨[⟨5, 1⟩], none, [], ⟨0, 0⟩⟩ : VoteState).WellFormed ∧
      (([(6, 1), (5, 0)] : List (Slot × Hash)).map (·.1)).Pairwise (· > ·) ∧
      (⟨[⟨5, 1⟩], none, [], ⟨0, 0⟩⟩ : VoteState).processVoteStateUpdate [(6, 1), (5, 0)] 0
          ⟨[⟨5, 2⟩, ⟨6, 1⟩], none, 1, none⟩ = some (.ok ⟨[⟨5, 2⟩, ⟨6, 1⟩], none, [], ⟨0, 0⟩⟩) ∧
      Follows ⟨[⟨5, 1⟩], none, [], ⟨0, 0⟩⟩ ⟨[⟨5, 2⟩, ⟨6, 1⟩], none, [], ⟨0, 0⟩⟩ :=
  have hw : (⟨[⟨5, 1⟩], none, [], ⟨0, 0⟩⟩ : VoteState).WellFormed :=
    ⟨by decide, List.isChain_singleton _, by simp, by simp [maxLockoutHistory], by simp⟩
  have hsorted : (([(6, 1), (5, 0)] : List (Slot × Hash)).map (·.1)).Pairwise (· > ·) := by
    decide
  have h : (⟨[⟨5, 1⟩], none, [], ⟨0, 0⟩⟩ : VoteState).processVoteStateUpdate [(6, 1), (5, 0)] 0
      ⟨[⟨5, 2⟩, ⟨6, 1⟩], none, 1, none⟩ = some (.ok ⟨[⟨5, 2⟩, ⟨6, 1⟩], none, [], ⟨0, 0⟩⟩) := by
    decide +kernel
  ⟨hw, hsorted, h, process_vote_state_update_follows hw hsorted h⟩

/-- Leaving the fork of slot 5 for slot 7 while the vote at 5 still locks up to slot 9. -/
example : (⟨[⟨5, 2⟩], none, [], ⟨0, 0⟩⟩ : VoteState).processVoteStateUpdate
    [(7, 1), (6, 0), (5, 0)] 0 ⟨[⟨7, 1⟩], none, 1, none⟩ = some (.error .lockoutConflict) := by
  decide +kernel

end VoteState

end VelasChain.VoteProgram
