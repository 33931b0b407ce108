import VelasChain.Vote.NewVoteState
import VelasChain.Stake.Rewards
import Mathlib.Data.List.ModifyLast

/-!
# The credit history of a vote account

A vote account earns a credit each time a lockout of its tower is rooted: when
`process_next_vote_slot` pops the bottom of a full stack, and when `process_new_vote_state` moves
the root. `increment_credits` books it in `epoch_credits`, one entry `(epoch, credits,
prev_credits)` per epoch: in a new epoch it opens an entry that starts from the credits so far,
or, when the last epoch earned nothing, moves that entry to the new epoch; it keeps the last
`MAX_EPOCH_CREDITS_HISTORY` entries.

As long as the epochs of the calls do not go back, the history stays well formed
(`EpochCredits.WellFormed`): the epochs increase, each entry starts where the one before it
ends and does not end below its start, and there are at most `MAX_EPOCH_CREDITS_HISTORY`
entries. Every credit booked adds one to `credits()` (`CreditsInv.incrementCredits`), so the
credits never go back from one call to the next (`CreditsInv.run`). What a call can do to the
history is said once (`CreditsStep`: leave it, or book one credit in the call's epoch) and each
method is shown to do only that.

A call that fails leaves the vote state as it was, since the vote program stores the state
only when its processing succeeds. A well-formed history is what the points calculation of the
stake program expects of the vote accounts it reads (`WellFormed.creditHistory`).
-/

namespace VelasChain.VoteProgram

namespace EpochCredits

/-- `b` may follow `a` in a credit history: it is for a later epoch, and it starts from the
credits `a` ends with. -/
def Link (a b : Epoch × ℕ × ℕ) : Prop := a.1 < b.1 ∧ b.2.2 = a.2.1

/-- The order and the links of a credit history, whatever its length. -/
structure Linked (epochCredits : List (Epoch × ℕ × ℕ)) : Prop where
  chain : epochCredits.IsChain Link
  prev_le : ∀ entry ∈ epochCredits, entry.2.2 ≤ entry.2.1

/-- A well-formed credit history: linked, with at most `MAX_EPOCH_CREDITS_HISTORY` entries. -/
structure WellFormed (epochCredits : List (Epoch × ℕ × ℕ)) : Prop extends Linked epochCredits where
  length_le : epochCredits.length ≤ maxEpochCreditsHistory

variable {l : List (Epoch × ℕ × ℕ)}

lemma Linked.nil : Linked [] := ⟨List.isChain_nil, by simp⟩

lemma WellFormed.nil : WellFormed [] := ⟨Linked.nil, by decide⟩

lemma Linked.drop (h : Linked l) (n : ℕ) : Linked (l.drop n) :=
  ⟨h.chain.drop n, fun entry hentry => h.prev_le entry (List.mem_of_mem_drop hentry)⟩

/-- An entry that ends no lower than it starts, and follows the last one, extends a linked
history. -/
lemma Linked.concat (h : Linked l) {x : Epoch × ℕ × ℕ} (hx : x.2.2 ≤ x.2.1)
    (hlink : ∀ y ∈ l.getLast?, Link y x) : Linked (l ++ [x]) := by
  refine ⟨h.chain.append (List.isChain_singleton x) fun y hy z hz => ?_, fun entry hentry => ?_⟩
  · rw [List.head?_singleton, Option.mem_some_iff] at hz
    subst hz
    exact hlink y hy
  · rcases List.mem_append.mp hentry with hentry | hentry
    · exact h.prev_le entry hentry
    · rw [List.mem_singleton.mp hentry]
      exact hx

lemma Linked.of_concat {x : Epoch × ℕ × ℕ} (h : Linked (l ++ [x])) :
    Linked l ∧ x.2.2 ≤ x.2.1 ∧ ∀ y ∈ l.getLast?, Link y x := by
  obtain ⟨hl, -, hlink⟩ := List.isChain_append.mp h.chain
  refine ⟨⟨hl, fun entry hentry => h.prev_le entry (by simp [hentry])⟩, h.prev_le x (by simp),
    fun y hy => hlink y hy x rfl⟩

/-- Along a linked history the credits never decrease, so no entry holds more than
`credits()`. -/
lemma Linked.le_credits {vs : VoteState} (h : Linked vs.epochCredits) {entry : Epoch × ℕ × ℕ}
    (hentry : entry ∈ vs.epochCredits) : entry.2.1 ≤ vs.credits := by
  have hchain : (vs.epochCredits.map (·.2.1)).IsChain (· ≤ ·) := by
    rw [List.isChain_map]
    refine h.chain.imp_of_mem_imp fun a b _ hb hab => ?_
    rw [← hab.2]
    exact h.prev_le b hb
  have hne : vs.epochCredits ≠ [] := List.ne_nil_of_mem hentry
  have hle := hchain.pairwise.rel_getLast (List.mem_map_of_mem hentry)
  simpa [VoteState.credits, List.getLast?_eq_some_getLast hne, List.getLast_map] using hle

/-- A history the vote program keeps is one the points calculation of the stake program reads
as it expects, as long as the credits fit the `u64` they are kept in. -/
theorem WellFormed.creditHistory {vs : VoteState} (h : WellFormed vs.epochCredits)
    (hcredits : vs.credits < 2 ^ 64) : StakeProgram.CreditHistory vs.epochCredits :=
  ⟨fun entry hentry => ⟨h.prev_le entry hentry, (h.le_credits hentry).trans_lt hcredits⟩,
    h.chain.imp fun _ _ hab => hab.2.ge⟩

end EpochCredits

namespace VoteState

open EpochCredits

variable {vs : VoteState} {epoch : Epoch}

/-- What `increment_credits` does to a well-formed history whose epochs are at most `epoch`:
the new history ends in an entry for `epoch` holding one more credit, which follows a linked
history short enough to leave room for it. -/
lemma incrementCredits_concat (hwf : EpochCredits.WellFormed vs.epochCredits)
    (hepoch : vs.currentEpoch ≤ epoch) :
    ∃ pre prev, (vs.incrementCredits epoch).epochCredits = pre ++ [(epoch, vs.credits + 1, prev)] ∧
      Linked pre ∧ pre.length < maxEpochCreditsHistory ∧ prev ≤ vs.credits ∧
      ∀ y ∈ pre.getLast?, Link y (epoch, vs.credits + 1, prev) := by
  rcases List.eq_nil_or_concat' vs.epochCredits with hnil | ⟨init, ⟨e, c, p⟩, hlast⟩
  · -- never seen a credit
    have hcredits : vs.credits = 0 := by simp [credits, hnil]
    refine ⟨[], 0, ?_, Linked.nil, by decide, by omega, by simp⟩
    simp only [incrementCredits, hnil, List.getLast?_nil, hcredits]
    exact List.modifyLast_concat _ _ []
  · have hcredits : vs.credits = c := by simp [credits, hlast]
    have hcurrent : vs.currentEpoch = e := by simp [currentEpoch, hlast]
    have hlinked : Linked (init ++ [(e, c, p)]) := hlast ▸ hwf.toLinked
    obtain ⟨hinit, hle, hlink⟩ := hlinked.of_concat
    have hlength : init.length < maxEpochCreditsHistory := by
      have := hwf.length_le
      rw [hlast, List.length_append, List.length_singleton] at this
      omega
    rw [hcredits]
    by_cases hsame : epoch = e
    · -- the same epoch: one more credit in its entry
      subst hsame
      refine ⟨init, p, ?_, hinit, hlength, hle, fun y hy => ⟨(hlink y hy).1, (hlink y hy).2⟩⟩
      simp [incrementCredits, hlast, List.modifyLast_concat]
    · have hlt : e < epoch := lt_of_le_of_ne (hcurrent ▸ hepoch) (Ne.symm hsame)
      by_cases hearned : c = p
      · -- the last epoch earned nothing: its entry moves to `epoch`
        subst hearned
        have hfits : ¬(init ++ [(epoch, c, c)]).length > maxEpochCreditsHistory := by
          simp only [List.length_append, List.length_singleton]
          omega
        refine ⟨init, c, ?_, hinit, hlength, le_rfl, fun y hy => ?_⟩
        · simp only [incrementCredits, hlast, List.getLast?_concat, ne_eq, hsame,
            not_false_eq_true, if_true, not_true_eq_false, if_false, List.dropLast_concat, hfits]
          exact List.modifyLast_concat _ _ _
        · exact ⟨(hlink y hy).1.trans hlt, (hlink y hy).2⟩
      · -- the last epoch earned credits: a new entry starts from them
        by_cases htrim : (init ++ [(e, c, p)] ++ [(epoch, c, c)]).length > maxEpochCreditsHistory
        · -- the oldest entry goes
          refine ⟨(init ++ [(e, c, p)]).drop 1, c, ?_, hlinked.drop 1, ?_, le_rfl, fun y hy => ?_⟩
          · simp only [incrementCredits, hlast, List.getLast?_concat, ne_eq, hsame, hearned,
              not_false_eq_true, if_true, htrim]
            rw [List.drop_append_of_le_length (by simp)]
            exact List.modifyLast_concat _ _ _
          · simp only [List.length_drop, List.length_append, List.length_singleton]
            omega
          · have hy' : y ∈ (init ++ [(e, c, p)]).getLast? := by
              rw [List.getLast?_drop] at hy
              split at hy
              · simp at hy
              · exact hy
            rw [List.getLast?_concat, Option.mem_some_iff] at hy'
            subst hy'
            exact ⟨hlt, rfl⟩
        · refine ⟨init ++ [(e, c, p)], c, ?_, hlinked, ?_, le_rfl, fun y hy => ?_⟩
          · simp only [incrementCredits, hlast, List.getLast?_concat, ne_eq, hsame, hearned,
              not_false_eq_true, if_true, htrim, if_false]
            exact List.modifyLast_concat _ _ _
          · simp only [List.length_append, List.length_singleton] at htrim ⊢
            omega
          · rw [List.getLast?_concat, Option.mem_some_iff] at hy
            subst hy
            exact ⟨hlt, rfl⟩

/-- What the calls keep of the credit history: it is well formed, and its epochs are at most
`epoch`, the epoch of the next call. -/
structure CreditsInv (epoch : Epoch) (vs : VoteState) : Prop where
  wellFormed : EpochCredits.WellFormed vs.epochCredits
  currentEpoch_le : vs.currentEpoch ≤ epoch

lemma CreditsInv.mono (h : vs.CreditsInv epoch) {epoch' : Epoch} (hle : epoch ≤ epoch') :
    vs.CreditsInv epoch' :=
  ⟨h.wellFormed, h.currentEpoch_le.trans hle⟩

lemma credits_of_epochCredits_eq {vs' : VoteState} (heq : vs'.epochCredits = vs.epochCredits) :
    vs'.credits = vs.credits := by
  simp [credits, heq]

/-- The invariant reads the history only. -/
lemma CreditsInv.of_epochCredits_eq {vs' : VoteState} (h : vs.CreditsInv epoch)
    (heq : vs'.epochCredits = vs.epochCredits) : vs'.CreditsInv epoch := by
  have hcurrent : vs'.currentEpoch = vs.currentEpoch := by simp [currentEpoch, heq]
  exact ⟨heq ▸ h.wellFormed, hcurrent ▸ h.currentEpoch_le⟩

/-- Booking a credit keeps the invariant and adds one to the credits. -/
theorem CreditsInv.incrementCredits (h : vs.CreditsInv epoch) :
    (vs.incrementCredits epoch).CreditsInv epoch ∧
      (vs.incrementCredits epoch).credits = vs.credits + 1 := by
  obtain ⟨pre, prev, heq, hpre, hlength, hprev, hlink⟩ :=
    incrementCredits_concat h.wellFormed h.currentEpoch_le
  have hwf : EpochCredits.WellFormed (vs.incrementCredits epoch).epochCredits := by
    rw [heq]
    refine ⟨hpre.concat (by dsimp only; omega) hlink, ?_⟩
    rw [List.length_append, List.length_singleton]
    omega
  refine ⟨⟨hwf, ?_⟩, ?_⟩
  · simp [currentEpoch, heq]
  · simp [credits, heq]

/-- What a call can do to the credit history: leave it, or book one credit in `epoch` on a
state with the same history. -/
def CreditsStep (epoch : Epoch) (vs vs' : VoteState) : Prop :=
  vs'.epochCredits = vs.epochCredits ∨
    ∃ w : VoteState, w.epochCredits = vs.epochCredits ∧
      vs'.epochCredits = (w.incrementCredits epoch).epochCredits

theorem CreditsInv.step {vs' : VoteState} (h : vs.CreditsInv epoch)
    (hstep : CreditsStep epoch vs vs') : vs'.CreditsInv epoch ∧ vs.credits ≤ vs'.credits := by
  rcases hstep with heq | ⟨w, hw, heq⟩
  · exact ⟨h.of_epochCredits_eq heq, (credits_of_epochCredits_eq heq).ge⟩
  · obtain ⟨hinv, hcredits⟩ := (h.of_epochCredits_eq hw).incrementCredits
    refine ⟨hinv.of_epochCredits_eq heq, ?_⟩
    rw [credits_of_epochCredits_eq heq, hcredits, credits_of_epochCredits_eq hw]
    omega

/-! ### The calls that book credits -/

lemma creditsStep_processNextVoteSlot (vs : VoteState) (slot : Slot) (epoch : Epoch) :
    CreditsStep epoch vs (vs.processNextVoteSlot slot epoch) := by
  unfold processNextVoteSlot
  split
  · exact .inl rfl
  · dsimp only
    split
    · split
      · -- the bottom of a full stack is rooted: one credit
        exact .inr ⟨_, rfl, rfl⟩
      · exact .inl rfl
    · exact .inl rfl

/-- The votes of `process_vote` are those of `process_next_vote_slot`, one slot after another,
in its epoch. -/
lemma processVote_eq_ok {vote : Vote} {slotHashes : List (Slot × Hash)}
    {featureSet : Option FeatureSet} {vs' : VoteState}
    (h : vs.processVote vote slotHashes epoch featureSet = .ok vs') :
    ∃ voteSlots : List Slot, vs' = voteSlots.foldl (fun vs s => vs.processNextVoteSlot s epoch) vs := by
  simp only [processVote] at h
  split at h
  · obtain ⟨_, hthrow, -⟩ := Except.bind_eq_ok_iff.mp h
    cases hthrow
  · split at h
    · obtain ⟨_, hthrow, -⟩ := Except.bind_eq_ok_iff.mp h
      cases hthrow
    · obtain ⟨-, -, hpure⟩ := Except.bind_eq_ok_iff.mp h
      exact ⟨_, (Except.ok.inj hpure).symm⟩

lemma processTimestamp_epochCredits {slot : Slot} {timestamp : ℤ} {vs' : VoteState}
    (h : vs.processTimestamp slot timestamp = .ok vs') : vs'.epochCredits = vs.epochCredits := by
  unfold processTimestamp at h
  split at h
  · cases h
  · cases h
    rfl

/-- The end of a successful `process_new_vote_state`: after the checks, the state stored keeps
the history of `w`, the state with the credit booked or not, whether `process_timestamp` ran on
it or not. -/
lemma epochCredits_of_checks_eq_ok {c₁ c₂ : Except VoteError Unit}
    {timestamped : Except VoteError VoteState} {w vs' : VoteState} {f : VoteState → VoteState}
    (h : (do c₁; c₂; let u ← timestamped; pure (f u)) = .ok vs')
    (hf : ∀ u, (f u).epochCredits = u.epochCredits)
    (htimestamped : ∀ u, timestamped = .ok u → u.epochCredits = w.epochCredits) :
    vs'.epochCredits = w.epochCredits := by
  obtain ⟨-, -, h⟩ := Except.bind_eq_ok_iff.mp h
  obtain ⟨-, -, h⟩ := Except.bind_eq_ok_iff.mp h
  obtain ⟨u, hu, hpure⟩ := Except.bind_eq_ok_iff.mp h
  cases hpure
  rw [hf, htimestamped u hu]

lemma creditsStep_processNewVoteState {newState : List Lockout} {newRoot : Option Slot}
    {timestamp : Option ℤ} {vs' : VoteState}
    (h : vs.processNewVoteState newState newRoot timestamp epoch = some (.ok vs')) :
    CreditsStep epoch vs vs' := by
  simp only [processNewVoteState] at h
  generalize hw : (if vs.rootSlot ≠ newRoot then vs.incrementCredits epoch else vs) = w at h
  suffices hcredits : vs'.epochCredits = w.epochCredits by
    split at hw
    · exact .inr ⟨vs, rfl, hw ▸ hcredits⟩
    · exact .inl (hw ▸ hcredits)
  split at h
  · cases h
  · rw [Option.some_inj] at h
    -- a failed check throws; every check passed ends the same way
    repeat' split at h
    all_goals first
      | (obtain ⟨_, hthrow, -⟩ := Except.bind_eq_ok_iff.mp h; cases hthrow)
      | exact epochCredits_of_checks_eq_ok h (fun _ => rfl) fun _ hu => processTimestamp_epochCredits hu
      | exact epochCredits_of_checks_eq_ok h (fun _ => rfl) fun _ hu => (Except.ok.inj hu).symm ▸ rfl

/-- Booking credits in `process_vote`, one vote after another, keeps the invariant. -/
lemma CreditsInv.foldl_processNextVoteSlot (voteSlots : List Slot) (h : vs.CreditsInv epoch) :
    (voteSlots.foldl (fun vs s => vs.processNextVoteSlot s epoch) vs).CreditsInv epoch ∧
      vs.credits ≤ (voteSlots.foldl (fun vs s => vs.processNextVoteSlot s epoch) vs).credits := by
  induction voteSlots generalizing vs with
  | nil => exact ⟨h, le_rfl⟩
  | cons slot voteSlots ih =>
    obtain ⟨hinv, hle⟩ := h.step (creditsStep_processNextVoteSlot vs slot epoch)
    obtain ⟨hinv', hle'⟩ := ih hinv
    exact ⟨hinv', hle.trans hle'⟩

end VoteState

/-- A call of one of the `VoteState` methods that book credits, with its arguments. -/
inductive VoteCall where
  | processNextVoteSlot (nextVoteSlot : Slot) (epoch : Epoch)
  | processVote (vote : Vote) (slotHashes : List (Slot × Hash)) (epoch : Epoch)
      (featureSet : Option FeatureSet)
  | processNewVoteState (newState : List Lockout) (newRoot : Option Slot) (timestamp : Option ℤ)
      (epoch : Epoch)
  deriving DecidableEq, Repr

namespace VoteCall

/-- The epoch a call books its credits in. -/
def epoch : VoteCall → Epoch
  | processNextVoteSlot _ epoch | processVote _ _ epoch _ | processNewVoteState _ _ _ epoch => epoch

/-- The vote state a call leaves: the vote program stores the state only when its processing
succeeds, so a call that fails, or panics, leaves it as it was. -/
def run (vs : VoteState) : VoteCall → VoteState
  | processNextVoteSlot nextVoteSlot epoch => vs.processNextVoteSlot nextVoteSlot epoch
  | processVote vote slotHashes epoch featureSet =>
    match vs.processVote vote slotHashes epoch featureSet with
    | .ok vs' => vs'
    | .error _ => vs
  | processNewVoteState newState newRoot timestamp epoch =>
    match vs.processNewVoteState newState newRoot timestamp epoch with
    | some (.ok vs') => vs'
    | _ => vs

end VoteCall

/-- Two changes of the root from a fresh vote state, in epochs 0 and 2: the second epoch opens
its own entry, since the first earned a credit. -/
example : ([VoteCall.processNewVoteState [⟨5, 1⟩] (some 3) none 0,
    .processNewVoteState [⟨5, 2⟩, ⟨6, 1⟩] (some 4) none 2].foldl VoteCall.run
      VoteState.default).epochCredits = [(0, 1, 0), (2, 2, 1)] := by
  decide +kernel

namespace VoteState

open EpochCredits

variable {vs : VoteState}

/-- One call in its epoch keeps the invariant and does not take credits back. -/
theorem CreditsInv.run {call : VoteCall} (h : vs.CreditsInv call.epoch) :
    (call.run vs).CreditsInv call.epoch ∧ vs.credits ≤ (call.run vs).credits := by
  cases call with
  | processNextVoteSlot slot epoch => exact h.step (creditsStep_processNextVoteSlot vs slot epoch)
  | processVote vote slotHashes epoch featureSet =>
    simp only [VoteCall.run]
    split
    · rename_i vs' hvote
      obtain ⟨voteSlots, rfl⟩ := processVote_eq_ok hvote
      exact h.foldl_processNextVoteSlot voteSlots
    · exact ⟨h, le_rfl⟩
  | processNewVoteState newState newRoot timestamp epoch =>
    simp only [VoteCall.run]
    split
    · rename_i vs' hnew
      exact h.step (creditsStep_processNewVoteState hnew)
    · exact ⟨h, le_rfl⟩

theorem epoch_credits_stay_well_formed (vs : VoteState)
    (hwf : EpochCredits.WellFormed vs.epochCredits) (calls : List VoteCall)
    (hepochs : (vs.currentEpoch :: calls.map VoteCall.epoch).IsChain (· ≤ ·)) :
    (∀ vs' ∈ calls.scanl VoteCall.run vs, EpochCredits.WellFormed vs'.epochCredits) ∧
      (calls.scanl VoteCall.run vs).IsChain fun a b => a.credits ≤ b.credits := by
  induction calls generalizing vs with
  | nil => simpa using hwf
  | cons call calls ih =>
    rw [List.map_cons, List.isChain_cons_cons] at hepochs
    -- the call keeps the history and the credits, and the calls after it start from its epoch
    obtain ⟨hinv, hle⟩ := CreditsInv.run (show vs.CreditsInv call.epoch from ⟨hwf, hepochs.1⟩)
    have hnext : ((call.run vs).currentEpoch :: calls.map VoteCall.epoch).IsChain (· ≤ ·) := by
      rw [List.isChain_cons]
      refine ⟨fun e he => hinv.currentEpoch_le.trans ?_, hepochs.2.tail⟩
      exact (List.isChain_cons.mp hepochs.2).1 e he
    obtain ⟨hwf', hchain⟩ := ih (call.run vs) hinv.wellFormed hnext
    rw [List.scanl_cons]
    refine ⟨fun vs' hvs' => ?_, List.isChain_cons.mpr ⟨fun b hb => ?_, hchain⟩⟩
    · rcases List.mem_cons.mp hvs' with rfl | hvs'
      · exact hwf
      · exact hwf' vs' hvs'
    · rw [List.head?_scanl, Option.mem_some_iff] at hb
      subst hb
      exact hle

/-- Two root changes, in epochs 0 and 2, from a fresh vote state. -/
theorem epoch_credits_of_two_roots :
    EpochCredits.WellFormed VoteState.default.epochCredits ∧
      (VoteState.default.currentEpoch :: [VoteCall.processNewVoteState [⟨5, 1⟩] (some 3) none 0,
          .processNewVoteState [⟨5, 2⟩, ⟨6, 1⟩] (some 4) none 2].map VoteCall.epoch).IsChain
        (· ≤ ·) ∧
      (∀ vs' ∈ [VoteCall.processNewVoteState [⟨5, 1⟩] (some 3) none 0,
          .processNewVoteState [⟨5, 2⟩, ⟨6, 1⟩] (some 4) none 2].scanl VoteCall.run
            VoteState.default,
          EpochCredits.WellFormed vs'.epochCredits) ∧
      ([VoteCall.processNewVoteState [⟨5, 1⟩] (some 3) none 0,
          .processNewVoteState [⟨5, 2⟩, ⟨6, 1⟩] (some 4) none 2].scanl VoteCall.run
            VoteState.default).IsChain fun a b => a.credits ≤ b.credits :=
  ⟨EpochCredits.WellFormed.nil, by decide,
    epoch_credits_stay_well_formed VoteState.default EpochCredits.WellFormed.nil _ (by decide)⟩

end VoteState

end VelasChain.VoteProgram
