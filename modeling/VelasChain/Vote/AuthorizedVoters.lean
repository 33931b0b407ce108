import VelasChain.Lib.SortedMap

/-!
# Authorized voters

A vote account records who may sign its votes as a `BTreeMap` from epochs to voters: a voter
holds from its epoch on, until the next entry. Every instruction that checks the voter first looks
up the voter of the current epoch, caches it under that epoch and purges the entries of earlier
epochs (`get_and_update_authorized_voter`). `authorize` sets a new voter from the epoch after the
leader schedule epoch of the clock, so that it never changes who votes in an epoch whose leader
schedule is already fixed; it refuses to set one twice for the same epoch, and it asserts that the
new entry is the last one.

The map is a list of entries in increasing epoch order, and `SortedMap.floor` is the voter it
holds at an epoch. Along any run of the instructions from `VoteState::new` whose clocks do not go
back (`ClocksMonotone`), no assertion fires, and each instruction changes the voter of no epoch
from its clock's on, except that a successful authorization sets the new voter from the epoch
after its leader schedule epoch (`authorize_voter_takes_effect_after_leader_schedule`). The vote
state keeps only the fields that these instructions read or write; the votes themselves are the
subject of `VelasChain.VoteProgram.VoteState`, and whether a vote is accepted is a parameter here.
-/

namespace VelasChain.VoteProgram

open SortedMap

variable {P : Type}

/-- The fields of `Clock` that the authorization checks read. -/
structure Clock where
  epoch : ℕ
  leaderScheduleEpoch : ℕ
  deriving DecidableEq, Repr

/-- `AuthorizedVoters::get_or_calculate_authorized_voter_for_epoch`: the voter of the epoch, and
whether the map has an entry for it. -/
def getOrCalculateAuthorizedVoterForEpoch (authorizedVoters : List (ℕ × P)) (epoch : ℕ) :
    Option (P × Bool) :=
  match get authorizedVoters epoch with
  | some pubkey => some (pubkey, true)
  | none => (lastBelow authorizedVoters epoch).map fun entry => (entry.2, false)

/-- `AuthorizedVoters::get_authorized_voter`. -/
def getAuthorizedVoter (authorizedVoters : List (ℕ × P)) (epoch : ℕ) : Option P :=
  (getOrCalculateAuthorizedVoterForEpoch authorizedVoters epoch).map (·.1)

/-- `AuthorizedVoters::get_and_cache_authorized_voter_for_epoch`: the voter of the epoch, entered
under the epoch where the map has no entry for it. -/
def getAndCacheAuthorizedVoterForEpoch (authorizedVoters : List (ℕ × P)) (epoch : ℕ) :
    Option P × List (ℕ × P) :=
  match getOrCalculateAuthorizedVoterForEpoch authorizedVoters epoch with
  | none => (none, authorizedVoters)
  | some (pubkey, existed) =>
    (some pubkey,
      if existed then authorizedVoters
      else upsert (fun _ => pubkey) epoch pubkey authorizedVoters)

/-- `AuthorizedVoters::purge_authorized_voters`; `none` where its assertion that an entry is left
fires. -/
def purgeAuthorizedVoters (authorizedVoters : List (ℕ × P)) (currentEpoch : ℕ) :
    Option (List (ℕ × P)) :=
  let authorizedVoters := dropBelow currentEpoch authorizedVoters
  if authorizedVoters.isEmpty then none else some authorizedVoters

/-- The fields of `VoteState` that the authorization instructions read or write. -/
structure VoteStateAuth (P : Type) where
  nodePubkey : P
  authorizedWithdrawer : P
  commission : ℕ
  authorizedVoters : List (ℕ × P)
  priorVoters : List (P × ℕ × ℕ)
  deriving DecidableEq

/-- `VoteInit`. -/
structure VoteInit (P : Type) where
  nodePubkey : P
  authorizedVoter : P
  authorizedWithdrawer : P
  commission : ℕ

/-- `VoteState::new`. -/
def VoteStateAuth.new (voteInit : VoteInit P) (clock : Clock) : VoteStateAuth P :=
  ⟨voteInit.nodePubkey, voteInit.authorizedWithdrawer, voteInit.commission,
    [(clock.epoch, voteInit.authorizedVoter)], []⟩

/-- The errors the authorization instructions return; `voteRejected` stands for every error of
processing the votes themselves. -/
inductive AuthorizeError where
  | invalidAccountData
  | missingRequiredSignature
  | uninitializedAccount
  | tooSoonToReauthorize
  | voteRejected
  deriving DecidableEq, Repr

/-- `VoteState::get_and_update_authorized_voter`; `none` where the purge panics. -/
def getAndUpdateAuthorizedVoter (voteState : VoteStateAuth P) (currentEpoch : ℕ) :
    Option (Except AuthorizeError (P × VoteStateAuth P)) :=
  match getAndCacheAuthorizedVoterForEpoch voteState.authorizedVoters currentEpoch with
  | (none, _) => some (.error .invalidAccountData)
  | (some pubkey, authorizedVoters) =>
    (purgeAuthorizedVoters authorizedVoters currentEpoch).map fun authorizedVoters =>
      .ok (pubkey, { voteState with authorizedVoters := authorizedVoters })

/-! ### Looking up, caching and purging -/

section Lookup

variable {authorizedVoters : List (ℕ × P)} {epoch : ℕ} {voter : P}

/-- On a map in epoch order, the voter of an epoch is the one the map holds there. -/
lemma getAuthorizedVoter_eq (hm : Sorted authorizedVoters) :
    getAuthorizedVoter authorizedVoters epoch = floor authorizedVoters epoch := by
  unfold getAuthorizedVoter getOrCalculateAuthorizedVoterForEpoch
  cases h : get authorizedVoters epoch with
  | some v => simp [floor_of_get hm h]
  | none =>
    rw [floor_of_get_eq_none hm h, Option.map_map]
    rfl

/-- Where the map holds `voter` at `epoch`, caching returns it and enters it under the epoch (an
entry already there holds it). -/
lemma getAndCacheAuthorizedVoterForEpoch_eq (hm : Sorted authorizedVoters)
    (hv : floor authorizedVoters epoch = some voter) :
    getAndCacheAuthorizedVoterForEpoch authorizedVoters epoch =
      (some voter, upsert (fun _ => voter) epoch voter authorizedVoters) := by
  unfold getAndCacheAuthorizedVoterForEpoch getOrCalculateAuthorizedVoterForEpoch
  cases h : get authorizedVoters epoch with
  | some w =>
    have hw : w = voter := Option.some.inj ((floor_of_get hm h).symm.trans hv)
    subst hw
    simp [upsert_of_get hm h]
  | none =>
    rw [floor_of_get_eq_none hm h] at hv
    obtain ⟨entry, hentry, rfl⟩ := Option.map_eq_some_iff.mp hv
    simp [hentry]

/-- The map after the voter of `epoch` is cached and the entries before `epoch` are purged. -/
def cachedVoters (authorizedVoters : List (ℕ × P)) (epoch : ℕ) (voter : P) : List (ℕ × P) :=
  dropBelow epoch (upsert (fun _ => voter) epoch voter authorizedVoters)

lemma epoch_mem_cachedVoters :
    epoch ∈ (cachedVoters authorizedVoters epoch voter).map (·.1) :=
  mem_keys_dropBelow.mpr ⟨(mem_keys_upsert _ _).mpr (.inl rfl), le_rfl⟩

lemma mem_cachedVoters {k : ℕ} :
    k ∈ (cachedVoters authorizedVoters epoch voter).map (·.1) ↔
      (k = epoch ∨ k ∈ authorizedVoters.map (·.1)) ∧ epoch ≤ k := by
  rw [cachedVoters, mem_keys_dropBelow, mem_keys_upsert]

lemma sorted_cachedVoters (hm : Sorted authorizedVoters) :
    Sorted (cachedVoters authorizedVoters epoch voter) :=
  sorted_dropBelow (sorted_upsert hm)

/-- Caching and purging change nothing from `epoch` on. -/
lemma floor_cachedVoters (hm : Sorted authorizedVoters)
    (hv : floor authorizedVoters epoch = some voter) {e : ℕ} (he : epoch ≤ e) :
    floor (cachedVoters authorizedVoters epoch voter) e = floor authorizedVoters e := by
  rw [cachedVoters, floor_dropBelow (sorted_upsert hm) ((mem_keys_upsert _ _).mpr (.inl rfl)) he,
    floor_upsert_floor hm hv he]

lemma getAndUpdateAuthorizedVoter_eq {voteState : VoteStateAuth P}
    (hm : Sorted voteState.authorizedVoters)
    (hv : floor voteState.authorizedVoters epoch = some voter) :
    getAndUpdateAuthorizedVoter voteState epoch =
      some (.ok (voter, { voteState with
        authorizedVoters := cachedVoters voteState.authorizedVoters epoch voter })) := by
  unfold getAndUpdateAuthorizedVoter
  rw [getAndCacheAuthorizedVoterForEpoch_eq hm hv]
  dsimp only
  unfold purgeAuthorizedVoters
  rw [if_neg]
  · rfl
  · -- the cached entry is not purged
    intro hempty
    have hmem : epoch ∈ (cachedVoters voteState.authorizedVoters epoch voter).map (·.1) :=
      epoch_mem_cachedVoters
    rw [cachedVoters, List.isEmpty_iff.mp hempty] at hmem
    simp at hmem

end Lookup

variable [DecidableEq P]

/-- `VoteState::set_new_authorized_voter`; `none` where its assertion that the new entry comes
last fires. -/
def setNewAuthorizedVoter (voteState : VoteStateAuth P) (authorizedPubkey : P)
    (currentEpoch targetEpoch : ℕ) (verify : P → Bool) :
    Option (Except AuthorizeError (VoteStateAuth P)) :=
  match getAndUpdateAuthorizedVoter voteState currentEpoch with
  | none => none
  | some (.error e) => some (.error e)
  | some (.ok (epochAuthorizedVoter, voteState)) =>
    if !verify epochAuthorizedVoter then some (.error .missingRequiredSignature)
    else if (get voteState.authorizedVoters targetEpoch).isSome then
      some (.error .tooSoonToReauthorize)
    else
      match voteState.authorizedVoters.getLast? with
      | none => some (.error .invalidAccountData)
      | some (latestEpoch, latestAuthorizedPubkey) =>
        let authorizedVoters :=
          upsert (fun _ => authorizedPubkey) targetEpoch authorizedPubkey voteState.authorizedVoters
        if latestAuthorizedPubkey ≠ authorizedPubkey then
          if targetEpoch > latestEpoch then
            let epochOfLastAuthorizedSwitch := (voteState.priorVoters.getLast?.map (·.2.2)).getD 0
            some (.ok { voteState with
              priorVoters := voteState.priorVoters ++
                [(latestAuthorizedPubkey, epochOfLastAuthorizedSwitch, targetEpoch)]
              authorizedVoters := authorizedVoters })
          else none
        else some (.ok { voteState with authorizedVoters := authorizedVoters })

/-- `VoteAuthorize`. -/
inductive VoteAuthorize where
  | voter
  | withdrawer
  deriving DecidableEq, Repr

/-- `authorize`; `withdrawerMayChangeVoter` is whether the feature
`vote_withdraw_authority_may_change_authorized_voter` is active. -/
def authorize (voteState : VoteStateAuth P) (authorized : P) (voteAuthorize : VoteAuthorize)
    (signers : List P) (clock : Clock) (withdrawerMayChangeVoter : Bool) :
    Option (Except AuthorizeError (VoteStateAuth P)) :=
  match voteAuthorize with
  | .voter =>
    let authorizedWithdrawerSigner :=
      withdrawerMayChangeVoter && decide (voteState.authorizedWithdrawer ∈ signers)
    setNewAuthorizedVoter voteState authorized clock.epoch (clock.leaderScheduleEpoch + 1)
      fun epochAuthorizedVoter =>
        authorizedWithdrawerSigner || decide (epochAuthorizedVoter ∈ signers)
  | .withdrawer =>
    if voteState.authorizedWithdrawer ∈ signers then
      some (.ok { voteState with authorizedWithdrawer := authorized })
    else some (.error .missingRequiredSignature)

/-- `verify_and_get_vote_state`: an initialized account whose voter of the current epoch signed. -/
def verifyAndGetVoteState (voteState : VoteStateAuth P) (clock : Clock) (signers : List P) :
    Option (Except AuthorizeError (VoteStateAuth P)) :=
  if voteState.authorizedVoters.isEmpty then some (.error .uninitializedAccount)
  else
    match getAndUpdateAuthorizedVoter voteState clock.epoch with
    | none => none
    | some (.error e) => some (.error e)
    | some (.ok (authorizedVoter, voteState)) =>
      if authorizedVoter ∈ signers then some (.ok voteState)
      else some (.error .missingRequiredSignature)

/-- `process_vote` and `process_vote_state_update`, as far as the authorities go: the signature
check, and then the votes, which are accepted or not. -/
def processVote (voteState : VoteStateAuth P) (clock : Clock) (signers : List P)
    (accepted : Bool) : Option (Except AuthorizeError (VoteStateAuth P)) :=
  match verifyAndGetVoteState voteState clock signers with
  | none => none
  | some (.error e) => some (.error e)
  | some (.ok voteState) => if accepted then some (.ok voteState) else some (.error .voteRejected)

/-- `update_validator_identity`. -/
def updateValidatorIdentity (voteState : VoteStateAuth P) (nodePubkey : P) (signers : List P) :
    Option (Except AuthorizeError (VoteStateAuth P)) :=
  if voteState.authorizedWithdrawer ∉ signers then some (.error .missingRequiredSignature)
  else if nodePubkey ∉ signers then some (.error .missingRequiredSignature)
  else some (.ok { voteState with nodePubkey := nodePubkey })

/-- `update_commission`. -/
def updateCommission (voteState : VoteStateAuth P) (commission : ℕ) (signers : List P) :
    Option (Except AuthorizeError (VoteStateAuth P)) :=
  if voteState.authorizedWithdrawer ∉ signers then some (.error .missingRequiredSignature)
  else some (.ok { voteState with commission := commission })

/-- The instructions that read or write the authorities of a vote account. -/
inductive VoteInstruction (P : Type) where
  | authorize (authorized : P) (voteAuthorize : VoteAuthorize) (signers : List P) (clock : Clock)
      (withdrawerMayChangeVoter : Bool)
  | vote (signers : List P) (clock : Clock) (accepted : Bool)
  | updateValidatorIdentity (nodePubkey : P) (signers : List P)
  | updateCommission (commission : ℕ) (signers : List P)

/-- One instruction on the vote account; `none` where it panics. -/
def VoteInstruction.process (voteState : VoteStateAuth P) :
    VoteInstruction P → Option (Except AuthorizeError (VoteStateAuth P))
  | .authorize authorized voteAuthorize signers clock withdrawerMayChangeVoter =>
    VoteProgram.authorize voteState authorized voteAuthorize signers clock withdrawerMayChangeVoter
  | .vote signers clock accepted => processVote voteState clock signers accepted
  | .updateValidatorIdentity nodePubkey signers =>
    VoteProgram.updateValidatorIdentity voteState nodePubkey signers
  | .updateCommission commission signers =>
    VoteProgram.updateCommission voteState commission signers

/-- Instructions on the vote account one after another: a failed one leaves the account as it
was; `none` where one panics. -/
def processInstructions (voteState : VoteStateAuth P) :
    List (VoteInstruction P) → Option (VoteStateAuth P)
  | [] => some voteState
  | instruction :: rest =>
    match instruction.process voteState with
    | none => none
    | some (.error _) => processInstructions voteState rest
    | some (.ok voteState) => processInstructions voteState rest

/-- The clock an instruction reads. -/
def VoteInstruction.clock? : VoteInstruction P → Option Clock
  | .authorize _ _ _ clock _ => some clock
  | .vote _ clock _ => some clock
  | .updateValidatorIdentity _ _ => none
  | .updateCommission _ _ => none

/-- `c'` follows `c`, as the bank's clocks do: neither epoch goes back, and the epoch is at most
the leader schedule epoch. -/
def Clock.Follows (c c' : Clock) : Prop :=
  c.epoch ≤ c'.epoch ∧ c.leaderScheduleEpoch ≤ c'.leaderScheduleEpoch ∧
    c'.epoch ≤ c'.leaderScheduleEpoch

/-- The clocks the instructions read, from `c` on, each following the one before. -/
def ClocksMonotone (c : Clock) : List (VoteInstruction P) → Prop
  | [] => True
  | instruction :: rest =>
    match instruction.clock? with
    | none => ClocksMonotone c rest
    | some c' => c.Follows c' ∧ ClocksMonotone c' rest

/-- The last clock the instructions read, or `c`. -/
def lastClock (c : Clock) : List (VoteInstruction P) → Clock
  | [] => c
  | instruction :: rest => lastClock ((instruction.clock?).getD c) rest

/-- What a successful instruction may do to the voters, from `voteState` to `voteState'`. A voter
authorization under clock `c` keeps the voter of every epoch from `c`'s epoch up to its leader
schedule epoch and sets the new voter from the next epoch on, and it was signed by the voter of
`c`'s epoch or, where the feature lets it, by the withdrawer. A vote was signed by the voter of its
clock's epoch and changes the voter of no epoch from that one on. The other instructions leave the
voters as they are. -/
def VoteInstruction.AuthorityEffect (voteState voteState' : VoteStateAuth P) :
    VoteInstruction P → Prop
  | .authorize authorized .voter signers clock withdrawerMayChangeVoter =>
    (∀ e, clock.epoch ≤ e → e ≤ clock.leaderScheduleEpoch →
      getAuthorizedVoter voteState'.authorizedVoters e =
        getAuthorizedVoter voteState.authorizedVoters e) ∧
    (∀ e, clock.leaderScheduleEpoch < e →
      getAuthorizedVoter voteState'.authorizedVoters e = some authorized) ∧
    ((withdrawerMayChangeVoter = true ∧ voteState.authorizedWithdrawer ∈ signers) ∨
      ∃ voter, getAuthorizedVoter voteState.authorizedVoters clock.epoch = some voter ∧
        voter ∈ signers)
  | .authorize _ .withdrawer _ _ _ =>
    voteState'.authorizedVoters = voteState.authorizedVoters
  | .vote signers clock _ =>
    (∃ voter, getAuthorizedVoter voteState.authorizedVoters clock.epoch = some voter ∧
      voter ∈ signers) ∧
    ∀ e, clock.epoch ≤ e →
      getAuthorizedVoter voteState'.authorizedVoters e =
        getAuthorizedVoter voteState.authorizedVoters e
  | .updateValidatorIdentity _ _ => voteState'.authorizedVoters = voteState.authorizedVoters
  | .updateCommission _ _ => voteState'.authorizedVoters = voteState.authorizedVoters

/-! ### The invariant, instruction by instruction -/

section Invariant

variable {voteState voteState' : VoteStateAuth P} {c : Clock} {voter : P}

/-- What every state that the instructions reach keeps, with `c` the last clock they read: the
voters are in epoch order, none is set past the epoch after the leader schedule epoch, and a voter
holds at the current epoch, which is at most the leader schedule epoch. -/
structure VoteStateAuth.Inv (voteState : VoteStateAuth P) (c : Clock) : Prop where
  sorted : Sorted voteState.authorizedVoters
  epoch_le : ∀ p ∈ voteState.authorizedVoters, p.1 ≤ c.leaderScheduleEpoch + 1
  clock_le : c.epoch ≤ c.leaderScheduleEpoch
  floor_isSome : (floor voteState.authorizedVoters c.epoch).isSome

omit [DecidableEq P] in
lemma VoteStateAuth.inv_new (voteInit : VoteInit P) {clock : Clock}
    (h : clock.epoch ≤ clock.leaderScheduleEpoch) :
    (VoteStateAuth.new voteInit clock).Inv clock where
  sorted := by simp [VoteStateAuth.new, Sorted]
  epoch_le p hp := by
    simp only [VoteStateAuth.new, List.mem_singleton] at hp
    subst hp
    omega
  clock_le := h
  floor_isSome := by simp [VoteStateAuth.new, floor]

omit [DecidableEq P] in
/-- The invariant holds on with a clock that follows. -/
lemma VoteStateAuth.Inv.follows {c' : Clock} (hinv : voteState.Inv c) (hc : c.Follows c') :
    voteState.Inv c' where
  sorted := hinv.sorted
  epoch_le p hp := by
    have := hinv.epoch_le p hp
    have := hc.2.1
    omega
  clock_le := hc.2.2
  floor_isSome := by
    obtain ⟨q, hq, hle⟩ := (floor_isSome_iff hinv.sorted).mp hinv.floor_isSome
    exact (floor_isSome_iff hinv.sorted).mpr ⟨q, hq, hle.trans hc.1⟩

omit [DecidableEq P] in
lemma VoteStateAuth.Inv.exists_voter (hinv : voteState.Inv c) :
    ∃ voter, floor voteState.authorizedVoters c.epoch = some voter :=
  Option.isSome_iff_exists.mp hinv.floor_isSome

omit [DecidableEq P] in
/-- Caching and purging at the clock's epoch keep the invariant. -/
lemma VoteStateAuth.Inv.cached (hinv : voteState.Inv c)
    (hv : floor voteState.authorizedVoters c.epoch = some voter) :
    VoteStateAuth.Inv
      { voteState with authorizedVoters := cachedVoters voteState.authorizedVoters c.epoch voter }
      c where
  sorted := sorted_cachedVoters hinv.sorted
  epoch_le p hp := by
    rcases (mem_cachedVoters.mp (List.mem_map_of_mem (f := (·.1)) hp)).1 with h | h
    · have := hinv.clock_le
      omega
    · obtain ⟨q, hq, hqe⟩ := List.mem_map.mp h
      exact hqe ▸ hinv.epoch_le q hq
  clock_le := hinv.clock_le
  floor_isSome := by
    simp only
    rw [floor_cachedVoters hinv.sorted hv le_rfl, hv]
    rfl

/-- Setting a voter from the epoch after the leader schedule epoch never panics; where it
succeeds, the voter of the clock's epoch passed the check, and the new voter is entered after the
cached map. -/
lemma setNewAuthorizedVoter_spec (hinv : voteState.Inv c) (authorizedPubkey : P) (verify : P → Bool) :
    ∃ voter, floor voteState.authorizedVoters c.epoch = some voter ∧
      setNewAuthorizedVoter voteState authorizedPubkey c.epoch (c.leaderScheduleEpoch + 1)
          verify ≠ none ∧
      ∀ voteState', setNewAuthorizedVoter voteState authorizedPubkey c.epoch
          (c.leaderScheduleEpoch + 1) verify = some (.ok voteState') →
        verify voter = true ∧ voteState'.authorizedVoters =
          upsert (fun _ => authorizedPubkey) (c.leaderScheduleEpoch + 1) authorizedPubkey
            (cachedVoters voteState.authorizedVoters c.epoch voter) := by
  obtain ⟨voter, hv⟩ := hinv.exists_voter
  refine ⟨voter, hv, ?_⟩
  have hcached := hinv.cached hv
  unfold setNewAuthorizedVoter
  rw [getAndUpdateAuthorizedVoter_eq hinv.sorted hv]
  dsimp only
  by_cases hverify : verify voter = true
  · by_cases htaken : (get (cachedVoters voteState.authorizedVoters c.epoch voter)
        (c.leaderScheduleEpoch + 1)).isSome
    · simp [hverify, htaken]
    · -- the new epoch is not taken, so every entry is before it and the assertion holds
      have hlt : ∀ p ∈ cachedVoters voteState.authorizedVoters c.epoch voter,
          p.1 < c.leaderScheduleEpoch + 1 := by
        intro p hp
        refine lt_of_le_of_ne (hcached.epoch_le p hp) fun heq => htaken ?_
        have hkey : c.leaderScheduleEpoch + 1 ∈
            (cachedVoters voteState.authorizedVoters c.epoch voter).map (·.1) := by
          rw [← heq]
          exact List.mem_map_of_mem hp
        exact Option.isSome_iff_ne_none.mpr fun hnone => get_eq_none_iff.mp hnone hkey
      cases hlast : (cachedVoters voteState.authorizedVoters c.epoch voter).getLast? with
      | none => simp [hverify, htaken]
      | some entry =>
        obtain ⟨latestEpoch, latestPubkey⟩ := entry
        have hlatest : latestEpoch < c.leaderScheduleEpoch + 1 :=
          hlt _ (List.mem_of_getLast? hlast)
        by_cases hsame : latestPubkey = authorizedPubkey
        · simp only [hverify, htaken, hsame, Bool.not_true, Bool.false_eq_true,
            if_false, ne_eq, not_true_eq_false]
          refine ⟨by simp, ?_⟩
          intro voteState' h
          cases h
          exact ⟨trivial, rfl⟩
        · simp only [hverify, htaken, hsame, hlatest, Bool.not_true, Bool.false_eq_true,
            if_false, ne_eq, not_false_eq_true, if_true]
          refine ⟨by simp, ?_⟩
          intro voteState' h
          cases h
          exact ⟨trivial, rfl⟩
  · simp [hverify]

omit [DecidableEq P] in
/-- The invariant reads only the voters. -/
lemma VoteStateAuth.Inv.of_authorizedVoters_eq (hinv : voteState.Inv c)
    (h : voteState'.authorizedVoters = voteState.authorizedVoters) : voteState'.Inv c := by
  obtain ⟨hsorted, hepoch, hclock, hfloor⟩ := hinv
  exact ⟨h ▸ hsorted, h ▸ hepoch, hclock, h ▸ hfloor⟩

omit [DecidableEq P] in
lemma VoteStateAuth.Inv.next (hinv : voteState.Inv c) {instruction : VoteInstruction P}
    (hc : ClocksMonotone c [instruction]) : voteState.Inv ((instruction.clock?).getD c) := by
  cases h : instruction.clock? with
  | none => exact hinv
  | some c' =>
    simp only [ClocksMonotone, h] at hc
    exact hinv.follows hc.1

omit [DecidableEq P] in
lemma clocksMonotone_cons {instruction : VoteInstruction P} {rest : List (VoteInstruction P)} :
    ClocksMonotone c (instruction :: rest) ↔
      ClocksMonotone c [instruction] ∧ ClocksMonotone ((instruction.clock?).getD c) rest := by
  cases h : instruction.clock? <;> simp [ClocksMonotone, h]

/-- An instruction on a state with the invariant at `c`, its clock: it does not panic, and where it
succeeds it has its effect and keeps the invariant. -/
structure StepOk (voteState : VoteStateAuth P) (c : Clock) (instruction : VoteInstruction P) :
    Prop where
  ne_none : instruction.process voteState ≠ none
  ok : ∀ voteState', instruction.process voteState = some (.ok voteState') →
    instruction.AuthorityEffect voteState voteState' ∧ voteState'.Inv c

lemma stepOk_authorizeVoter (hinv : voteState.Inv c) (authorized : P) (signers : List P)
    (withdrawerMayChangeVoter : Bool) :
    StepOk voteState c (.authorize authorized .voter signers c withdrawerMayChangeVoter) := by
  obtain ⟨voter, hv, hne, hok⟩ := setNewAuthorizedVoter_spec hinv authorized
    fun epochAuthorizedVoter =>
      (withdrawerMayChangeVoter && decide (voteState.authorizedWithdrawer ∈ signers)) ||
        decide (epochAuthorizedVoter ∈ signers)
  refine ⟨hne, fun voteState' h => ?_⟩
  obtain ⟨hverify, hvoters⟩ := hok voteState' h
  have hcached := hinv.cached hv
  -- every cached entry is at most the new epoch, so the new voter is entered last
  have hfloor := floor_upsert_of_le (v := authorized) hcached.sorted hcached.epoch_le
  have hsorted : Sorted voteState'.authorizedVoters := hvoters ▸ sorted_upsert hcached.sorted
  refine ⟨⟨?_, ?_, ?_⟩, ?_⟩
  · intro e hle hle'
    rw [getAuthorizedVoter_eq hsorted, getAuthorizedVoter_eq hinv.sorted, hvoters, hfloor,
      if_neg (by omega)]
    exact floor_cachedVoters hinv.sorted hv hle
  · intro e hlt
    rw [getAuthorizedVoter_eq hsorted, hvoters, hfloor,
      if_pos (by omega : c.leaderScheduleEpoch + 1 ≤ e)]
  · simp only [Bool.or_eq_true, Bool.and_eq_true, decide_eq_true_eq] at hverify
    rcases hverify with hwithdrawer | hsigned
    · exact Or.inl hwithdrawer
    · exact Or.inr ⟨voter, by rw [getAuthorizedVoter_eq hinv.sorted, hv], hsigned⟩
  · refine ⟨hsorted, fun p hp => ?_, hinv.clock_le, ?_⟩
    · rw [hvoters] at hp
      rcases (mem_keys_upsert _ _).mp (List.mem_map_of_mem (f := (·.1)) hp) with h | h
      · exact h.le
      · obtain ⟨q, hq, hqe⟩ := List.mem_map.mp h
        exact hqe ▸ hcached.epoch_le q hq
    · have := hinv.clock_le
      rw [hvoters, hfloor, if_neg (by omega)]
      exact hcached.floor_isSome

/-- The signature check of a vote, on a state with the invariant at the vote's clock. -/
lemma verifyAndGetVoteState_eq (hinv : voteState.Inv c)
    (hv : floor voteState.authorizedVoters c.epoch = some voter) (signers : List P) :
    verifyAndGetVoteState voteState c signers =
      if voter ∈ signers then
        some (.ok { voteState with
          authorizedVoters := cachedVoters voteState.authorizedVoters c.epoch voter })
      else some (.error .missingRequiredSignature) := by
  have hnonempty : voteState.authorizedVoters.isEmpty = false := by
    cases h : voteState.authorizedVoters with
    | nil =>
      rw [h] at hv
      simp [floor] at hv
    | cons _ _ => rfl
  rw [verifyAndGetVoteState, hnonempty, getAndUpdateAuthorizedVoter_eq hinv.sorted hv]
  rfl

lemma stepOk_vote (hinv : voteState.Inv c) (signers : List P) (accepted : Bool) :
    StepOk voteState c (.vote signers c accepted) := by
  obtain ⟨voter, hv⟩ := hinv.exists_voter
  have hprocess : (VoteInstruction.vote signers c accepted).process voteState =
      if voter ∈ signers then
        if accepted then
          some (.ok { voteState with
            authorizedVoters := cachedVoters voteState.authorizedVoters c.epoch voter })
        else some (.error .voteRejected)
      else some (.error .missingRequiredSignature) := by
    simp only [VoteInstruction.process, processVote, verifyAndGetVoteState_eq hinv hv]
    split_ifs <;> rfl
  refine ⟨by rw [hprocess]; split_ifs <;> simp, fun voteState' h => ?_⟩
  rw [hprocess] at h
  split_ifs at h with hsigned <;> cases h
  refine ⟨⟨⟨voter, by rw [getAuthorizedVoter_eq hinv.sorted, hv], hsigned⟩, fun e he => ?_⟩,
    hinv.cached hv⟩
  rw [getAuthorizedVoter_eq (sorted_cachedVoters hinv.sorted), getAuthorizedVoter_eq hinv.sorted]
  exact floor_cachedVoters hinv.sorted hv he

/-- An instruction that never panics and leaves the voters as they are where it succeeds. -/
lemma stepOk_of_keeps_voters {instruction : VoteInstruction P} (hinv : voteState.Inv c)
    (heffect : ∀ voteState', voteState'.authorizedVoters = voteState.authorizedVoters →
      instruction.AuthorityEffect voteState voteState')
    (hne : instruction.process voteState ≠ none)
    (hok : ∀ voteState', instruction.process voteState = some (.ok voteState') →
      voteState'.authorizedVoters = voteState.authorizedVoters) :
    StepOk voteState c instruction :=
  ⟨hne, fun voteState' h =>
    ⟨heffect voteState' (hok voteState' h), hinv.of_authorizedVoters_eq (hok voteState' h)⟩⟩

lemma stepOk_authorizeWithdrawer (hinv : voteState.Inv c) (authorized : P) (signers : List P)
    (withdrawerMayChangeVoter : Bool) :
    StepOk voteState c (.authorize authorized .withdrawer signers c withdrawerMayChangeVoter) := by
  refine stepOk_of_keeps_voters hinv (fun _ h => h) ?_ fun voteState' h => ?_
  · simp only [VoteInstruction.process, authorize]
    split_ifs <;> simp
  · simp only [VoteInstruction.process, authorize] at h
    split_ifs at h <;> cases h
    rfl

lemma stepOk_updateValidatorIdentity (hinv : voteState.Inv c) (nodePubkey : P)
    (signers : List P) : StepOk voteState c (.updateValidatorIdentity nodePubkey signers) := by
  refine stepOk_of_keeps_voters hinv (fun _ h => h) ?_ fun voteState' h => ?_
  · simp only [VoteInstruction.process, updateValidatorIdentity]
    split_ifs <;> simp
  · simp only [VoteInstruction.process, updateValidatorIdentity] at h
    split_ifs at h <;> cases h
    rfl

lemma stepOk_updateCommission (hinv : voteState.Inv c) (commission : ℕ) (signers : List P) :
    StepOk voteState c (.updateCommission commission signers) := by
  refine stepOk_of_keeps_voters hinv (fun _ h => h) ?_ fun voteState' h => ?_
  · simp only [VoteInstruction.process, updateCommission]
    split_ifs <;> simp
  · simp only [VoteInstruction.process, updateCommission] at h
    split_ifs at h <;> cases h
    rfl

/-- Every instruction whose clock follows `c`, on a state with the invariant at `c`. -/
lemma stepOk_process (hinv : voteState.Inv c) {instruction : VoteInstruction P}
    (hc : ClocksMonotone c [instruction]) :
    StepOk voteState ((instruction.clock?).getD c) instruction := by
  have hinv' := hinv.next hc
  cases instruction with
  | authorize authorized voteAuthorize signers clock withdrawerMayChangeVoter =>
    cases voteAuthorize with
    | voter => exact stepOk_authorizeVoter hinv' authorized signers withdrawerMayChangeVoter
    | withdrawer =>
      exact stepOk_authorizeWithdrawer hinv' authorized signers withdrawerMayChangeVoter
  | vote signers clock accepted => exact stepOk_vote hinv' signers accepted
  | updateValidatorIdentity nodePubkey signers =>
    exact stepOk_updateValidatorIdentity hinv' nodePubkey signers
  | updateCommission commission signers => exact stepOk_updateCommission hinv' commission signers

/-- A run of instructions whose clocks follow one another never panics, and keeps the invariant at
its last clock. -/
lemma processInstructions_spec (hinv : voteState.Inv c) {instructions : List (VoteInstruction P)}
    (hc : ClocksMonotone c instructions) :
    ∃ voteState', processInstructions voteState instructions = some voteState' ∧
      voteState'.Inv (lastClock c instructions) := by
  induction instructions generalizing voteState c with
  | nil => exact ⟨voteState, rfl, hinv⟩
  | cons instruction rest ih =>
    obtain ⟨hfirst, hrest⟩ := clocksMonotone_cons.mp hc
    have hstep := stepOk_process hinv hfirst
    -- the run goes on from the result of the instruction, or from the same state where it failed
    cases h : instruction.process voteState with
    | none => exact absurd h hstep.ne_none
    | some result =>
      cases result with
      | error e =>
        simp only [processInstructions, h, lastClock]
        exact ih (hinv.next hfirst) hrest
      | ok voteState' =>
        simp only [processInstructions, h, lastClock]
        exact ih (hstep.ok voteState' h).2 hrest

end Invariant

theorem authorize_voter_takes_effect_after_leader_schedule (voteInit : VoteInit P) (clock0 : Clock)
    (hclock0 : clock0.epoch ≤ clock0.leaderScheduleEpoch)
    (instructions : List (VoteInstruction P)) (hclocks : ClocksMonotone clock0 instructions) :
    ∃ voteState,
      processInstructions (VoteStateAuth.new voteInit clock0) instructions = some voteState ∧
      ∀ instruction, ClocksMonotone (lastClock clock0 instructions) [instruction] →
        instruction.process voteState ≠ none ∧
        ∀ voteState', instruction.process voteState = some (.ok voteState') →
          instruction.AuthorityEffect voteState voteState' := by
  obtain ⟨voteState, hrun, hinv⟩ :=
    processInstructions_spec (VoteStateAuth.inv_new voteInit hclock0) hclocks
  refine ⟨voteState, hrun, fun instruction hc => ?_⟩
  have hstep := stepOk_process hinv hc
  exact ⟨hstep.ne_none, fun voteState' h => (hstep.ok voteState' h).1⟩

/-- A voter authorized in epoch 0, a vote in epoch 1 and a second authorization in epoch 2, each
signed by the voter of its clock's epoch, run without a panic, and so does a third
authorization after them. -/
theorem authorize_vote_authorize_runs :
    ∃ voteState, processInstructions (VoteStateAuth.new ⟨10, 11, 12, 0⟩ ⟨0, 1⟩)
        [.authorize 20 .voter [11] ⟨0, 1⟩ false, .vote [11] ⟨1, 2⟩ true,
          .authorize 21 .voter [20] ⟨2, 3⟩ false] = some voteState ∧
      (VoteInstruction.authorize (22 : ℕ) .voter [20] ⟨2, 3⟩ false).process voteState ≠ none := by
  obtain ⟨voteState, hrun, hnext⟩ := authorize_voter_takes_effect_after_leader_schedule
    (⟨10, 11, 12, 0⟩ : VoteInit ℕ) ⟨0, 1⟩ (by decide)
    [.authorize 20 .voter [11] ⟨0, 1⟩ false, .vote [11] ⟨1, 2⟩ true,
      .authorize 21 .voter [20] ⟨2, 3⟩ false]
    (by simp [ClocksMonotone, VoteInstruction.clock?, Clock.Follows])
  exact ⟨voteState, hrun,
    (hnext _ (by simp [ClocksMonotone, lastClock, VoteInstruction.clock?, Clock.Follows])).1⟩

end VelasChain.VoteProgram
