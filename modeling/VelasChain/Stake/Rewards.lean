import VelasChain.Stake.State
import VelasChain.Lib.Except
import VelasChain.Vote.VoteState

/-!
# Points and rewards of a stake

A stake earns points for the credits its vote account earned while the stake was effective
(`calculate_stake_points_and_credits`), and at the end of an epoch its share of the epoch's
rewards is its points times the rewards over the points of all stakes, floored, then split
with the voter by the vote account's commission (`calculate_stake_rewards`).

Arithmetic is as in a release build: `-` on `u64` and `+` on `u128` wrap (`Wrapping`), and a
failed `unwrap` or `u64::try_from(..).unwrap()` is a `Panic`.
-/

namespace VelasChain.VoteProgram.VoteState

/-- `VoteState::credits`: the credits of the newest epoch, or 0. -/
def credits (vs : VoteState) : ℕ := (vs.epochCredits.getLast?.map fun (_, c, _) => c).getD 0

/-- `VoteState::commission_split` of the vote state whose commission is `commission`: the
voter's portion, the staker's, and whether it was split. -/
def commissionSplit (commission on : ℕ) : ℕ × ℕ × Bool :=
  match min commission 100 with
  | 0 => (0, on, false)
  | 100 => (on, 0, false)
  | split => (on * split / 100 % 2 ^ 64, on * (100 - split) / 100 % 2 ^ 64, true)

end VelasChain.VoteProgram.VoteState

namespace VelasChain.StakeProgram

open VoteProgram (VoteState)
open Except (okOr)

variable {Key : Type}

/-- A failed `unwrap`. -/
inductive Panic where
  | unwrapNone
  | tryFromIntError
  deriving DecidableEq, Repr

/-- `PointValue`: the lamports to split over the points. -/
structure PointValue where
  rewards : ℕ
  points : ℕ
  deriving DecidableEq, Repr

/-- One epoch of the loop of `calculate_stake_points_and_credits`, from the points so far and
the credits observed so far. -/
def pointsStep (stake : Stake Key) (history : Option StakeHistory) (creditsInStake : ℕ)
    (acc : ℕ × ℕ) (epochCredits : Epoch × ℕ × ℕ) : ℕ × ℕ :=
  let (points, newCreditsObserved) := acc
  let (epoch, finalEpochCredits, initialEpochCredits) := epochCredits
  let stakeAmount := stake.delegation.stakeAt epoch history
  let earnedCredits :=
    -- the staker observed the entire epoch
    if creditsInStake < initialEpochCredits then
      Wrapping.sub 64 finalEpochCredits initialEpochCredits
    -- the staker registered during the epoch
    else if creditsInStake < finalEpochCredits then
      Wrapping.sub 64 finalEpochCredits newCreditsObserved
    else 0
  (Wrapping.add 128 points (stakeAmount * earnedCredits), max newCreditsObserved finalEpochCredits)

/-- `calculate_stake_points_and_credits`: the points earned and the new credits observed. -/
def calculateStakePointsAndCredits (stake : Stake Key) (newVoteState : VoteState)
    (history : Option StakeHistory) : ℕ × ℕ :=
  let creditsInStake := stake.creditsObserved
  if newVoteState.credits ≤ creditsInStake then (0, creditsInStake)
  else newVoteState.epochCredits.foldl (pointsStep stake history creditsInStake) (0, creditsInStake)

/-- `calculate_points`. -/
def calculatePoints (stakeState : StakeState Key) (voteState : VoteState)
    (history : Option StakeHistory) : Except InstructionError ℕ :=
  match stakeState with
  | .stake _ stake => .ok (calculateStakePointsAndCredits stake voteState history).1
  | _ => .error .invalidAccountData

/-- The end of `calculate_stake_rewards`: split the rewards by the commission, unless one side
of a split gets nothing. Returns the staker's and the voter's rewards and the credits
observed. -/
def splitRewards (commission rewards creditsObserved : ℕ) : Option (ℕ × ℕ × ℕ) :=
  if rewards = 0 then none
  else
    let (voterRewards, stakerRewards, isSplit) := VoteState.commissionSplit commission rewards
    if (voterRewards = 0 ∨ stakerRewards = 0) ∧ isSplit then none
    else some (stakerRewards, voterRewards, creditsObserved)

/-- `calculate_stake_rewards`. -/
def calculateStakeRewards (rewardedEpoch : Epoch) (stake : Stake Key) (pointValue : PointValue)
    (voteState : VoteState) (commission : ℕ) (history : Option StakeHistory) :
    Except Panic (Option (ℕ × ℕ × ℕ)) :=
  let (points, creditsObserved) := calculateStakePointsAndCredits stake voteState history
  -- credits move forward when rewards are disabled or the stake was just activated
  if pointValue.rewards = 0 ∨ stake.delegation.activationEpoch = rewardedEpoch then
    .ok (some (0, 0, creditsObserved))
  else if points = 0 ∨ pointValue.points = 0 then .ok none
  else do
    let rewards ← okOr .unwrapNone (Wrapping.checkedMul 128 points pointValue.rewards)
    let rewards ← okOr .unwrapNone (Wrapping.checkedDiv rewards pointValue.points)
    let rewards ← okOr .tryFromIntError (if rewards ≤ u64Max then some rewards else none)
    pure (splitRewards commission rewards creditsObserved)

/-- `redeem_stake_rewards`: the staker's and the voter's rewards and the stake with them. -/
def redeemStakeRewards (rewardedEpoch : Epoch) (stake : Stake Key) (pointValue : PointValue)
    (voteState : VoteState) (commission : ℕ) (history : Option StakeHistory) :
    Except Panic (Option (ℕ × ℕ × Stake Key)) :=
  (calculateStakeRewards rewardedEpoch stake pointValue voteState commission history).map
    (Option.map fun (stakersReward, votersReward, creditsObserved) =>
      (stakersReward, votersReward,
        { stake with
          creditsObserved
          delegation := { stake.delegation with
            stake := Wrapping.add 64 stake.delegation.stake stakersReward } }))

/-! ### Points are bounded by the stake -/

/-- The credit history of a vote account as the vote program keeps it: the credits of an
epoch do not decrease within it, start at or after where the previous epoch's ended, and fit a
`u64`. -/
def CreditHistory (epochCredits : List (Epoch × ℕ × ℕ)) : Prop :=
  (∀ e ∈ epochCredits, e.2.2 ≤ e.2.1 ∧ e.2.1 < 2 ^ 64) ∧
    epochCredits.IsChain fun a b => a.2.1 ≤ b.2.2

/-- What the loop of `calculate_stake_points_and_credits` keeps: the credits observed are
those of the stake or more, and the points are at most the stake times the credits observed
beyond the stake's. -/
def PointsInv (stake : Stake Key) (creditsInStake : ℕ) (acc : ℕ × ℕ) : Prop :=
  creditsInStake ≤ acc.2 ∧ acc.2 < 2 ^ 64 ∧
    acc.1 ≤ stake.delegation.stake * (acc.2 - creditsInStake)

lemma mul_lt_two_pow_128 {a b : ℕ} (ha : a < 2 ^ 64) (hb : b < 2 ^ 64) : a * b < 2 ^ 128 :=
  calc a * b < 2 ^ 64 * 2 ^ 64 := Nat.mul_lt_mul'' ha hb
    _ = 2 ^ 128 := by norm_num

/-- One epoch keeps the invariant, and leaves the credits observed at the epoch's final
credits or at the stake's. -/
lemma pointsStep_inv {stake : Stake Key} {history : Option StakeHistory} {c : ℕ}
    {acc : ℕ × ℕ} {e : Epoch × ℕ × ℕ} (hstake : stake.delegation.stake < 2 ^ 64)
    (hinv : PointsInv stake c acc) (hstart : acc.2 ≤ e.2.2 ∨ acc.2 = c)
    (he : e.2.2 ≤ e.2.1 ∧ e.2.1 < 2 ^ 64) :
    PointsInv stake c (pointsStep stake history c acc e) ∧
      ((pointsStep stake history c acc e).2 = e.2.1 ∨ (pointsStep stake history c acc e).2 = c) := by
  obtain ⟨points, obs⟩ := acc
  obtain ⟨epoch, final, initial⟩ := e
  obtain ⟨hc, hobs, hpoints⟩ := hinv
  simp only at hc hobs hpoints hstart he
  have hamount := stake.delegation.stakeAt_le epoch history
  unfold pointsStep
  dsimp only
  split_ifs with hentire hduring
  · -- the whole epoch was observed
    have hle : obs ≤ initial := by omega
    rw [Wrapping.sub_of_le he.1 he.2]
    have hearned : stake.delegation.stakeAt epoch history * (final - initial) ≤
        stake.delegation.stake * (final - initial) := Nat.mul_le_mul_right _ hamount
    have hsum : points + stake.delegation.stakeAt epoch history * (final - initial) ≤
        stake.delegation.stake * (final - c) := by
      have : stake.delegation.stake * (obs - c) + stake.delegation.stake * (final - initial) ≤
          stake.delegation.stake * (final - c) := by
        rw [← Nat.mul_add]
        exact Nat.mul_le_mul_left _ (by omega)
      omega
    have hfit : stake.delegation.stake * (final - c) < 2 ^ 128 :=
      mul_lt_two_pow_128 hstake (by omega)
    rw [Wrapping.add_of_lt (by omega), max_eq_right (by omega)]
    exact ⟨⟨by omega, he.2, hsum⟩, .inl rfl⟩
  · -- the stake registered during the epoch
    have hobsc : obs = c := by omega
    subst hobsc
    rw [Wrapping.sub_of_le (by omega) he.2]
    have hzero : points = 0 := by simpa using hpoints
    have hearned : stake.delegation.stakeAt epoch history * (final - obs) ≤
        stake.delegation.stake * (final - obs) := Nat.mul_le_mul_right _ hamount
    have hfit : stake.delegation.stake * (final - obs) < 2 ^ 128 :=
      mul_lt_two_pow_128 hstake (by omega)
    rw [Wrapping.add_of_lt (by omega), max_eq_right (by omega)]
    refine ⟨⟨by omega, he.2, ?_⟩, .inl rfl⟩
    dsimp only
    omega
  · -- nothing new in this epoch
    have hfinal : final ≤ obs := by omega
    have hfit : stake.delegation.stake * (obs - c) < 2 ^ 128 :=
      mul_lt_two_pow_128 hstake (by omega)
    rw [Nat.mul_zero, Wrapping.add_of_lt (by omega), max_eq_left hfinal]
    refine ⟨⟨hc, hobs, by simpa using hpoints⟩, ?_⟩
    omega
/-- The loop keeps the invariant over a credit history. -/
lemma foldl_pointsStep_inv {stake : Stake Key} {c : ℕ} (history : Option StakeHistory)
    (hstake : stake.delegation.stake < 2 ^ 64) :
    ∀ (l : List (Epoch × ℕ × ℕ)) (acc : ℕ × ℕ), CreditHistory l → PointsInv stake c acc →
      (∀ e ∈ l.head?, acc.2 ≤ e.2.2 ∨ acc.2 = c) →
      PointsInv stake c (l.foldl (pointsStep stake history c) acc)
  | [], _, _, hinv, _ => hinv
  | e :: l, acc, hl, hinv, hstart => by
    obtain ⟨hstep, hobs⟩ :=
      pointsStep_inv hstake hinv (hstart e rfl) (hl.1 e List.mem_cons_self)
    rw [List.foldl_cons]
    refine foldl_pointsStep_inv history hstake l _
      ⟨fun x hx => hl.1 x (List.mem_cons_of_mem _ hx), hl.2.tail⟩ hstep ?_
    intro e' he'
    cases l with
    | nil => cases he'
    | cons e'' l =>
      have hhead : e'' = e' := by simpa using he'
      rw [← hhead]
      -- the next epoch starts at or after the final credits of this one
      have hchain : e.2.1 ≤ e''.2.2 := (List.isChain_cons_cons.mp hl.2).1
      rcases hobs with h | h
      · exact .inl (h ▸ hchain)
      · exact .inr h

lemma credits_lt {vs : VoteState} (hcredits : CreditHistory vs.epochCredits) :
    vs.credits < 2 ^ 64 := by
  unfold VoteState.credits
  cases hlast : vs.epochCredits.getLast? with
  | none => simp
  | some e => simpa using (hcredits.1 e (List.mem_of_getLast? hlast)).2

/-- Against a credit history, a stake earns at most its delegated stake times `u64::MAX`
points, and so its points never wrap. -/
theorem calculateStakePointsAndCredits_fst_le (stake : Stake Key) (voteState : VoteState)
    (history : Option StakeHistory) (hcredits : CreditHistory voteState.epochCredits)
    (hstake : stake.delegation.stake < 2 ^ 64) :
    (calculateStakePointsAndCredits stake voteState history).1 ≤
      stake.delegation.stake * u64Max := by
  unfold calculateStakePointsAndCredits
  dsimp only
  split_ifs with hnone
  · exact Nat.zero_le _
  · have hvote := credits_lt hcredits
    have hstart : PointsInv stake stake.creditsObserved (0, stake.creditsObserved) :=
      ⟨le_rfl, by simp only; omega, Nat.zero_le _⟩
    obtain ⟨-, hobs, hpoints⟩ := foldl_pointsStep_inv history hstake _ _
      hcredits hstart (fun _ _ => .inr rfl)
    calc _ ≤ stake.delegation.stake * (_ - stake.creditsObserved) := hpoints
      _ ≤ stake.delegation.stake * u64Max := Nat.mul_le_mul_left _ (by unfold u64Max; omega)

/-! ### Rewards are bounded by the share of the points -/

/-- The two portions of a split, each floored, add up to at most what is split. -/
lemma splitPortions_le (on split : ℕ) (hsplit : split ≤ 100) :
    on * split / 100 % 2 ^ 64 + on * (100 - split) / 100 % 2 ^ 64 ≤ on :=
  calc on * split / 100 % 2 ^ 64 + on * (100 - split) / 100 % 2 ^ 64
      ≤ on * split / 100 + on * (100 - split) / 100 :=
        Nat.add_le_add (Nat.mod_le _ _) (Nat.mod_le _ _)
    _ ≤ (on * split + on * (100 - split)) / 100 := Nat.div_add_div_le_add_div
    _ = on := by rw [← Nat.mul_add, Nat.add_sub_cancel' hsplit, Nat.mul_div_cancel _ (by norm_num)]

/-- A commission split gives away at most what it splits. -/
lemma commissionSplit_add_le (commission on : ℕ) :
    (VoteState.commissionSplit commission on).1 + (VoteState.commissionSplit commission on).2.1 ≤
      on := by
  unfold VoteState.commissionSplit
  split
  · simp
  · simp
  · exact splitPortions_le on _ (min_le_right _ _)

lemma splitRewards_add_le {commission rewards creditsObserved stakersReward votersReward
    creditsObserved' : ℕ}
    (h : splitRewards commission rewards creditsObserved =
      some (stakersReward, votersReward, creditsObserved')) :
    stakersReward + votersReward ≤ rewards := by
  unfold splitRewards at h
  split_ifs at h
  have hle := commissionSplit_add_le commission rewards
  revert h hle
  rcases VoteState.commissionSplit commission rewards with ⟨voterRewards, stakerRewards, isSplit⟩
  dsimp only
  split_ifs
  · intro h
    cases h
  · intro h hle
    obtain ⟨rfl, rfl, -⟩ : stakerRewards = stakersReward ∧ voterRewards = votersReward ∧
        creditsObserved = creditsObserved' := by simpa using h
    omega

/-- With a positive point value whose points cover the stake's and a product that fits a
`u128`, `calculate_stake_rewards` does not panic, and what it pays is at most the stake's share
of the rewards. -/
theorem calculateStakeRewards_eq_ok (rewardedEpoch : Epoch) (stake : Stake Key)
    (pointValue : PointValue) (voteState : VoteState) (commission : ℕ)
    (history : Option StakeHistory) (hrewards : pointValue.rewards ≤ u64Max)
    (hcover : (calculateStakePointsAndCredits stake voteState history).1 ≤ pointValue.points)
    (hfit : (calculateStakePointsAndCredits stake voteState history).1 * pointValue.rewards <
      2 ^ 128) :
    ∃ r, calculateStakeRewards rewardedEpoch stake pointValue voteState commission history =
        .ok r ∧
      ∀ stakersReward votersReward creditsObserved,
        r = some (stakersReward, votersReward, creditsObserved) →
        stakersReward + votersReward ≤
          (calculateStakePointsAndCredits stake voteState history).1 * pointValue.rewards /
            pointValue.points := by
  generalize hpc : calculateStakePointsAndCredits stake voteState history = pc at hcover hfit ⊢
  obtain ⟨points, creditsObserved⟩ := pc
  dsimp only at hcover hfit ⊢
  unfold calculateStakeRewards
  rw [hpc]
  dsimp only
  split_ifs with hforced hnone
  · refine ⟨_, rfl, fun s v c h => ?_⟩
    obtain ⟨rfl, rfl, -⟩ : 0 = s ∧ 0 = v ∧ _ = c := by simpa using h
    exact Nat.zero_le _
  · exact ⟨_, rfl, fun _ _ _ h => by cases h⟩
  · have hpos : pointValue.points ≠ 0 := by omega
    -- a share of the points is at most all of the rewards, which fit a `u64`
    have hshare : points * pointValue.rewards / pointValue.points ≤ u64Max :=
      calc points * pointValue.rewards / pointValue.points
          ≤ pointValue.points * pointValue.rewards / pointValue.points :=
            Nat.div_le_div_right (Nat.mul_le_mul_right _ hcover)
        _ = pointValue.rewards := Nat.mul_div_cancel_left _ (Nat.pos_of_ne_zero hpos)
        _ ≤ u64Max := hrewards
    have hmul : Wrapping.checkedMul 128 points pointValue.rewards =
        some (points * pointValue.rewards) := if_pos hfit
    have hdiv : Wrapping.checkedDiv (points * pointValue.rewards) pointValue.points =
        some (points * pointValue.rewards / pointValue.points) := if_neg hpos
    simp only [hmul, hdiv, if_pos hshare, Except.okOr, bind, Except.bind, pure, Except.pure]
    exact ⟨_, rfl, fun s v c h => splitRewards_add_le h⟩

/-- `redeem_rewards`: the staker's rewards are added to the account's lamports and to its stake.
Returns the staker's and the voter's rewards and the account; a panic is the outer error. -/
def redeemRewards (rewardedEpoch : Epoch) (account : StakeAccount Key) (voteState : VoteState)
    (commission : ℕ) (pointValue : PointValue) (history : Option StakeHistory) :
    Except Panic (Except InstructionError (ℕ × ℕ × StakeAccount Key)) :=
  match account.state with
  | .stake stakeMeta stake =>
    (redeemStakeRewards rewardedEpoch stake pointValue voteState commission history).map fun
      | some (stakersReward, votersReward, stake) =>
        -- `checked_add_lamports`, then `set_state`
        if account.lamports + stakersReward > u64Max then .error .arithmeticOverflow
        else if (StakeState.stake stakeMeta stake).serializedSize > account.dataLen then
          .error .accountDataTooSmall
        else
          .ok (stakersReward, votersReward,
            { account with lamports := account.lamports + stakersReward,
                           state := .stake stakeMeta stake })
      | none => .error (.custom .noCreditsToRedeem)
  | _ => .ok (.error .invalidAccountData)

end VelasChain.StakeProgram
