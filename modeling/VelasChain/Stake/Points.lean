import Mathlib.Algebra.BigOperators.Ring.List
import VelasChain.Stake.Rewards

/-!
# Each vote credit earns points once

`increment_credits` keeps the credit history of a vote account as a chain: the epochs increase
and the credits of each epoch start where the previous epoch's ended (`CreditChain`). Against
such a history the loop of `calculate_stake_points_and_credits` never underflows, pays each
epoch the credits the stake has not yet observed (`unpaidCredits`), which telescope to the
credits earned since the stake's credits or the oldest epoch kept, and moves the credits
observed to the newest credits. A stake whose rewards were redeemed has observed every credit
and earns no more points (`calculate_stake_points_and_credits_pays_each_credit_once`).
-/

namespace VelasChain.StakeProgram

open VoteProgram (VoteState)

variable {Key : Type}

/-- The credit history as `increment_credits` keeps it: the epochs increase, the credits of an
epoch start where the previous epoch's ended and do not decrease within it, and fit a `u64`. -/
def CreditChain (epochCredits : List (Epoch × ℕ × ℕ)) : Prop :=
  (∀ e ∈ epochCredits, e.2.2 ≤ e.2.1 ∧ e.2.1 < 2 ^ 64) ∧
    epochCredits.IsChain fun a b => a.1 < b.1 ∧ a.2.1 = b.2.2

/-- The credits of an epoch that a stake which observed `c` credits was not paid for. -/
def unpaidCredits (c : ℕ) (e : Epoch × ℕ × ℕ) : ℕ := e.2.1 - max c e.2.2

/-- The `u64` subtraction that one epoch of the loop of `calculate_stake_points_and_credits`
makes, as minuend and subtrahend, if it makes one. -/
def pointsStepSub (creditsInStake newCreditsObserved : ℕ) (e : Epoch × ℕ × ℕ) :
    Option (ℕ × ℕ) :=
  if creditsInStake < e.2.2 then some (e.2.1, e.2.2)
  else if creditsInStake < e.2.1 then some (e.2.1, newCreditsObserved)
  else none

lemma pointsStep_fst (stake : Stake Key) (history : Option StakeHistory) (c : ℕ) (acc : ℕ × ℕ)
    (e : Epoch × ℕ × ℕ) :
    (pointsStep stake history c acc e).1 = Wrapping.add 128 acc.1
      (stake.delegation.stakeAt e.1 history *
        ((pointsStepSub c acc.2 e).map fun p => Wrapping.sub 64 p.1 p.2).getD 0) := by
  obtain ⟨points, obs⟩ := acc
  obtain ⟨epoch, final, initial⟩ := e
  unfold pointsStep pointsStepSub
  dsimp only
  split_ifs <;> rfl

lemma CreditChain.tail {e : Epoch × ℕ × ℕ} {l : List (Epoch × ℕ × ℕ)}
    (h : CreditChain (e :: l)) : CreditChain l :=
  ⟨fun x hx => h.1 x (List.mem_cons_of_mem _ hx), h.2.tail⟩

lemma CreditChain.final_le {l : List (Epoch × ℕ × ℕ)} (h : CreditChain l) :
    ∀ e ∈ l, ∀ last ∈ l.getLast?, e.2.1 ≤ last.2.1 := by
  induction l with
  | nil => simp
  | cons e l ih =>
    intro x hx last hlast
    cases l with
    | nil =>
      obtain rfl : e = last := by simpa using hlast
      obtain rfl : x = e := by simpa using hx
      exact le_rfl
    | cons e' l =>
      rw [List.getLast?_cons_of_ne_nil (List.cons_ne_nil _ _)] at hlast
      have hee' : e.2.1 = e'.2.2 := (List.isChain_cons_cons.mp h.2).1.2
      have he' : e'.2.1 ≤ last.2.1 := ih h.tail e' List.mem_cons_self last hlast
      rcases List.mem_cons.mp hx with rfl | hx
      · exact hee' ▸ (h.1 e' (by simp)).1.trans he'
      · exact ih h.tail x hx last hlast

/-! ### One epoch and the loop -/

/-- An epoch whose initial credits bound the credits observed so far, or the stake's own:
its subtraction does not underflow, it earns the credits the stake has not observed, and the
credits observed move to its final credits. -/
lemma pointsStep_of_le (stake : Stake Key) (history : Option StakeHistory) {c : ℕ}
    {acc : ℕ × ℕ} {e : Epoch × ℕ × ℕ} (hc : c ≤ acc.2) (hacc : acc.2 ≤ max c e.2.2)
    (he : e.2.2 ≤ e.2.1 ∧ e.2.1 < 2 ^ 64) :
    (∀ p ∈ pointsStepSub c acc.2 e, p.2 ≤ p.1) ∧
      pointsStep stake history c acc e =
        (Wrapping.add 128 acc.1 (stake.delegation.stakeAt e.1 history * unpaidCredits c e),
          max c e.2.1) := by
  obtain ⟨points, obs⟩ := acc
  obtain ⟨epoch, final, initial⟩ := e
  simp only at hc hacc he
  unfold pointsStep pointsStepSub unpaidCredits
  dsimp only
  split_ifs with hentire hduring
  · refine ⟨by simpa using he.1, ?_⟩
    rw [Wrapping.sub_of_le he.1 he.2, max_eq_right hentire.le, max_eq_right (by omega),
      max_eq_right (by omega)]
  · have hobs : obs = c := by omega
    subst hobs
    refine ⟨by simpa using hduring.le, ?_⟩
    rw [Wrapping.sub_of_le hduring.le he.2, max_eq_left (not_lt.mp hentire),
      max_eq_right hduring.le]
  · have hobs : obs = c := by omega
    subst hobs
    refine ⟨by simp, ?_⟩
    rw [Nat.sub_eq_zero_of_le (by omega), max_eq_left (by omega)]

/-- Over a credit chain, from credits observed that bound the first epoch's initial credits, the
loop never underflows, earns each epoch its unpaid credits times the stake then, and ends with
the credits observed at the newest final credits. -/
lemma foldl_pointsStep (stake : Stake Key) (history : Option StakeHistory) (c : ℕ)
    (l : List (Epoch × ℕ × ℕ)) (acc : ℕ × ℕ) (hl : CreditChain l) (hc : c ≤ acc.2)
    (hacc : acc.1 < 2 ^ 128) (hstart : ∀ e ∈ l.head?, acc.2 ≤ max c e.2.2) :
    (∀ k (hk : k < l.length),
      ∀ p ∈ pointsStepSub c ((l.take k).foldl (pointsStep stake history c) acc).2 l[k],
        p.2 ≤ p.1) ∧
    (l.foldl (pointsStep stake history c) acc).1 =
      (acc.1 + (l.map fun e => stake.delegation.stakeAt e.1 history * unpaidCredits c e).sum) %
        2 ^ 128 ∧
    ∀ last ∈ l.getLast?, (l.foldl (pointsStep stake history c) acc).2 = max c last.2.1 := by
  induction l generalizing acc with
  | nil =>
    refine ⟨fun k hk => absurd hk (Nat.not_lt_zero _), ?_, fun _ h => absurd h (by simp)⟩
    simp only [List.foldl_nil, List.map_nil, List.sum_nil, Nat.add_zero]
    exact (Nat.mod_eq_of_lt hacc).symm
  | cons e l ih =>
    obtain ⟨hsub, hstep⟩ :=
      pointsStep_of_le stake history hc (hstart e rfl) (hl.1 e List.mem_cons_self)
    have hnext : ∀ e' ∈ l.head?, max c e.2.1 ≤ max c e'.2.2 := by
      intro e' he'
      cases l with
      | nil => cases he'
      | cons e'' l =>
        obtain rfl : e'' = e' := by simpa using he'
        rw [(List.isChain_cons_cons.mp hl.2).1.2]
    obtain ⟨ihSub, ihFst, ihSnd⟩ := ih
      (Wrapping.add 128 acc.1 (stake.delegation.stakeAt e.1 history * unpaidCredits c e),
        max c e.2.1) hl.tail (le_max_left _ _) Wrapping.add_lt hnext
    refine ⟨fun k hk p hp => ?_, ?_, fun last hlast => ?_⟩
    · cases k with
      | zero =>
        simp only [List.take_zero, List.foldl_nil, List.getElem_cons_zero] at hp
        exact hsub p hp
      | succ k =>
        simp only [List.take_succ_cons, List.foldl_cons, List.getElem_cons_succ, hstep] at hp
        exact ihSub k (by simpa using hk) p hp
    · rw [List.foldl_cons, hstep, ihFst, List.map_cons, List.sum_cons, Wrapping.add,
        Nat.mod_add_mod, Nat.add_assoc]
    · rw [List.foldl_cons, hstep]
      cases l with
      | nil =>
        obtain rfl : e = last := by simpa using hlast
        rfl
      | cons e' l =>
        rw [List.getLast?_cons_of_ne_nil (List.cons_ne_nil _ _)] at hlast
        exact ihSnd last hlast

/-! ### The credits paid telescope -/

/-- Over a credit chain the unpaid credits of the epochs add up to the newest credits less the
stake's credits or the oldest initial credits, whichever is more. -/
lemma sum_unpaidCredits {c : ℕ} {l : List (Epoch × ℕ × ℕ)} (hl : CreditChain l) :
    ∀ first ∈ l.head?, ∀ last ∈ l.getLast?, c < last.2.1 →
      (l.map (unpaidCredits c)).sum = last.2.1 - max c first.2.2 := by
  induction l with
  | nil => simp
  | cons e l ih =>
    intro first hfirst last hlast hc
    obtain rfl : e = first := by simpa using hfirst
    have hfinal : e.2.1 ≤ last.2.1 := hl.final_le e List.mem_cons_self last hlast
    have hle : e.2.2 ≤ e.2.1 := (hl.1 e List.mem_cons_self).1
    cases l with
    | nil =>
      obtain rfl : e = last := by simpa using hlast
      simp [unpaidCredits]
    | cons e' l =>
      rw [List.getLast?_cons_of_ne_nil (List.cons_ne_nil _ _)] at hlast
      have hee' : e.2.1 = e'.2.2 := (List.isChain_cons_cons.mp hl.2).1.2
      rw [List.map_cons, List.sum_cons, ih hl.tail e' rfl last hlast hc, ← hee']
      unfold unpaidCredits
      omega

/-- The points over a credit chain are at most the stake times the credits unpaid. -/
lemma sum_stakeAt_mul_le (stake : Stake Key) (history : Option StakeHistory) (c : ℕ)
    (l : List (Epoch × ℕ × ℕ)) :
    (l.map fun e => stake.delegation.stakeAt e.1 history * unpaidCredits c e).sum ≤
      stake.delegation.stake * (l.map (unpaidCredits c)).sum := by
  rw [← List.sum_map_mul_left]
  exact List.sum_le_sum fun e _ => Nat.mul_le_mul_right _ (stake.delegation.stakeAt_le e.1 history)

lemma credits_eq_of_getLast? {voteState : VoteState} {last : Epoch × ℕ × ℕ}
    (h : voteState.epochCredits.getLast? = some last) : voteState.credits = last.2.1 := by
  simp [VoteState.credits, h]

/-! ### Redeemed rewards -/

/-- Rewards are paid with the credits observed that `calculate_stake_points_and_credits`
returns. -/
lemma calculateStakeRewards_creditsObserved {rewardedEpoch : Epoch} {stake : Stake Key}
    {pointValue : PointValue} {voteState : VoteState} {commission : ℕ}
    {history : Option StakeHistory} {stakersReward votersReward creditsObserved : ℕ}
    (h : calculateStakeRewards rewardedEpoch stake pointValue voteState commission history =
      .ok (some (stakersReward, votersReward, creditsObserved))) :
    creditsObserved = (calculateStakePointsAndCredits stake voteState history).2 := by
  unfold calculateStakeRewards at h
  generalize calculateStakePointsAndCredits stake voteState history = pc at h ⊢
  obtain ⟨points, observed⟩ := pc
  dsimp only at h ⊢
  split_ifs at h
  · simp only [Except.ok.injEq, Option.some.injEq, Prod.mk.injEq] at h
    exact h.2.2.symm
  · cases h
  · simp only [Except.bind_eq_ok_iff, Except.okOr_eq_ok, pure, Except.pure, Except.ok.injEq] at h
    obtain ⟨_, -, _, -, _, -, hsplit⟩ := h
    unfold splitRewards at hsplit
    dsimp only at hsplit
    split_ifs at hsplit
    simp only [Option.some.injEq, Prod.mk.injEq] at hsplit
    exact hsplit.2.2.symm

/-! ### Each credit earns points once -/

/-- Against a credit chain, the loop of `calculate_stake_points_and_credits` never underflows,
pays each epoch its unpaid credits, which add up to the credits earned since the stake's credits
or the oldest epoch kept, and moves the credits observed to the newest credits; so a stake
whose rewards were redeemed earns no more points from the same vote account. -/
theorem calculate_stake_points_and_credits_pays_each_credit_once (stake : Stake Key)
    (voteState : VoteState) (history : Option StakeHistory)
    (hcredits : CreditChain voteState.epochCredits) (hstake : stake.delegation.stake < 2 ^ 64) :
    (calculateStakePointsAndCredits stake voteState history).2 =
        max stake.creditsObserved voteState.credits ∧
      (stake.creditsObserved < voteState.credits →
        (∀ k (hk : k < voteState.epochCredits.length),
          ∀ p ∈ pointsStepSub stake.creditsObserved
            ((voteState.epochCredits.take k).foldl (pointsStep stake history stake.creditsObserved)
              (0, stake.creditsObserved)).2 voteState.epochCredits[k], p.2 ≤ p.1) ∧
        (calculateStakePointsAndCredits stake voteState history).1 =
          (voteState.epochCredits.map fun e =>
            stake.delegation.stakeAt e.1 history * unpaidCredits stake.creditsObserved e).sum ∧
        (voteState.epochCredits.map (unpaidCredits stake.creditsObserved)).sum =
          voteState.credits -
            max stake.creditsObserved ((voteState.epochCredits.head?.map (·.2.2)).getD 0)) ∧
      ∀ rewardedEpoch pointValue commission stakersReward votersReward (stake' : Stake Key),
        redeemStakeRewards rewardedEpoch stake pointValue voteState commission history =
          .ok (some (stakersReward, votersReward, stake')) →
        ∀ history', (calculateStakePointsAndCredits stake' voteState history').1 = 0 := by
  have hloop := foldl_pointsStep stake history stake.creditsObserved voteState.epochCredits
    (0, stake.creditsObserved) hcredits le_rfl (by norm_num) (fun _ _ => le_max_left _ _)
  have hobserved : (calculateStakePointsAndCredits stake voteState history).2 =
      max stake.creditsObserved voteState.credits := by
    unfold calculateStakePointsAndCredits
    dsimp only
    split_ifs with hle
    · exact (max_eq_left hle).symm
    · cases hlast : voteState.epochCredits.getLast? with
      | none => simp [VoteState.credits, hlast] at hle
      | some last => rw [hloop.2.2 last hlast, credits_eq_of_getLast? hlast]
  refine ⟨hobserved, fun hlt => ?_, ?_⟩
  · obtain ⟨last, hlast⟩ : ∃ last, voteState.epochCredits.getLast? = some last := by
      cases h : voteState.epochCredits.getLast? with
      | none => simp [VoteState.credits, h] at hlt
      | some last => exact ⟨last, rfl⟩
    obtain ⟨first, hfirst⟩ : ∃ first, voteState.epochCredits.head? = some first := by
      cases h : voteState.epochCredits with
      | nil => simp [h] at hlast
      | cons first _ => exact ⟨first, rfl⟩
    have hcreditsEq := credits_eq_of_getLast? hlast
    have hsum := sum_unpaidCredits hcredits first hfirst last hlast (hcreditsEq ▸ hlt)
    have hfit : (voteState.epochCredits.map fun e =>
        stake.delegation.stakeAt e.1 history * unpaidCredits stake.creditsObserved e).sum <
          2 ^ 128 :=
      calc _ ≤ stake.delegation.stake *
            (voteState.epochCredits.map (unpaidCredits stake.creditsObserved)).sum :=
            sum_stakeAt_mul_le stake history _ _
        _ ≤ stake.delegation.stake * last.2.1 := Nat.mul_le_mul_left _ (by rw [hsum]; omega)
        _ < 2 ^ 128 := mul_lt_two_pow_128 hstake (hcredits.1 last (List.mem_of_getLast? hlast)).2
    have hcalc : calculateStakePointsAndCredits stake voteState history =
        voteState.epochCredits.foldl (pointsStep stake history stake.creditsObserved)
          (0, stake.creditsObserved) :=
      if_neg (not_le.mpr hlt)
    refine ⟨hloop.1, ?_, ?_⟩
    · rw [hcalc, hloop.2.1, Nat.zero_add, Nat.mod_eq_of_lt hfit]
    · rw [hsum, hcreditsEq, hfirst]
      rfl
  · intro rewardedEpoch pointValue commission stakersReward votersReward stake' hredeem history'
    obtain ⟨r, hr, hmap⟩ := Except.map_eq_ok_iff.mp hredeem
    obtain ⟨⟨s, v, observed⟩, rfl, hpaid⟩ := Option.map_eq_some_iff.mp hmap
    simp only [Prod.mk.injEq] at hpaid
    obtain ⟨-, -, rfl⟩ := hpaid
    have hobs : observed = max stake.creditsObserved voteState.credits :=
      (calculateStakeRewards_creditsObserved hr).trans hobserved
    unfold calculateStakePointsAndCredits
    dsimp only
    rw [if_pos (by rw [hobs]; exact le_max_right _ _)]

/-- A stake of 100 lamports that observed 5 credits. -/
def stakeFive : Stake Unit := ⟨⟨(), 100, 0, u64Max, 1 / 4⟩, 5⟩

/-- A vote account that earned credits 3 to 10 in epoch 1 and 10 to 12 in epoch 2. -/
def twoEpochs : VoteState := ⟨[], none, [(1, 10, 3), (2, 12, 10)], ⟨0, 0⟩⟩

theorem stake_observing_five_credits_is_paid_seven :
    CreditChain twoEpochs.epochCredits ∧ stakeFive.delegation.stake < 2 ^ 64 ∧
      (calculateStakePointsAndCredits stakeFive twoEpochs none).2 =
        max stakeFive.creditsObserved twoEpochs.credits ∧
      (twoEpochs.epochCredits.map (unpaidCredits stakeFive.creditsObserved)).sum =
        twoEpochs.credits -
          max stakeFive.creditsObserved ((twoEpochs.epochCredits.head?.map (·.2.2)).getD 0) :=
  have hcredits : CreditChain twoEpochs.epochCredits := ⟨by decide, by decide⟩
  have hstake : stakeFive.delegation.stake < 2 ^ 64 := by decide
  have hpays := calculate_stake_points_and_credits_pays_each_credit_once stakeFive twoEpochs none
    hcredits hstake
  ⟨hcredits, hstake, hpays.1, (hpays.2.1 (by decide)).2.2⟩

example : (twoEpochs.epochCredits.map (unpaidCredits stakeFive.creditsObserved)).sum = 7 := by
  decide

end VelasChain.StakeProgram
