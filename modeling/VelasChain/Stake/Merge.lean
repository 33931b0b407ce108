import VelasChain.Stake.Instructions
import Mathlib.Tactic.Linarith

/-!
# The credits observed of a merged stake

Merging two stakes whose credits observed differ (`stake_merge_with_unmatched_credits_observed`)
gives the merged stake the average of the two credits weighted by stake, rounded up
(`stake_weighted_credits_observed`), so that the rewards the merged stake earns on any later
credit count are at most those the two stakes would have earned apart. The computation is in
checked `u128` arithmetic on `u64` values, and fails only where the total stake does not fit a
`u64`, is zero, or the rounded-up weighted sum does not fit a `u128`.

For stakes `s1, s2` and credits `c1, c2`, the merged credits `c3` lie between `c1` and `c2`, and
`c3 * (s1 + s2) ≥ c1 * s1 + c2 * s2` (`stake_weighted_credits_observed_never_inflates`).
-/

namespace VelasChain.StakeProgram

variable {Key : Type}

section WeightedCredits

variable {stake : Stake Key} {absorbedLamports absorbedCreditsObserved : ℕ}

/-- Where the credits differ, `stake_weighted_credits_observed` is the weighted sum divided by
the total stake and rounded up, when the total fits a `u64`, is not zero, and the rounded-up sum
fits a `u128`. The products of two `u64` values always fit. -/
lemma stakeWeightedCreditsObserved_of_ne (hstake : stake.delegation.stake < 2 ^ 64)
    (hcredits : stake.creditsObserved < 2 ^ 64) (hlamports : absorbedLamports < 2 ^ 64)
    (habsorbed : absorbedCreditsObserved < 2 ^ 64)
    (hne : stake.creditsObserved ≠ absorbedCreditsObserved) :
    stakeWeightedCreditsObserved stake absorbedLamports absorbedCreditsObserved =
      if stake.delegation.stake + absorbedLamports < 2 ^ 64 ∧
          0 < stake.delegation.stake + absorbedLamports ∧
          stake.creditsObserved * stake.delegation.stake +
              absorbedCreditsObserved * absorbedLamports +
              (stake.delegation.stake + absorbedLamports) < 2 ^ 128 then
        some ((stake.creditsObserved * stake.delegation.stake +
            absorbedCreditsObserved * absorbedLamports +
            (stake.delegation.stake + absorbedLamports) - 1) /
          (stake.delegation.stake + absorbedLamports))
      else none := by
  have hw1 := mul_lt_two_pow_128 hcredits hstake
  have hw2 := mul_lt_two_pow_128 habsorbed hlamports
  unfold stakeWeightedCreditsObserved
  rw [if_neg hne]
  generalize stake.delegation.stake = s1 at *
  generalize stake.creditsObserved = c1 at *
  simp only [Wrapping.checkedAdd, Wrapping.checkedMul, Wrapping.checkedSub, Wrapping.checkedDiv,
    bind, if_pos hw1, if_pos hw2, Option.bind_some]
  by_cases htotal : s1 + absorbedLamports < 2 ^ 64
  · rw [if_pos htotal, Option.bind_some]
    by_cases hzero : s1 + absorbedLamports = 0
    · -- both stakes are zero, so is the weighted sum, and subtracting one fails
      have hs1 : s1 = 0 := by omega
      have hs2 : absorbedLamports = 0 := by omega
      subst hs1 hs2
      simp
    by_cases hsum : c1 * s1 + absorbedCreditsObserved * absorbedLamports +
        (s1 + absorbedLamports) < 2 ^ 128
    · -- the rounded-up average is at most the larger credits, so it fits a `u64`
      have hle : (c1 * s1 + absorbedCreditsObserved * absorbedLamports +
          (s1 + absorbedLamports) - 1) / (s1 + absorbedLamports) ≤ u64Max := by
        apply Wrapping.add_sub_one_div_le (by omega)
        have h1 : c1 * s1 ≤ u64Max * s1 := Nat.mul_le_mul_right _ (by unfold u64Max; omega)
        have h2 : absorbedCreditsObserved * absorbedLamports ≤ u64Max * absorbedLamports :=
          Nat.mul_le_mul_right _ (by unfold u64Max; omega)
        rw [Nat.mul_add]
        omega
      rw [if_pos (by omega), Option.bind_some, if_pos hsum, Option.bind_some,
        if_pos (by omega), Option.bind_some, if_neg hzero, Option.bind_some, if_pos hle,
        if_pos ⟨htotal, Nat.pos_of_ne_zero hzero, hsum⟩]
    · -- the sum does not fit, before or after adding the total
      have hfits : ¬(s1 + absorbedLamports < 2 ^ 64 ∧ 0 < s1 + absorbedLamports ∧
          c1 * s1 + absorbedCreditsObserved * absorbedLamports + (s1 + absorbedLamports) <
            2 ^ 128) := fun h => hsum h.2.2
      rw [if_neg hfits]
      by_cases hpart : c1 * s1 + absorbedCreditsObserved * absorbedLamports < 2 ^ 128
      · rw [if_pos hpart, Option.bind_some, if_neg hsum, Option.bind_none]
      · rw [if_neg hpart, Option.bind_none]
  · have hfits : ¬(s1 + absorbedLamports < 2 ^ 64 ∧ 0 < s1 + absorbedLamports ∧
        c1 * s1 + absorbedCreditsObserved * absorbedLamports + (s1 + absorbedLamports) <
          2 ^ 128) := fun h => htotal h.1
    rw [if_neg htotal, Option.bind_none, if_neg hfits]

/-- The weighted average of two credits lies between them, and rounding it up keeps it there. -/
lemma weightedCredits_bounds {s1 s2 c1 c2 : ℕ} (hpos : 0 < s1 + s2) :
    min c1 c2 ≤ (c1 * s1 + c2 * s2 + (s1 + s2) - 1) / (s1 + s2) ∧
      (c1 * s1 + c2 * s2 + (s1 + s2) - 1) / (s1 + s2) ≤ max c1 c2 ∧
      c1 * s1 + c2 * s2 ≤ (c1 * s1 + c2 * s2 + (s1 + s2) - 1) / (s1 + s2) * (s1 + s2) := by
  have hmin1 : min c1 c2 * s1 ≤ c1 * s1 := Nat.mul_le_mul_right _ (min_le_left _ _)
  have hmin2 : min c1 c2 * s2 ≤ c2 * s2 := Nat.mul_le_mul_right _ (min_le_right _ _)
  have hmax1 : c1 * s1 ≤ max c1 c2 * s1 := Nat.mul_le_mul_right _ (le_max_left _ _)
  have hmax2 : c2 * s2 ≤ max c1 c2 * s2 := Nat.mul_le_mul_right _ (le_max_right _ _)
  refine ⟨Wrapping.le_add_sub_one_div hpos ?_, Wrapping.add_sub_one_div_le hpos ?_,
    Wrapping.le_add_sub_one_div_mul hpos⟩
  · rw [Nat.mul_add]
    omega
  · rw [Nat.mul_add]
    omega

/-- Credits rounded up at least to the weighted average earn, on any later credit count, at most
what the two stakes earn apart. -/
lemma laterRewards_le {s1 s2 c1 c2 c3 v : ℕ} (hc3 : c1 * s1 + c2 * s2 ≤ c3 * (s1 + s2))
    (hv1 : c1 ≤ v) (hv2 : c2 ≤ v) (hv3 : c3 ≤ v) :
    (v - c3) * (s1 + s2) ≤ (v - c1) * s1 + (v - c2) * s2 := by
  zify [hv1, hv2, hv3] at hc3 ⊢
  linarith

end WeightedCredits

theorem stake_weighted_credits_observed_never_inflates (stake : Stake Key)
    (absorbedLamports absorbedCreditsObserved : ℕ) (hstake : stake.delegation.stake < 2 ^ 64)
    (hcredits : stake.creditsObserved < 2 ^ 64) (hlamports : absorbedLamports < 2 ^ 64)
    (habsorbed : absorbedCreditsObserved < 2 ^ 64) :
    (∀ credits, stakeWeightedCreditsObserved stake absorbedLamports absorbedCreditsObserved =
        some credits →
      min stake.creditsObserved absorbedCreditsObserved ≤ credits ∧
      credits ≤ max stake.creditsObserved absorbedCreditsObserved ∧
      stake.creditsObserved * stake.delegation.stake + absorbedCreditsObserved * absorbedLamports ≤
        credits * (stake.delegation.stake + absorbedLamports) ∧
      ∀ v, max stake.creditsObserved absorbedCreditsObserved ≤ v →
        (v - credits) * (stake.delegation.stake + absorbedLamports) ≤
          (v - stake.creditsObserved) * stake.delegation.stake +
            (v - absorbedCreditsObserved) * absorbedLamports) ∧
    (stakeWeightedCreditsObserved stake absorbedLamports absorbedCreditsObserved = none ↔
      stake.creditsObserved ≠ absorbedCreditsObserved ∧
        (2 ^ 64 ≤ stake.delegation.stake + absorbedLamports ∨
          stake.delegation.stake + absorbedLamports = 0 ∨
          2 ^ 128 ≤ stake.creditsObserved * stake.delegation.stake +
            absorbedCreditsObserved * absorbedLamports +
            (stake.delegation.stake + absorbedLamports))) ∧
    (stakeWeightedCreditsObserved stake absorbedLamports absorbedCreditsObserved = none →
      mergeDelegationStakeAndCreditsObserved true stake absorbedLamports absorbedCreditsObserved =
        .error .arithmeticOverflow) := by
  refine ⟨fun credits hsome => ?_, ?_, fun hnone => ?_⟩
  · -- the credits are either the common value or the rounded-up weighted average
    have hlater : ∀ v, max stake.creditsObserved absorbedCreditsObserved ≤ v → credits ≤ v →
        stake.creditsObserved * stake.delegation.stake +
            absorbedCreditsObserved * absorbedLamports ≤
          credits * (stake.delegation.stake + absorbedLamports) →
        (v - credits) * (stake.delegation.stake + absorbedLamports) ≤
          (v - stake.creditsObserved) * stake.delegation.stake +
            (v - absorbedCreditsObserved) * absorbedLamports :=
      fun v hv hcv hc3 => laterRewards_le hc3 ((le_max_left _ _).trans hv)
        ((le_max_right _ _).trans hv) hcv
    by_cases hne : stake.creditsObserved = absorbedCreditsObserved
    · rw [stakeWeightedCreditsObserved, if_pos hne, Option.some_inj] at hsome
      subst hsome
      have hc3 : stake.creditsObserved * stake.delegation.stake +
          absorbedCreditsObserved * absorbedLamports ≤
            stake.creditsObserved * (stake.delegation.stake + absorbedLamports) := by
        rw [← hne, Nat.mul_add]
      refine ⟨min_le_left _ _, le_max_left _ _, hc3, fun v hv => hlater v hv ?_ hc3⟩
      exact (le_max_left _ _).trans hv
    · rw [stakeWeightedCreditsObserved_of_ne hstake hcredits hlamports habsorbed hne] at hsome
      split_ifs at hsome with hfits
      rw [Option.some_inj] at hsome
      subst hsome
      obtain ⟨hmin, hmax, hc3⟩ := weightedCredits_bounds hfits.2.1
      exact ⟨hmin, hmax, hc3, fun v hv => hlater v hv (hmax.trans hv) hc3⟩
  · by_cases hne : stake.creditsObserved = absorbedCreditsObserved
    · simp [stakeWeightedCreditsObserved, hne]
    · rw [stakeWeightedCreditsObserved_of_ne hstake hcredits hlamports habsorbed hne]
      split_ifs with hfits
      · simp only [false_iff, not_and, not_or, not_le]
        exact fun _ => ⟨hfits.1, by omega, hfits.2.2⟩
      · simp only [true_iff]
        refine ⟨hne, ?_⟩
        omega
  · rw [mergeDelegationStakeAndCreditsObserved, if_pos rfl, hnone]
    rfl

/-- A stake of 3 with credits 10 absorbs 1 lamport with credits 20: the merged credits are 13,
the weighted average 12.5 rounded up. -/
theorem merged_credits_of_three_and_one :
    (∀ credits, stakeWeightedCreditsObserved
        (⟨⟨(), 3, 0, 0, 0⟩, 10⟩ : Stake Unit) 1 20 = some credits →
      10 ≤ credits ∧ credits ≤ 20 ∧ 10 * 3 + 20 * 1 ≤ credits * (3 + 1) ∧
      ∀ v, 20 ≤ v → (v - credits) * (3 + 1) ≤ (v - 10) * 3 + (v - 20) * 1) ∧
      stakeWeightedCreditsObserved (⟨⟨(), 3, 0, 0, 0⟩, 10⟩ : Stake Unit) 1 20 = some 13 := by
  refine ⟨fun credits hsome => ?_, by decide⟩
  obtain ⟨hbounds, -⟩ := stake_weighted_credits_observed_never_inflates
    (⟨⟨(), 3, 0, 0, 0⟩, 10⟩ : Stake Unit) 1 20 (by norm_num) (by norm_num) (by norm_num)
    (by norm_num)
  exact hbounds credits hsome

end VelasChain.StakeProgram
