/-
AsyncVault/Dilution.lean

Performance-fee shares are the exact dilution.

The fee `F` in assets and the total `T` are floored, and so is the number of
shares `F * S / (T - F)`.  Still the shares are worth at most the fee once they
dilute the supply, and one share more would be worth more than it
(`feeShares_bounds`).  The denominator cannot vanish below a rate of 100%: the
profit is floored from a smaller NAV than the total, so the fee is a proper part
of it (`feeAssets_lt`), and only an overflow makes the computation fail.
-/
import AsyncVault.PerformanceFee

namespace AsyncVault

open Checked FixedPoint

variable {P S u mark bps decimals f : ℕ}

/-! ### The fee in assets -/

theorem feeAssets_mul_le (P S u mark bps : ℕ) :
    feeAssets P S u mark bps * maxBps ≤ worth P S (u - mark) * bps :=
  Nat.div_mul_le_self _ _

/-- The fee is no more than the rate allows of the profit before any rounding. -/
theorem feeAssets_le_rate (P S u mark bps : ℕ) :
    feeAssets P S u mark bps * maxBps * P ≤ bps * S * (u - mark) := by
  calc feeAssets P S u mark bps * maxBps * P
      ≤ worth P S (u - mark) * bps * P := Nat.mul_le_mul_right _ (feeAssets_mul_le P S u mark bps)
    _ = bps * (worth P S (u - mark) * P) := by ring
    _ ≤ bps * (S * (u - mark)) := Nat.mul_le_mul_left _ (worth_mul_le P S (u - mark))
    _ = bps * S * (u - mark) := by ring

/-- Below a rate of 100% a fee is a proper part of the total. -/
theorem feeAssets_lt (hbps : bps < maxBps) (hpos : 0 < feeAssets P S u mark bps) :
    feeAssets P S u mark bps < worth P S u := by
  by_contra hle
  have hprofit : worth P S (u - mark) ≤ worth P S u := worth_mono_price (Nat.sub_le _ _)
  have hbase : worth P S (u - mark) ≤ feeAssets P S u mark bps := by omega
  -- the fee would be at most `bps` parts of itself
  have hself : feeAssets P S u mark bps * maxBps ≤ feeAssets P S u mark bps * bps :=
    (feeAssets_mul_le P S u mark bps).trans (Nat.mul_le_mul_right _ hbase)
  exact absurd (Nat.le_of_mul_le_mul_left hself hpos) (not_le.2 hbps)

/-! ### The shares -/

/-- Both sides of the dilution: `f` shares are worth at most the fee, `f + 1` more than it. -/
theorem feeShares_bounds (hpos : 0 < feeAssets P S u mark bps)
    (hlt : feeAssets P S u mark bps < worth P S u) :
    feeShares P S u mark bps * worth P S u ≤
        feeAssets P S u mark bps * (S + feeShares P S u mark bps) ∧
      feeAssets P S u mark bps * S <
        (feeShares P S u mark bps + 1) * (worth P S u - feeAssets P S u mark bps) := by
  have hshares : feeShares P S u mark bps =
      feeAssets P S u mark bps * S / (worth P S u - feeAssets P S u mark bps) :=
    if_neg hpos.ne'
  -- what the holders keep is positive: call it `rest + 1` and divide by it
  obtain ⟨rest, hrest⟩ := Nat.exists_eq_add_of_lt hlt
  have hkept : worth P S u - feeAssets P S u mark bps = rest + 1 := by omega
  rw [hkept] at hshares ⊢
  rw [hrest, hshares]
  constructor
  · have hfloor := Nat.div_mul_le_self (feeAssets P S u mark bps * S) (rest + 1)
    calc feeAssets P S u mark bps * S / (rest + 1) * (feeAssets P S u mark bps + rest + 1)
        = feeAssets P S u mark bps * S / (rest + 1) * (rest + 1) +
            feeAssets P S u mark bps * (feeAssets P S u mark bps * S / (rest + 1)) := by ring
      _ ≤ feeAssets P S u mark bps * S +
            feeAssets P S u mark bps * (feeAssets P S u mark bps * S / (rest + 1)) :=
          Nat.add_le_add_right hfloor _
      _ = feeAssets P S u mark bps * (S + feeAssets P S u mark bps * S / (rest + 1)) := by ring
  · rw [Nat.mul_comm _ (rest + 1)]
    exact Nat.lt_mul_div_succ _ (Nat.succ_pos rest)

/-! ### Failures -/

/-- A product, a power or the result does not fit its width. -/
def FeeOverflows (P S u mark bps : ℕ) : Prop :=
  u128 ≤ P ∨ u128 ≤ S * (u - mark) ∨ u128 ≤ worth P S (u - mark) * bps ∨ u128 ≤ S * u ∨
    u128 ≤ feeAssets P S u mark bps * S ∨ u64 ≤ feeShares P S u mark bps

/-- Without an overflow, and below 100%, there are fee shares. -/
theorem performanceFee_ok_of_fits (hbps : bps < maxBps)
    (hfits : ¬FeeOverflows (10 ^ decimals) S u mark bps) :
    ∃ f, calculatePerformanceFeeShares u mark bps S decimals = .ok f := by
  unfold calculatePerformanceFeeShares
  split
  · exact ⟨0, rfl⟩
  · next h0 =>
    unfold FeeOverflows at hfits
    push Not at hfits h0
    obtain ⟨hprecision, hprofit, hfee, htotal, hshares, hfits⟩ := hfits
    obtain ⟨-, -, hgain⟩ := h0
    have hP : 0 < 10 ^ decimals := by positivity
    -- every intermediate value of the computation fits, one after the other
    simp only [bind_eq_ok, pow_eq_ok, sub_eq_ok, mul_eq_ok, div_eq_ok]
    by_cases hzero : feeAssets (10 ^ decimals) S u mark bps = 0
    · refine ⟨0, _, ⟨hprecision, rfl⟩, _, ⟨hgain.le, rfl⟩, _, ⟨hprofit, rfl⟩, _, ⟨hP, rfl⟩, _,
        ⟨hfee, rfl⟩, _, ⟨by decide, rfl⟩, ?_⟩
      exact if_pos hzero
    -- below 100% the fee is less than the total, so the division is by something
    · have hpos := Nat.pos_of_ne_zero hzero
      have hlt := feeAssets_lt hbps hpos
      have hnumber : feeShares (10 ^ decimals) S u mark bps = _ := if_neg hzero
      have hne : S * (u - mark) / 10 ^ decimals * bps / maxBps ≠ 0 := hzero
      refine ⟨feeShares (10 ^ decimals) S u mark bps, _, ⟨hprecision, rfl⟩, _, ⟨hgain.le, rfl⟩, _,
        ⟨hprofit, rfl⟩, _, ⟨hP, rfl⟩, _, ⟨hfee, rfl⟩, _, ⟨by decide, rfl⟩, ?_⟩
      rw [if_neg hne]
      simp only [bind_eq_ok, sub_eq_ok, mul_eq_ok, div_eq_ok, ensure_eq_ok, narrow_eq_ok]
      rw [hnumber] at hfits ⊢
      exact ⟨_, ⟨htotal, rfl⟩, _, ⟨hP, rfl⟩, _, ⟨hlt.le, rfl⟩, (), Nat.sub_pos_of_lt hlt, _,
        ⟨hshares, rfl⟩, _, ⟨Nat.sub_pos_of_lt hlt, rfl⟩, hfits, rfl⟩

/-- **Performance-fee shares are the exact dilution.**  With a fee of `F` out of a total of `T`: no
shares without a fee; the shares are worth at most the fee at the diluted price, and one more would
exceed it; the fee stays within its rate of the unrounded profit; and below 100% the computation
fails by an overflow only. -/
theorem performance_fee_dilution (S u mark bps decimals : ℕ) :
    (∀ f, calculatePerformanceFeeShares u mark bps S decimals = .ok f →
      (feeAssets (10 ^ decimals) S u mark bps = 0 → f = 0) ∧
      (0 < feeAssets (10 ^ decimals) S u mark bps →
        f * worth (10 ^ decimals) S u ≤ feeAssets (10 ^ decimals) S u mark bps * (S + f) ∧
        feeAssets (10 ^ decimals) S u mark bps * S <
          (f + 1) * (worth (10 ^ decimals) S u - feeAssets (10 ^ decimals) S u mark bps)) ∧
      feeAssets (10 ^ decimals) S u mark bps * 10000 * 10 ^ decimals ≤ bps * S * (u - mark)) ∧
    (bps < maxBps → ∀ e, calculatePerformanceFeeShares u mark bps S decimals = .error e →
      FeeOverflows (10 ^ decimals) S u mark bps) := by
  constructor
  · intro f h
    obtain ⟨hf, hleaves⟩ := calculatePerformanceFeeShares_ok h
    refine ⟨fun hzero => ?_, fun hpos => ?_, feeAssets_le_rate _ S u mark bps⟩
    · rw [hf]
      exact if_pos hzero
    · obtain ⟨hworth, hexceeds⟩ := feeShares_bounds hpos (hleaves hpos)
      rw [hf]
      exact ⟨hworth, hexceeds⟩
  · intro hlt e h
    by_contra hfits
    obtain ⟨f, hf⟩ := performanceFee_ok_of_fits hlt hfits
    rw [hf] at h
    cases h

/-- **Non-vacuity.** 7 million shares of 6 decimals, up from 1.1 to 1.3 at a rate of 20%. -/
theorem performance_fee_dilution_small :
    222222 * worth (10 ^ 6) 7000000 1300000 ≤
      feeAssets (10 ^ 6) 7000000 1300000 1100000 2000 * (7000000 + 222222) :=
  (((performance_fee_dilution 7000000 1300000 1100000 2000 6).1 222222 (by decide)).2.1
    (by decide)).1

end AsyncVault
