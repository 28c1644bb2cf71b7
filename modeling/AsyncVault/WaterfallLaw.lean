/-
AsyncVault/WaterfallLaw.lean

The allocation law of the waterfall.

What the waterfall computes is an allocation of the posted total
(`computeTrancheWaterfall_ok`), and what an allocation is known for (`Tranching`)
carries over to any supplies, decimals and NAVs: the parts make the total, junior
loses first, senior gains its target and no more, and both parts are monotone in
the posted NAV across the boundary of loss and gain.  That the computation goes
through is a matter of widths alone (`WaterfallFits`): none of its subtractions
can be negative, and no divisor is zero.
-/
import AsyncVault.Waterfall
import Mathlib

namespace AsyncVault

open Checked FixedPoint

variable {st : TrancheWaterfallState} {u u' : ℕ} {timestamp : ℤ}
variable {senior junior : TrancheMintSnapshot} {o o' : TrancheWaterfallOutcome}

/-! ### What has to fit -/

/-- The value of a supply can be computed: nothing is, for no shares or at no price. -/
def ValueFits (supply nav decimals : ℕ) : Prop :=
  supply ≠ 0 → nav ≠ 0 → 10 ^ decimals < u128 ∧ supply * nav < u128

/-- The price of a supply can be computed. -/
def PriceFits (assets supply decimals : ℕ) : Prop :=
  supply ≠ 0 → 10 ^ decimals < u128 ∧ assets * 10 ^ decimals < u128

/-- The target accrual can be computed. -/
def AccrualFits (assets targetBps : ℕ) (elapsed : ℤ) : Prop :=
  0 < elapsed → targetBps ≠ 0 →
    assets * targetBps < u128 ∧ assets * targetBps * elapsed.toNat < u128

theorem exists_assetsFromNav {supply nav decimals : ℕ} (h : ValueFits supply nav decimals) :
    assetsFromNav supply nav decimals = .ok (worth (10 ^ decimals) supply nav) := by
  unfold assetsFromNav
  split
  · next hzero =>
    rcases hzero with rfl | rfl <;> simp [pure, Except.pure]
  · next hne =>
    push Not at hne
    obtain ⟨hpower, hproduct⟩ := h hne.1 hne.2
    simp only [bind_eq_ok, pow_eq_ok, mul_eq_ok, div_eq_ok]
    exact ⟨_, ⟨hpower, rfl⟩, _, ⟨hproduct, rfl⟩, by positivity, rfl⟩

theorem exists_navFromAssets {assets supply decimals : ℕ} (h : PriceFits assets supply decimals) :
    navFromAssets assets supply decimals = .ok (priceOf (10 ^ decimals) supply assets) := by
  unfold navFromAssets
  split
  · next hzero => simp [hzero, pure, Except.pure]
  · next hne =>
    obtain ⟨hpower, hproduct⟩ := h hne
    simp only [bind_eq_ok, pow_eq_ok, mul_eq_ok, div_eq_ok]
    exact ⟨_, ⟨hpower, rfl⟩, _, ⟨hproduct, rfl⟩, Nat.pos_of_ne_zero hne, rfl⟩

theorem exists_targetAccrual {assets targetBps : ℕ} {elapsed : ℤ}
    (h : AccrualFits assets targetBps elapsed) :
    targetAccrual assets targetBps elapsed = .ok (accrued assets targetBps elapsed) := by
  unfold targetAccrual
  split
  · next hzero =>
    rcases hzero with hle | rfl
    · simp [accrued, Int.toNat_of_nonpos hle, pure, Except.pure]
    · simp [accrued, pure, Except.pure]
  · next hne =>
    push Not at hne
    obtain ⟨hrate, htime⟩ := h hne.1 hne.2
    simp only [bind_eq_ok, mul_eq_ok, div_eq_ok]
    exact ⟨_, ⟨hrate, rfl⟩, _, ⟨htime, rfl⟩, _, ⟨by decide, rfl⟩, by decide, rfl⟩

/-- Every product, sum and power of a waterfall fits 128 bits; on a gain, which alone accrues, so
does the accrual, and the time fits 64. -/
structure WaterfallFits (st : TrancheWaterfallState) (u : ℕ) (timestamp : ℤ)
    (senior junior : TrancheMintSnapshot) : Prop where
  previousSenior : ValueFits senior.supply st.seniorNav senior.decimals
  previousJunior : ValueFits junior.supply st.juniorNav junior.decimals
  previousTotal : (poolOf senior junior).seniorWorth st.seniorNav +
    (poolOf senior junior).juniorWorth st.juniorNav < u128
  updatedSenior : ValueFits senior.supply u senior.decimals
  updatedJunior : ValueFits junior.supply u junior.decimals
  updatedTotal : (poolOf senior junior).postedTotal u < u128
  elapsed : (poolOf senior junior).seniorWorth st.seniorNav +
      (poolOf senior junior).juniorWorth st.juniorNav ≤ (poolOf senior junior).postedTotal u →
    -i64 ≤ timestamp - st.lastWaterfallTimestamp ∧ timestamp - st.lastWaterfallTimestamp < i64
  accrual : (poolOf senior junior).seniorWorth st.seniorNav +
      (poolOf senior junior).juniorWorth st.juniorNav ≤ (poolOf senior junior).postedTotal u →
    AccrualFits ((poolOf senior junior).seniorWorth st.seniorNav) st.seniorTargetBps
      (timestamp - st.lastWaterfallTimestamp)
  seniorNav : PriceFits ((poolOf senior junior).seniorPart st.seniorNav st.juniorNav
    st.seniorTargetBps (timestamp - st.lastWaterfallTimestamp) u) senior.supply senior.decimals
  juniorNav : PriceFits ((poolOf senior junior).juniorPart st.seniorNav st.juniorNav
    st.seniorTargetBps (timestamp - st.lastWaterfallTimestamp) u) junior.supply junior.decimals

/-- The outcome of a waterfall as a formula. -/
def waterfallOutcome (st : TrancheWaterfallState) (u : ℕ) (timestamp : ℤ)
    (senior junior : TrancheMintSnapshot) : TrancheWaterfallOutcome :=
  let pool := poolOf senior junior
  let elapsed := timestamp - st.lastWaterfallTimestamp
  let seniorAssets := pool.seniorPart st.seniorNav st.juniorNav st.seniorTargetBps elapsed u
  let juniorAssets := pool.juniorPart st.seniorNav st.juniorNav st.seniorTargetBps elapsed u
  { updatedTotalAssets := pool.postedTotal u
    seniorAssets := seniorAssets
    juniorAssets := juniorAssets
    seniorNav := priceOf pool.seniorUnit pool.seniorSupply seniorAssets
    juniorNav := priceOf pool.juniorUnit pool.juniorSupply juniorAssets }

/-- **Where everything fits there is an outcome**: no subtraction or division fails. -/
theorem exists_waterfall (h : WaterfallFits st u timestamp senior junior) :
    computeTrancheWaterfall st u timestamp senior junior =
      .ok (waterfallOutcome st u timestamp senior junior) := by
  obtain ⟨hA, hB, hprevious, ha, hb, htotal, helapsed, haccrual, hsenior, hjunior⟩ := h
  simp only [computeTrancheWaterfall, bind_eq_ok, add_eq_ok, pure_eq_ok]
  refine ⟨_, exists_assetsFromNav hA, _, exists_assetsFromNav hB, _, ⟨hprevious, rfl⟩, _,
    exists_assetsFromNav ha, _, exists_assetsFromNav hb, _, ⟨htotal, rfl⟩,
    ((waterfallOutcome st u timestamp senior junior).seniorAssets,
      (waterfallOutcome st u timestamp senior junior).juniorAssets), ?_, _,
    exists_navFromAssets hsenior, _, exists_navFromAssets hjunior, rfl⟩
  simp only [waterfallOutcome, TranchePool.seniorPart, TranchePool.juniorPart,
    TranchePool.postedTotal, TranchePool.seniorWorth, TranchePool.juniorWorth, poolOf] at htotal ⊢
  simp only [TranchePool.postedTotal, TranchePool.seniorWorth, TranchePool.juniorWorth, poolOf]
    at helapsed haccrual
  generalize worth (10 ^ senior.decimals) senior.supply st.seniorNav = A at helapsed haccrual ⊢
  generalize worth (10 ^ junior.decimals) junior.supply st.juniorNav = B at helapsed haccrual ⊢
  generalize worth (10 ^ senior.decimals) senior.supply u +
    worth (10 ^ junior.decimals) junior.supply u = T at htotal helapsed haccrual ⊢
  split
  · next hle =>
    -- the credit is within the gain, so senior gets no more than the total
    simp only [bind_eq_ok, add_eq_ok, sub_eq_ok, subInt_eq_ok, pure_eq_ok, Prod.mk.injEq]
    refine ⟨_, ⟨hle, rfl⟩, _, ⟨helapsed hle, rfl⟩, _, exists_targetAccrual (haccrual hle), _,
      ⟨?_, rfl⟩, _, ⟨?_, rfl⟩, ?_, ?_⟩
    · omega
    · omega
    · rw [Tranching.senior_of_le hle]
    · rw [Tranching.junior, Tranching.senior_of_le hle]
  · next hlt =>
    -- junior loses what it has at most, and senior no more than is lost
    have hlt : T < A + B := not_le.1 hlt
    simp only [bind_eq_ok, sub_eq_ok, pure_eq_ok, Prod.mk.injEq]
    refine ⟨_, ⟨hlt.le, rfl⟩, _, ⟨min_le_right _ _, rfl⟩, _, ⟨min_le_left _ _, rfl⟩, _, ⟨?_, rfl⟩,
      ?_, ?_⟩
    · omega
    · rw [Tranching.senior_of_lt hlt]
      omega
    · rw [Tranching.junior, Tranching.senior_of_lt hlt]
      omega

/-! ### The law -/

/-- **The allocation law.**  Where everything fits there is an outcome, and of every outcome: the
parts make the posted total; senior falls only when junior is gone; on a gain senior gets the
target accrual, as far as the gain goes, and junior loses nothing; and each recorded NAV is worth
the part up to one price unit on every share.  Both parts are monotone in the posted NAV. -/
theorem waterfall_law (st : TrancheWaterfallState) (timestamp : ℤ)
    (senior junior : TrancheMintSnapshot) :
    let A := worth (10 ^ senior.decimals) senior.supply st.seniorNav
    let B := worth (10 ^ junior.decimals) junior.supply st.juniorNav
    (∀ u, WaterfallFits st u timestamp senior junior →
      ∃ o, computeTrancheWaterfall st u timestamp senior junior = .ok o) ∧
    (∀ u o, computeTrancheWaterfall st u timestamp senior junior = .ok o →
      o.updatedTotalAssets = worth (10 ^ senior.decimals) senior.supply u +
        worth (10 ^ junior.decimals) junior.supply u ∧
      o.seniorAssets + o.juniorAssets = o.updatedTotalAssets ∧
      (o.updatedTotalAssets < A + B → o.seniorAssets < A → o.juniorAssets = 0) ∧
      (A + B ≤ o.updatedTotalAssets →
        o.seniorAssets = A + min (o.updatedTotalAssets - (A + B))
          (A * st.seniorTargetBps * (timestamp - st.lastWaterfallTimestamp).toNat / 10000 /
            secondsPerYear) ∧
        B ≤ o.juniorAssets) ∧
      (senior.supply ≠ 0 →
        worth (10 ^ senior.decimals) senior.supply o.seniorNav ≤ o.seniorAssets ∧
        o.seniorAssets ≤ worth (10 ^ senior.decimals) senior.supply o.seniorNav +
          senior.supply ⌈/⌉ 10 ^ senior.decimals) ∧
      (junior.supply ≠ 0 →
        worth (10 ^ junior.decimals) junior.supply o.juniorNav ≤ o.juniorAssets ∧
        o.juniorAssets ≤ worth (10 ^ junior.decimals) junior.supply o.juniorNav +
          junior.supply ⌈/⌉ 10 ^ junior.decimals)) ∧
    ∀ u u' o o', u ≤ u' → computeTrancheWaterfall st u timestamp senior junior = .ok o →
      computeTrancheWaterfall st u' timestamp senior junior = .ok o' →
      o.seniorAssets ≤ o'.seniorAssets ∧ o.juniorAssets ≤ o'.juniorAssets := by
  intro A B
  refine ⟨fun u hfits => ⟨_, exists_waterfall hfits⟩, ?_, ?_⟩
  · intro u o h
    -- every outcome is the allocation of the posted total
    obtain ⟨htotal, hsenior, hjunior, hsn, hjn⟩ := computeTrancheWaterfall_ok h
    have hsum : o.seniorAssets + o.juniorAssets = o.updatedTotalAssets := by
      rw [htotal, hsenior, hjunior]
      exact Tranching.allocate_add
    refine ⟨htotal, hsum, fun _ hlt => ?_, fun hle => ⟨?_, ?_⟩, fun hne => ?_, fun hne => ?_⟩
    · rw [hsenior] at hlt
      rw [hjunior]
      exact Tranching.senior_lt_imp hlt
    · rw [htotal] at hle ⊢
      rw [hsenior]
      exact Tranching.senior_of_le hle
    · rw [htotal] at hle
      rw [hjunior]
      exact Tranching.le_junior_of_le hle
    · rw [hsn]
      exact ⟨worth_priceOf_le _ _ _,
        le_worth_priceOf (by positivity) (Nat.pos_of_ne_zero hne) _⟩
    · rw [hjn]
      exact ⟨worth_priceOf_le _ _ _,
        le_worth_priceOf (by positivity) (Nat.pos_of_ne_zero hne) _⟩
  · intro u u' o o' hle h h'
    obtain ⟨-, hsenior, hjunior, -, -⟩ := computeTrancheWaterfall_ok h
    obtain ⟨-, hsenior', hjunior', -, -⟩ := computeTrancheWaterfall_ok h'
    -- a higher price posts a higher total, and the allocation is monotone
    have hposted : (poolOf senior junior).postedTotal u ≤ (poolOf senior junior).postedTotal u' :=
      Nat.add_le_add (worth_mono_price hle) (worth_mono_price hle)
    rw [hsenior, hjunior, hsenior', hjunior']
    exact Tranching.allocate_mono hposted

/-- **Non-vacuity.** Decimals that differ, and an empty junior tranche: over a year at 8% senior
gains from 1000 to 1080 of 1200. -/
theorem waterfall_law_small : ∃ o, computeTrancheWaterfall ⟨1000, 5, 800, 0⟩ 1200 31536000
    ⟨1000000, 6⟩ ⟨0, 9⟩ = .ok o ∧ o.seniorAssets + o.juniorAssets = o.updatedTotalAssets := by
  obtain ⟨hexists, hlaw, -⟩ := waterfall_law ⟨1000, 5, 800, 0⟩ 31536000 ⟨1000000, 6⟩ ⟨0, 9⟩
  obtain ⟨o, ho⟩ := hexists 1200 (by
    constructor <;> simp [ValueFits, PriceFits, AccrualFits, poolOf, TranchePool.seniorWorth,
      TranchePool.juniorWorth, TranchePool.postedTotal, TranchePool.seniorPart,
      TranchePool.juniorPart, worth, u128, i64, Tranching.senior, Tranching.junior,
      accrued, maxBps, secondsPerYear])
  exact ⟨o, ho, (hlaw 1200 o ho).2.1⟩

end AsyncVault
