/-
AsyncVault/Waterfall.lean

The tranche waterfall of a NAV update.

A NAV update on a tranche vault revalues the pool at the posted NAV and divides
it between senior and junior: `computeTrancheWaterfall` takes each tranche at
its recorded NAV as its claim, accrues the senior target over the elapsed time,
and turns the two allocations back into NAVs.  The first update only records
the posted NAV for the tranches that have shares.

The definitions follow the source's branches and checked operations.  Their
specification is `applyTrancheWaterfall_ok`: the recorded NAVs after an update
are `postedNavs`, the prices (`FixedPoint.priceOf`) of the two parts of a
`Tranching` allocation.
-/
import AsyncVault.VaultRules
import AsyncVault.Lib.Tranching

namespace AsyncVault

open Checked FixedPoint

structure TrancheMintSnapshot where
  supply : ℕ
  decimals : ℕ
  deriving DecidableEq

structure TrancheWaterfallState where
  seniorNav : ℕ
  juniorNav : ℕ
  seniorTargetBps : ℕ
  lastWaterfallTimestamp : ℤ

structure TrancheWaterfallOutcome where
  updatedTotalAssets : ℕ
  seniorAssets : ℕ
  juniorAssets : ℕ
  seniorNav : ℕ
  juniorNav : ℕ

/-- The senior target return on `previousSeniorAssets` over the elapsed time. -/
def targetAccrual (previousSeniorAssets seniorTargetBps : ℕ) (elapsedSeconds : ℤ) : Result ℕ :=
  if elapsedSeconds ≤ 0 ∨ seniorTargetBps = 0 then
    pure 0
  else do
    let accrual ← mul arithmetic u128 previousSeniorAssets seniorTargetBps
    let accrual ← mul arithmetic u128 accrual elapsedSeconds.toNat
    let accrual ← div arithmetic accrual maxBps
    div arithmetic accrual secondsPerYear

def computeTrancheWaterfall (state : TrancheWaterfallState) (updatedNav : ℕ) (timestamp : ℤ)
    (senior junior : TrancheMintSnapshot) : Result TrancheWaterfallOutcome := do
  let previousSeniorAssets ← assetsFromNav senior.supply state.seniorNav senior.decimals
  let previousJuniorAssets ← assetsFromNav junior.supply state.juniorNav junior.decimals
  let previousTotalAssets ← add arithmetic u128 previousSeniorAssets previousJuniorAssets
  let updatedSeniorAssets ← assetsFromNav senior.supply updatedNav senior.decimals
  let updatedJuniorAssets ← assetsFromNav junior.supply updatedNav junior.decimals
  let updatedTotalAssets ← add arithmetic u128 updatedSeniorAssets updatedJuniorAssets
  let (nextSeniorAssets, nextJuniorAssets) ←
    (if previousTotalAssets ≤ updatedTotalAssets then do
      let gain ← sub arithmetic updatedTotalAssets previousTotalAssets
      let elapsedSeconds ← subInt arithmetic i64 timestamp state.lastWaterfallTimestamp
      let accrual ← targetAccrual previousSeniorAssets state.seniorTargetBps elapsedSeconds
      let seniorAssets ← add arithmetic u128 previousSeniorAssets (min gain accrual)
      let juniorAssets ← sub arithmetic updatedTotalAssets seniorAssets
      pure (seniorAssets, juniorAssets)
    else do
      let loss ← sub arithmetic previousTotalAssets updatedTotalAssets
      let juniorLoss := min loss previousJuniorAssets
      let juniorAssets ← sub arithmetic previousJuniorAssets juniorLoss
      let seniorLoss ← sub arithmetic loss juniorLoss
      let seniorAssets ← sub arithmetic previousSeniorAssets seniorLoss
      pure (seniorAssets, juniorAssets) : Result (ℕ × ℕ))
  let seniorNav ← navFromAssets nextSeniorAssets senior.supply senior.decimals
  let juniorNav ← navFromAssets nextJuniorAssets junior.supply junior.decimals
  pure ⟨updatedTotalAssets, nextSeniorAssets, nextJuniorAssets, seniorNav, juniorNav⟩

/-- Whether the next waterfall is the tranche vault's first. -/
def TrancheConfig.firstWaterfall (tc : TrancheConfig) : Prop :=
  tc.lastWaterfallSlot = 0 ∧ tc.seniorNav = 0 ∧ tc.juniorNav = 0

instance (tc : TrancheConfig) : Decidable tc.firstWaterfall :=
  inferInstanceAs (Decidable (_ ∧ _))

def applyTrancheWaterfall (tc : TrancheConfig) (updatedNav slot : ℕ) (timestamp : ℤ)
    (senior junior : TrancheMintSnapshot) : Result TrancheConfig :=
  if tc.firstWaterfall then
    pure { tc with
      seniorNav := if senior.supply = 0 then 0 else updatedNav
      juniorNav := if junior.supply = 0 then 0 else updatedNav
      seniorSupply := senior.supply
      juniorSupply := junior.supply
      lastWaterfallSlot := slot
      lastWaterfallTimestamp := timestamp }
  else do
    let outcome ← computeTrancheWaterfall
      ⟨tc.seniorNav, tc.juniorNav, tc.seniorTargetBps, tc.lastWaterfallTimestamp⟩
      updatedNav timestamp senior junior
    let conservedAssets ← add arithmetic u128 outcome.seniorAssets outcome.juniorAssets
    ensure .arithmeticError (conservedAssets = outcome.updatedTotalAssets)
    pure { tc with
      seniorNav := outcome.seniorNav
      juniorNav := outcome.juniorNav
      seniorSupply := senior.supply
      juniorSupply := junior.supply
      lastWaterfallSlot := slot
      lastWaterfallTimestamp := timestamp }

/-! ### Specification -/

/-- The accrual as a formula, without the width checks. -/
def accrued (previousSeniorAssets seniorTargetBps : ℕ) (elapsedSeconds : ℤ) : ℕ :=
  previousSeniorAssets * seniorTargetBps * elapsedSeconds.toNat / maxBps / secondsPerYear

@[simp] theorem accrued_zero_elapsed (A bps : ℕ) : accrued A bps 0 = 0 := by
  simp [accrued]

theorem targetAccrual_ok {A bps n : ℕ} {elapsed : ℤ} (h : targetAccrual A bps elapsed = .ok n) :
    n = accrued A bps elapsed := by
  unfold targetAccrual at h
  split at h
  · next h0 =>
    obtain rfl := pure_eq_ok.1 h
    rcases h0 with h0 | rfl
    · simp [accrued, Int.toNat_of_nonpos h0]
    · simp [accrued]
  · simp only [bind_eq_ok, mul_eq_ok, div_eq_ok] at h
    obtain ⟨_, ⟨-, rfl⟩, _, ⟨-, rfl⟩, _, ⟨-, rfl⟩, -, rfl⟩ := h
    rfl

/-- The two tranches as a NAV update sees them: effective supply and price unit
of each mint. -/
structure TranchePool where
  seniorSupply : ℕ
  juniorSupply : ℕ
  seniorUnit : ℕ
  juniorUnit : ℕ

namespace TranchePool

/-- The value of all senior shares at a price. -/
def seniorWorth (pool : TranchePool) (nav : ℕ) : ℕ :=
  worth pool.seniorUnit pool.seniorSupply nav

/-- The value of all junior shares at a price. -/
def juniorWorth (pool : TranchePool) (nav : ℕ) : ℕ :=
  worth pool.juniorUnit pool.juniorSupply nav

/-- The aggregate value a posted NAV assigns to the pool. -/
def postedTotal (pool : TranchePool) (nav : ℕ) : ℕ :=
  pool.seniorWorth nav + pool.juniorWorth nav

/-- Senior's part of the posted total, when the tranches stood at `seniorNav`
and `juniorNav` and senior has accrued its target for `elapsed` seconds. -/
def seniorPart (pool : TranchePool) (seniorNav juniorNav targetBps : ℕ) (elapsed : ℤ)
    (updatedNav : ℕ) : ℕ :=
  Tranching.senior (pool.seniorWorth seniorNav) (pool.juniorWorth juniorNav)
    (pool.postedTotal updatedNav) (accrued (pool.seniorWorth seniorNav) targetBps elapsed)

/-- Junior's part of the posted total. -/
def juniorPart (pool : TranchePool) (seniorNav juniorNav targetBps : ℕ) (elapsed : ℤ)
    (updatedNav : ℕ) : ℕ :=
  Tranching.junior (pool.seniorWorth seniorNav) (pool.juniorWorth juniorNav)
    (pool.postedTotal updatedNav) (accrued (pool.seniorWorth seniorNav) targetBps elapsed)

end TranchePool

/-- The pool of two mint snapshots. -/
def poolOf (senior junior : TrancheMintSnapshot) : TranchePool :=
  ⟨senior.supply, junior.supply, 10 ^ senior.decimals, 10 ^ junior.decimals⟩

theorem computeTrancheWaterfall_ok {st : TrancheWaterfallState} {updatedNav : ℕ} {timestamp : ℤ}
    {senior junior : TrancheMintSnapshot} {o : TrancheWaterfallOutcome}
    (h : computeTrancheWaterfall st updatedNav timestamp senior junior = .ok o) :
    let pool := poolOf senior junior
    let elapsed := timestamp - st.lastWaterfallTimestamp
    o.updatedTotalAssets = pool.postedTotal updatedNav ∧
    o.seniorAssets = pool.seniorPart st.seniorNav st.juniorNav st.seniorTargetBps elapsed
      updatedNav ∧
    o.juniorAssets = pool.juniorPart st.seniorNav st.juniorNav st.seniorTargetBps elapsed
      updatedNav ∧
    o.seniorNav = priceOf pool.seniorUnit pool.seniorSupply o.seniorAssets ∧
    o.juniorNav = priceOf pool.juniorUnit pool.juniorSupply o.juniorAssets := by
  simp only [computeTrancheWaterfall, bind_eq_ok, add_eq_ok, pure_eq_ok] at h
  obtain ⟨A, hA, B, hB, prev, ⟨-, rfl⟩, a, ha, b, hb, total, ⟨-, rfl⟩, ⟨sa, ja⟩, hparts,
    sn, hsn, jn, hjn, rfl⟩ := h
  have eA := assetsFromNav_ok hA
  have eB := assetsFromNav_ok hB
  have ea := assetsFromNav_ok ha
  have eb := assetsFromNav_ok hb
  -- the total first, then the same case split on gain or loss for both parts
  refine ⟨?_, ?_, ?_, navFromAssets_ok hsn, navFromAssets_ok hjn⟩
  · simp only [TranchePool.postedTotal, TranchePool.seniorWorth, TranchePool.juniorWorth, poolOf]
    omega
  all_goals
    simp only [TranchePool.seniorPart, TranchePool.juniorPart, TranchePool.postedTotal,
      TranchePool.seniorWorth, TranchePool.juniorWorth, poolOf, ← eA, ← eB, ← ea, ← eb]
    -- a gain accrues to senior first, a loss is taken by junior first
    split at hparts
    · simp only [bind_eq_ok, add_eq_ok, sub_eq_ok, subInt_eq_ok, pure_eq_ok,
        Prod.mk.injEq] at hparts
      obtain ⟨gain, ⟨-, rfl⟩, elapsed, ⟨-, rfl⟩, accr, haccr, s, ⟨-, rfl⟩, j, ⟨-, rfl⟩,
        rfl, rfl⟩ := hparts
      rw [← targetAccrual_ok haccr]
      simp only [Tranching.junior, Tranching.senior]
      split <;> omega
    · simp only [bind_eq_ok, sub_eq_ok, pure_eq_ok, Prod.mk.injEq] at hparts
      obtain ⟨loss, ⟨-, rfl⟩, j, ⟨-, rfl⟩, sl, ⟨-, rfl⟩, s, ⟨-, rfl⟩, rfl, rfl⟩ := hparts
      simp only [Tranching.junior, Tranching.senior]
      split <;> omega

/-- The NAVs recorded by a waterfall: the posted NAV for each tranche with
shares on the first one, the price of its part afterwards. -/
def postedNavs (tc : TrancheConfig) (pool : TranchePool) (updatedNav : ℕ) (timestamp : ℤ) :
    ℕ × ℕ :=
  let elapsed := timestamp - tc.lastWaterfallTimestamp
  if tc.firstWaterfall then
    (if pool.seniorSupply = 0 then 0 else updatedNav,
      if pool.juniorSupply = 0 then 0 else updatedNav)
  else
    (priceOf pool.seniorUnit pool.seniorSupply
        (pool.seniorPart tc.seniorNav tc.juniorNav tc.seniorTargetBps elapsed updatedNav),
      priceOf pool.juniorUnit pool.juniorSupply
        (pool.juniorPart tc.seniorNav tc.juniorNav tc.seniorTargetBps elapsed updatedNav))

/-- The configuration after a waterfall: the posted NAVs, the supplies of the pool,
and the time. -/
def TrancheConfig.afterWaterfall (tc : TrancheConfig) (pool : TranchePool) (updatedNav slot : ℕ)
    (timestamp : ℤ) : TrancheConfig :=
  { tc with
    seniorNav := (postedNavs tc pool updatedNav timestamp).1
    juniorNav := (postedNavs tc pool updatedNav timestamp).2
    seniorSupply := pool.seniorSupply
    juniorSupply := pool.juniorSupply
    lastWaterfallSlot := slot
    lastWaterfallTimestamp := timestamp }

/-- **Specification of the waterfall.** A successful update records the posted
NAVs, refreshes the cached supplies and stamps the time; it changes nothing
else of the configuration. -/
theorem applyTrancheWaterfall_ok {tc tc' : TrancheConfig} {updatedNav slot : ℕ} {timestamp : ℤ}
    {senior junior : TrancheMintSnapshot}
    (h : applyTrancheWaterfall tc updatedNav slot timestamp senior junior = .ok tc') :
    tc' = tc.afterWaterfall (poolOf senior junior) updatedNav slot timestamp := by
  unfold applyTrancheWaterfall at h
  split at h
  · next h0 =>
    obtain rfl := pure_eq_ok.1 h
    simp only [TrancheConfig.afterWaterfall, postedNavs, h0, if_true]
    rfl
  · next h0 =>
    simp only [bind_eq_ok, add_eq_ok, ensure_eq_ok, pure_eq_ok] at h
    obtain ⟨o, ho, _, -, -, -, rfl⟩ := h
    obtain ⟨-, hs, hj, hsn, hjn⟩ := computeTrancheWaterfall_ok ho
    simp only [TrancheConfig.afterWaterfall, postedNavs, h0, if_false, hsn, hjn, hs, hj]
    rfl

end AsyncVault
