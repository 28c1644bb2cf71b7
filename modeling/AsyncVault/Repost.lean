/-
AsyncVault/Repost.lean

A NAV update that reports neither a gain nor a loss.

Posting a NAV again at the same time takes the branch of a gain of zero, in
which senior keeps its recorded value.  Keeping a value is not keeping a NAV:
the value is floored when it is read off the NAV and the NAV is floored when it
is read off the value, so the recorded NAVs are kept exactly where nothing is
floored (`repost_resettles`).

Settlements and the waterfall do not read the same NAV off a configuration.  A
recorded zero is the vault's NAV to the former and zero to the latter, so the
subscribers of a tranche that was never priced lose what they paid to the other
one at the next update (`neutral_update_iff`).
-/
import AsyncVault.TrancheValue

namespace AsyncVault

open Checked TokenLedger KeyedStore OrderBook Machine FixedPoint

variable {t t₁ : ManagedState} {verify verify' : MerkleCheck} {s s' s₂ : VaultState}
variable {tc tc' : TrancheConfig} {authority authority' : Pubkey} {u : ℕ}
variable {remaining remaining' : List AccountInfo} {pool : TranchePool} {slot : ℕ} {timestamp : ℤ}

/-! ### No gain and no loss -/

/-- A configuration never records more than the posted total. -/
theorem recordedValue_le_posted (tc : TrancheConfig) :
    (tc.afterWaterfall pool u slot timestamp).recordedValue pool ≤ pool.postedTotal u := by
  by_cases hfirst : tc.firstWaterfall
  · exact (recordedValue_first hfirst).le
  · obtain ⟨hs, hj⟩ := afterWaterfall_later u pool timestamp slot hfirst
    have hsum := shares_add tc pool u timestamp
    have hsenior := worth_priceOf_le pool.seniorUnit pool.seniorSupply
      (tc.seniorShare pool u timestamp)
    have hjunior := worth_priceOf_le pool.juniorUnit pool.juniorSupply
      (tc.juniorShare pool u timestamp)
    rw [TrancheConfig.recordedValue, hs, hj]
    unfold TranchePool.seniorWorth TranchePool.juniorWorth
    omega

/-- With no time elapsed and the recorded value covered, senior is allocated its
recorded value. -/
theorem seniorShare_neutral (hnow : timestamp = tc.lastWaterfallTimestamp)
    (hle : tc.recordedValue pool ≤ pool.postedTotal u) :
    tc.seniorShare pool u timestamp = pool.seniorWorth tc.seniorNav := by
  unfold TrancheConfig.seniorShare TranchePool.seniorPart
  rw [hnow, sub_self, accrued_zero_elapsed]
  exact Tranching.senior_no_credit hle

/-- ... and junior the rest of the total. -/
theorem juniorShare_neutral (hnow : timestamp = tc.lastWaterfallTimestamp)
    (hle : tc.recordedValue pool ≤ pool.postedTotal u) :
    tc.juniorShare pool u timestamp = pool.postedTotal u - pool.seniorWorth tc.seniorNav := by
  have hsum := shares_add tc pool u timestamp
  rw [seniorShare_neutral hnow hle] at hsum
  omega

/-! ### Posting a NAV again -/

/-- What a second posting of a NAV makes of the recorded NAVs. -/
structure Resettled (pool : TranchePool) (u : ℕ) (tc tc' : TrancheConfig) : Prop where
  /-- Senior's NAV never rises, and its value falls by the rounding of one NAV unit
  at most. -/
  senior_le : tc'.seniorNav ≤ tc.seniorNav
  senior_value : pool.seniorWorth tc.seniorNav ≤
    pool.seniorWorth tc'.seniorNav + pool.seniorSupply ⌈/⌉ pool.seniorUnit
  /-- It is kept exactly when the value of the senior shares is a whole number. -/
  senior_iff : tc'.seniorNav = tc.seniorNav ↔ pool.seniorUnit ∣ pool.seniorSupply * tc.seniorNav
  /-- Junior's value falls by the rounding of one NAV unit at most, and rises by the
  rounding of both at most. -/
  junior_value : pool.juniorWorth tc.juniorNav ≤
    pool.juniorWorth tc'.juniorNav + pool.juniorSupply ⌈/⌉ pool.juniorUnit
  junior_le : pool.juniorWorth tc'.juniorNav ≤ pool.juniorWorth tc.juniorNav + pool.rounding
  /-- Its NAV is kept exactly when it is the price of what senior leaves of the total. -/
  junior_iff : tc'.juniorNav = tc.juniorNav ↔ pool.juniorSupply = 0 ∨
    pool.juniorSupply * tc.juniorNav ≤
        (pool.postedTotal u - pool.seniorWorth tc.seniorNav) * pool.juniorUnit ∧
      (pool.postedTotal u - pool.seniorWorth tc.seniorNav) * pool.juniorUnit <
        pool.juniorSupply * (tc.juniorNav + 1)

/-- Without senior shares no senior NAV is recorded. -/
theorem seniorNav_of_unissued (h : pool.seniorSupply = 0) (tc : TrancheConfig) :
    (tc.afterWaterfall pool u slot timestamp).seniorNav = 0 := by
  by_cases hfirst : tc.firstWaterfall
  · rw [(afterWaterfall_first u pool timestamp slot hfirst).1, if_pos h]
  · rw [(afterWaterfall_later u pool timestamp slot hfirst).1, h, priceOf_zero_shares]

/-- Without junior shares no junior NAV is recorded. -/
theorem juniorNav_of_unissued (h : pool.juniorSupply = 0) (tc : TrancheConfig) :
    (tc.afterWaterfall pool u slot timestamp).juniorNav = 0 := by
  by_cases hfirst : tc.firstWaterfall
  · rw [(afterWaterfall_first u pool timestamp slot hfirst).2, if_pos h]
  · rw [(afterWaterfall_later u pool timestamp slot hfirst).2, h, priceOf_zero_shares]

/-- A value read off a price survives its pricing up to one unit of it. -/
theorem worth_le_worth_again {P S : ℕ} (hP : 0 < P) (p : ℕ) :
    worth P S p ≤ worth P S (priceOf P S (worth P S p)) + S ⌈/⌉ P :=
  part_le_recorded hP fun h => by rw [h, worth_zero_shares]

/-- A second posting under the configuration a first one left. -/
theorem resettled (hp : pool.Priced) {slot' : ℕ}
    (htc' : tc' = tc.afterWaterfall pool u slot timestamp) (hfirst : ¬tc'.firstWaterfall) :
    Resettled pool u tc' (tc'.afterWaterfall pool u slot' timestamp) := by
  have hnow : timestamp = tc'.lastWaterfallTimestamp := by rw [htc']; rfl
  have hle : tc'.recordedValue pool ≤ pool.postedTotal u := htc' ▸ recordedValue_le_posted tc
  obtain ⟨hs, hj⟩ := afterWaterfall_later u pool timestamp slot' hfirst
  rw [seniorShare_neutral hnow hle] at hs
  rw [juniorShare_neutral hnow hle] at hj
  -- the three facts about senior are those of the round trip through its value
  have hsenior : (tc'.afterWaterfall pool u slot' timestamp).seniorNav = tc'.seniorNav ↔
      pool.seniorUnit ∣ pool.seniorSupply * tc'.seniorNav := by
    rw [hs]
    rcases Nat.eq_zero_or_pos pool.seniorSupply with h | h
    · have h0 : tc'.seniorNav = 0 := htc' ▸ seniorNav_of_unissued h tc
      simp [h, h0]
    · exact priceOf_worth_eq_iff h
  have hsenior_le : (tc'.afterWaterfall pool u slot' timestamp).seniorNav ≤ tc'.seniorNav := by
    rw [hs]
    exact priceOf_worth_le _ _ _
  have hsenior_value := worth_le_worth_again (S := pool.seniorSupply) hp.senior tc'.seniorNav
  rcases Nat.eq_zero_or_pos pool.juniorSupply with h | h
  · -- without junior shares there is no junior NAV, before or after
    have hzero : ∀ nav, pool.juniorWorth nav = 0 := fun nav => by
      rw [TranchePool.juniorWorth, h, worth_zero_shares]
    have hnav : tc'.juniorNav = 0 := htc' ▸ juniorNav_of_unissued h tc
    have hnav' : (tc'.afterWaterfall pool u slot' timestamp).juniorNav = 0 :=
      juniorNav_of_unissued h tc'
    refine ⟨hsenior_le, ?_, hsenior, ?_, ?_, iff_of_true (hnav'.trans hnav.symm) (.inl h)⟩
    · rw [hs]
      exact hsenior_value
    · rw [hzero]
      exact Nat.zero_le _
    · rw [hzero]
      exact Nat.zero_le _
  · -- junior is priced from the rest of the total, which is close to its value
    have hgap : pool.postedTotal u ≤ tc'.recordedValue pool + pool.rounding :=
      htc' ▸ (posted_le_recorded_iff hp).2 (.inr (.inr (.inl h)))
    unfold TrancheConfig.recordedValue at hle hgap
    refine ⟨hsenior_le, ?_, hsenior, ?_, ?_, ?_⟩
    · rw [hs]
      exact hsenior_value
    · rw [hj]
      have hprice := part_le_recorded (S := pool.juniorSupply)
        (c := pool.postedTotal u - pool.seniorWorth tc'.seniorNav) hp.junior
        fun h0 => absurd h0 h.ne'
      exact le_trans (by omega) hprice
    · rw [hj]
      have hprice := worth_priceOf_le pool.juniorUnit pool.juniorSupply
        (pool.postedTotal u - pool.seniorWorth tc'.seniorNav)
      exact le_trans hprice (by omega)
    · rw [hj, priceOf_eq_iff h]
      simp only [h.ne', false_or]

/-- What a second posting leaves: it counts as the first where the first one was made
at slot zero and priced nothing, and resettles otherwise. -/
def PostedAgain (pool : TranchePool) (u : ℕ) (tc tc' : TrancheConfig) : Prop :=
  if tc.firstWaterfall then
    tc'.seniorNav = (if pool.seniorSupply = 0 then 0 else u) ∧
      tc'.juniorNav = if pool.juniorSupply = 0 then 0 else u
  else Resettled pool u tc tc'

/-- **Posting a NAV again.** When a NAV update is followed, at the same time and the
same effective supplies, by another one with the same NAV, in whatever states and
by whomever, the second one resettles. -/
theorem repost_resettles (ht : t.IsReachable verify) (htc : t.core.trancheConfig = some tc)
    (h : updateVaultNav t.core authority u remaining = .ok s') (htc' : s'.trancheConfig = some tc')
    (ht₁ : t₁.IsReachable verify') (htc₁ : t₁.core.trancheConfig = some tc')
    (hpool : t₁.core.pool tc' = s'.pool tc')
    (hnow : t₁.core.clock.unixTimestamp = s'.clock.unixTimestamp)
    (h₂ : updateVaultNav t₁.core authority' u remaining' = .ok s₂) :
    ∃ tc'', s₂.trancheConfig = some tc'' ∧ PostedAgain (s'.pool tc') u tc' tc'' := by
  obtain ⟨tc₁, hr⟩ := updateVaultNav_reposted ht.tallied.coherent htc h
  obtain rfl := Option.some.inj (htc'.symm.trans hr.config)
  obtain ⟨tc'', hr₂⟩ := updateVaultNav_reposted ht₁.tallied.coherent htc₁ h₂
  refine ⟨tc'', hr₂.config, ?_⟩
  have hafter := hr₂.after
  rw [hpool, hr.pool, hnow, hr.clock] at hafter
  rw [hr.pool, hafter]
  unfold PostedAgain
  split
  · next hfirst => exact afterWaterfall_first _ _ _ _ hfirst
  · next hfirst => exact resettled (pool_priced t.core tc) hr.after hfirst

open Scenario in
/-- **Non-vacuity.** Two tranches of 10 shares at a NAV of 10; posting 12 twice leaves
what posting it once does. -/
theorem repost_resettles_whole :
    ∃ s s' s₂ tc tc' tc'', VaultState.IsReachable s ∧ s.trancheConfig = some tc ∧
      updateVaultNav s curator 12 trancheAccounts = .ok s' ∧ s'.trancheConfig = some tc' ∧
      updateVaultNav s' curator 12 trancheAccounts = .ok s₂ ∧ s₂.trancheConfig = some tc'' ∧
      ¬tc'.firstWaterfall ∧ tc'.seniorNav = 10 ∧ tc'.juniorNav = 14 ∧
      PostedAgain (s'.pool tc') 12 tc' tc'' := by
  obtain ⟨s, tc, s', tc', hs, htc, h, htc', hp⟩ := exists_posted 0 0 twoTranches 12
    (fun _ _ s' tc' => (¬tc'.firstWaterfall ∧ tc'.seniorNav = 10 ∧ tc'.juniorNav = 14) ∧
      posts 12 (fun _ _ _ _ => true) s') (by decide +kernel)
  obtain ⟨⟨hlater, hsenior, hjunior⟩, hp⟩ := of_decide_eq_true hp
  obtain ⟨-, s₂, -, -, h₂, -⟩ := of_posts hp
  have hs' : s'.IsReachable := hs.step (a := .updateVaultNav curator 12 trancheAccounts) h
  obtain ⟨tc'', htc'', hagain⟩ := repost_resettles (unmanaged_reachable hs) htc h htc'
    (unmanaged_reachable hs') htc' rfl rfl h₂
  exact ⟨s, s', s₂, tc, tc', tc'', hs, htc, h, htc', h₂, htc'', hlater, hsenior, hjunior, hagain⟩

open Scenario in
/-- **A NAV that is not kept.** With three share decimals and 1500 units of each
tranche's shares, both NAVs go from 667 to 666 when 667 is posted again. -/
theorem repost_erodes :
    ∃ s s' s₂ tc tc' tc'', VaultState.IsReachable s ∧ s.trancheConfig = some tc ∧
      updateVaultNav s curator 667 trancheAccounts = .ok s' ∧ s'.trancheConfig = some tc' ∧
      updateVaultNav s' curator 667 trancheAccounts = .ok s₂ ∧ s₂.trancheConfig = some tc'' ∧
      s'.clock = s₂.clock ∧ (s'.pool tc').seniorSupply = 1500 ∧
      (s₂.pool tc'').seniorSupply = 1500 ∧ (s'.pool tc').juniorSupply = 1500 ∧
      (s₂.pool tc'').juniorSupply = 1500 ∧ (tc'.seniorNav, tc'.juniorNav) = (667, 667) ∧
      (tc''.seniorNav, tc''.juniorNav) = (666, 666) := by
  obtain ⟨s, tc, s', tc', hs, htc, h, htc', hp⟩ := exists_posted 3 3
    [anyNav, post 1000, split 0 0, start, deposit 100 senior 1500,
      approve 100 senior .deposit 1500 1, deposit 101 junior 1500,
      approve 101 junior .deposit 1500 1]
    667
    (fun _ _ s' tc' => posts 667 (fun _ _ s₂ tc'' => s'.clock = s₂.clock ∧
      (s'.pool tc').seniorSupply = 1500 ∧ (s₂.pool tc'').seniorSupply = 1500 ∧
      (s'.pool tc').juniorSupply = 1500 ∧ (s₂.pool tc'').juniorSupply = 1500 ∧
      (tc'.seniorNav, tc'.juniorNav) = (667, 667) ∧
      (tc''.seniorNav, tc''.juniorNav) = (666, 666)) s') (by decide +kernel)
  obtain ⟨-, s₂, tc'', -, h₂, htc'', hp⟩ := of_posts hp
  exact ⟨s, s', s₂, tc, tc', tc'', hs, htc, h, htc', h₂, htc'', of_decide_eq_true hp⟩

/-! ### Settlement NAVs and recorded NAVs -/

/-- A recorded NAV values the shares as another NAV does, up to the rounding of one NAV
unit. -/
def ValueKept (P S nav recorded : ℕ) : Prop :=
  worth P S recorded ≤ worth P S nav + S ⌈/⌉ P ∧ worth P S nav ≤ worth P S recorded + S ⌈/⌉ P

/-- Each tranche with shares is settled at the vault's NAV. -/
structure VaultState.Uniform (s : VaultState) (tc : TrancheConfig) : Prop where
  senior : 0 < (s.pool tc).seniorSupply → s.trancheNav tc.seniorNav = s.vault.nav
  junior : 0 < (s.pool tc).juniorSupply → s.trancheNav tc.juniorNav = s.vault.nav

instance (s : VaultState) (tc : TrancheConfig) : Decidable (s.Uniform tc) :=
  decidable_of_iff
    ((0 < (s.pool tc).seniorSupply → s.trancheNav tc.seniorNav = s.vault.nav) ∧
      (0 < (s.pool tc).juniorSupply → s.trancheNav tc.juniorNav = s.vault.nav))
    ⟨fun h => ⟨h.1, h.2⟩, fun h => ⟨h.senior, h.junior⟩⟩

/-- Senior's shares were priced by a waterfall, or there are none; or what they are worth
at the NAV is no more than rounding, and the posted total is less than it takes to price junior's
shares beyond the rounding of theirs. -/
def SeniorPriced (tc : TrancheConfig) (pool : TranchePool) (nav : ℕ) : Prop :=
  tc.firstWaterfall ∨ pool.seniorSupply = 0 ∨ tc.seniorNav ≠ 0 ∨
    (pool.seniorWorth nav ≤ pool.seniorSupply ⌈/⌉ pool.seniorUnit ∧
      (pool.juniorSupply = 0 ∨
        pool.postedTotal nav < costOf pool.juniorUnit pool.juniorSupply
          (pool.juniorWorth nav + pool.juniorSupply ⌈/⌉ pool.juniorUnit + 1)))

instance (tc : TrancheConfig) (pool : TranchePool) (nav : ℕ) :
    Decidable (SeniorPriced tc pool nav) :=
  inferInstanceAs (Decidable (_ ∨ _ ∨ _ ∨ (_ ∧ (_ ∨ _))))

/-- A recorded NAV that stands for `n` is zero or `n`, and worth no more than it. -/
theorem worth_recorded_le {P S n recorded : ℕ} (h : 0 < S → orPosted n recorded = n) :
    worth P S recorded ≤ worth P S n := by
  rcases Nat.eq_zero_or_pos S with rfl | hS
  · simp
  · rcases Nat.eq_zero_or_pos recorded with h0 | hpos
    · rw [h0, worth_zero_price]
      exact Nat.zero_le _
    · exact (congrArg (worth P S) ((orPosted_of_pos hpos n).symm.trans (h hS))).le

theorem valueKept_price {P S n : ℕ} (hP : 0 < P) : ValueKept P S n (priceOf P S (worth P S n)) :=
  ⟨le_trans (worth_priceOf_le P S _) (Nat.le_add_right _ _), worth_le_worth_again hP n⟩

theorem valueKept_first {P S n : ℕ} : ValueKept P S n (if S = 0 then 0 else n) := by
  unfold ValueKept
  rw [worth_ite]
  exact ⟨Nat.le_add_right _ _, Nat.le_add_right _ _⟩

/-- A tranche recorded at zero keeps its value when that is no more than rounding. -/
theorem valueKept_zero_iff {P S n : ℕ} : ValueKept P S n 0 ↔ worth P S n ≤ S ⌈/⌉ P := by
  unfold ValueKept
  rw [worth_zero_price, Nat.zero_add]
  exact and_iff_right (Nat.zero_le _)

/-- A tranche priced from more than its value keeps it when the excess is no more than
rounding. -/
theorem valueKept_more_iff {P S n v : ℕ} (hP : 0 < P) (hv : worth P S n ≤ v) :
    ValueKept P S n (priceOf P S v) ↔
      S = 0 ∨ v < costOf P S (worth P S n + S ⌈/⌉ P + 1) := by
  rcases Nat.eq_zero_or_pos S with rfl | hS
  · simp [ValueKept]
  · have hkept : worth P S n ≤ worth P S (priceOf P S v) + S ⌈/⌉ P :=
      le_trans hv (le_worth_priceOf hP hS v)
    rw [ValueKept, and_iff_left hkept, ← not_le, ← le_worth_priceOf_iff hP hS]
    simp only [hS.ne', false_or]
    omega

theorem values_kept_iff (hp : pool.Priced) {n : ℕ}
    (hnow : tc.firstWaterfall ∨ timestamp = tc.lastWaterfallTimestamp)
    (hsenior : 0 < pool.seniorSupply → orPosted n tc.seniorNav = n)
    (hjunior : 0 < pool.juniorSupply → orPosted n tc.juniorNav = n) :
    (ValueKept pool.seniorUnit pool.seniorSupply n
          (tc.afterWaterfall pool n slot timestamp).seniorNav ∧
        ValueKept pool.juniorUnit pool.juniorSupply n
          (tc.afterWaterfall pool n slot timestamp).juniorNav) ↔
      SeniorPriced tc pool n := by
  unfold SeniorPriced
  by_cases hfirst : tc.firstWaterfall
  · obtain ⟨hs, hj⟩ := afterWaterfall_first n pool timestamp slot hfirst
    rw [hs, hj]
    exact iff_of_true ⟨valueKept_first, valueKept_first⟩ (.inl hfirst)
  have hnow := hnow.resolve_left hfirst
  have hle : tc.recordedValue pool ≤ pool.postedTotal n :=
    Nat.add_le_add (worth_recorded_le hsenior) (worth_recorded_le hjunior)
  obtain ⟨hs, hj⟩ := afterWaterfall_later n pool timestamp slot hfirst
  rw [hs, hj, seniorShare_neutral hnow hle, juniorShare_neutral hnow hle]
  simp only [hfirst, false_or]
  rcases Nat.eq_zero_or_pos pool.seniorSupply with hS | hS
  · -- without senior shares the total is junior's own value
    have hzero : ∀ nav, pool.seniorWorth nav = 0 := fun nav => by
      rw [TranchePool.seniorWorth, hS, worth_zero_shares]
    rw [TranchePool.postedTotal, hzero, hzero, Nat.zero_add, Nat.sub_zero]
    refine iff_of_true ⟨?_, valueKept_price hp.junior⟩ (.inl hS)
    rw [hS, priceOf_zero_shares, valueKept_zero_iff, worth_zero_shares]
    exact Nat.zero_le _
  · rcases Nat.eq_zero_or_pos tc.seniorNav with h0 | hpos
    · -- senior's recorded zero is no claim, and the whole total is junior's
      have hzero : pool.seniorWorth tc.seniorNav = 0 := by
        rw [TranchePool.seniorWorth, h0, worth_zero_price]
      have hmore : pool.juniorWorth n ≤ pool.postedTotal n := Nat.le_add_left _ _
      rw [hzero, priceOf_zero_value, Nat.sub_zero, valueKept_zero_iff,
        valueKept_more_iff hp.junior hmore]
      simp only [hS.ne', h0, ne_eq, not_true_eq_false, false_or]
      exact Iff.rfl
    · -- both tranches stand at the NAV posted
      have hn : tc.seniorNav = n := (orPosted_of_pos hpos n).symm.trans (hsenior hS)
      rw [hn, TranchePool.postedTotal, Nat.add_sub_cancel_left]
      exact iff_of_true ⟨valueKept_price hp.senior, valueKept_price hp.junior⟩
        (.inr (.inl (hn ▸ hpos.ne')))

/-- **A NAV update that reports no gain and no loss.** In every reachable state of a
tranche vault whose tranches settle at the vault's NAV, posting that NAV at the time of
the last waterfall keeps the value of both tranches exactly when senior was priced. -/
theorem neutral_update_iff (ht : t.IsReachable verify) (htc : t.core.trancheConfig = some tc)
    (huniform : t.core.Uniform tc)
    (hnow : tc.firstWaterfall ∨ t.core.clock.unixTimestamp = tc.lastWaterfallTimestamp)
    (h : updateVaultNav t.core authority t.core.vault.nav remaining = .ok s') :
    ∃ tc', s'.trancheConfig = some tc' ∧
      ((ValueKept (t.core.pool tc).seniorUnit (t.core.pool tc).seniorSupply t.core.vault.nav
            tc'.seniorNav ∧
          ValueKept (t.core.pool tc).juniorUnit (t.core.pool tc).juniorSupply t.core.vault.nav
            tc'.juniorNav) ↔
        SeniorPriced tc (t.core.pool tc) t.core.vault.nav) := by
  obtain ⟨tc', hr⟩ := updateVaultNav_reposted ht.tallied.coherent htc h
  refine ⟨tc', hr.config, ?_⟩
  rw [hr.after]
  exact values_kept_iff (pool_priced t.core tc) hnow huniform.senior huniform.junior

open Scenario in
/-- **Non-vacuity.** Two tranches of 10 shares recorded at a NAV of 10, which is posted
again. -/
theorem neutral_update_iff_priced :
    ∃ s s' tc tc', VaultState.IsReachable s ∧ s.trancheConfig = some tc ∧ s.Uniform tc ∧
      s.vault.nav = 10 ∧ updateVaultNav s curator 10 trancheAccounts = .ok s' ∧
      s'.trancheConfig = some tc' ∧
      ValueKept (s.pool tc).seniorUnit (s.pool tc).seniorSupply 10 tc'.seniorNav ∧
      ValueKept (s.pool tc).juniorUnit (s.pool tc).juniorSupply 10 tc'.juniorNav := by
  obtain ⟨s, tc, s', tc', hs, htc, h, htc', hp⟩ := exists_posted 0 0 twoTranches 10
    (fun s tc _ _ => s.Uniform tc ∧ s.vault.nav = 10 ∧
      s.clock.unixTimestamp = tc.lastWaterfallTimestamp ∧ SeniorPriced tc (s.pool tc) 10)
    (by decide +kernel)
  obtain ⟨huniform, hnav, hnow, hpriced⟩ := of_decide_eq_true hp
  rw [← hnav] at h hpriced
  obtain ⟨tc'', htc'', hiff⟩ :=
    neutral_update_iff (unmanaged_reachable hs) htc huniform (.inr hnow) h
  obtain rfl := Option.some.inj (htc'.symm.trans htc'')
  rw [hnav] at h
  refine ⟨s, s', tc, tc', hs, htc, huniform, hnav, h, htc', ?_⟩
  rw [← hnav]
  exact hiff.2 hpriced

open Scenario in
/-- **Principal handed to junior.** Ten shares of each tranche are bought at a posted NAV
of 10 before any waterfall but one over no shares; posting 10 again at the same time records
senior at 0 and junior at 20. -/
theorem neutral_update_takes :
    ∃ s s' tc tc', VaultState.IsReachable s ∧ s.trancheConfig = some tc ∧ s.Uniform tc ∧
      s.vault.nav = 10 ∧ s.clock.unixTimestamp = tc.lastWaterfallTimestamp ∧
      updateVaultNav s curator 10 trancheAccounts = .ok s' ∧ s'.trancheConfig = some tc' ∧
      (s.pool tc).seniorSupply = 10 ∧ (s.pool tc).juniorSupply = 10 ∧
      (s.pool tc).seniorUnit = 1 ∧ (s.pool tc).juniorUnit = 1 ∧
      (tc'.seniorNav, tc'.juniorNav) = (0, 20) := by
  obtain ⟨s, tc, s', tc', hs, htc, h, htc', hp⟩ := exists_posted 0 0
    [anyNav, split 0 0, start, post 10, deposit 100 senior 100, approve 100 senior .deposit 100 1,
      deposit 101 junior 100, approve 101 junior .deposit 100 1]
    10
    (fun s tc _ tc' => s.Uniform tc ∧ s.vault.nav = 10 ∧
      s.clock.unixTimestamp = tc.lastWaterfallTimestamp ∧
      (s.pool tc).seniorSupply = 10 ∧ (s.pool tc).juniorSupply = 10 ∧
      (s.pool tc).seniorUnit = 1 ∧ (s.pool tc).juniorUnit = 1 ∧
      (tc'.seniorNav, tc'.juniorNav) = (0, 20)) (by decide +kernel)
  obtain ⟨huniform, hnav, hnow, hfacts⟩ := of_decide_eq_true hp
  exact ⟨s, s', tc, tc', hs, htc, huniform, hnav, hnow, h, htc', hfacts⟩

end AsyncVault
