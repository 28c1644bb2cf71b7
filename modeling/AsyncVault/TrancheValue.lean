/-
AsyncVault/TrancheValue.lean

What a NAV update does to the value of the tranches.

A NAV update values the pool at the posted NAV and divides that total between
the two tranches.  Two valuations are read off the configuration it leaves: the
*recorded* value, at the recorded NAVs, and the value *claimed*, at the NAVs
requests are settled at, where a recorded zero stands for the vault's NAV.

Neither is the posted total in every case.  The recorded value falls short of it
when a part is allocated to a tranche without shares (`recorded_value_iff`), and
the claimed value exceeds it when a tranche is wiped out, because its recorded
zero is then read as the vault's NAV (`claimed_value_iff`).

Both conditions are about the state before the update.  What a tranche is paid
is monotone in the posted total, so "it is paid enough to be priced at `p`" is a
threshold for that total, which depends on the recorded NAVs, the supplies and
the target accrued since (`SeniorReaches`, `JuniorReaches`).
-/
import AsyncVault.JuniorFloor
import AsyncVault.ManagedScenario
import AsyncVault.Tallies

namespace AsyncVault

open Checked TokenLedger KeyedStore OrderBook Machine FixedPoint

variable {s s' : VaultState} {t : ManagedState} {verify : MerkleCheck} {tc : TrancheConfig}
variable {authority : Pubkey} {u : ℕ} {remaining : List AccountInfo}

/-! ### After a NAV update -/

/-- A vault with a tranche configuration names it and charges no performance fee. -/
theorem tranched_of_config (hv : s.terms.Coherent) (htc : s.trancheConfig = some tc) :
    s.vault.trancheConfig = some s.trancheConfigPda ∧ s.vault.performanceFeeBps = 0 := by
  obtain ⟨hpda, hvalid⟩ := hv.tranched _ (VaultState.terms_tranches htc)
  exact ⟨hpda, hvalid.performanceFeeBps⟩

/-- What a NAV update leaves of a tranche vault. -/
structure Reposted (s s' : VaultState) (tc : TrancheConfig) (u : ℕ) (tc' : TrancheConfig) :
    Prop where
  config : s'.trancheConfig = some tc'
  after : tc' = tc.afterWaterfall (s.pool tc) u s.clock.slot s.clock.unixTimestamp
  nav : s'.vault.nav = u
  pool : s'.pool tc' = s.pool tc
  clock : s'.clock = s.clock

theorem updateVaultNav_reposted (hv : s.terms.Coherent) (htc : s.trancheConfig = some tc)
    (h : updateVaultNav s authority u remaining = .ok s') : ∃ tc', Reposted s s' tc u tc' := by
  obtain ⟨hpda, hfee⟩ := tranched_of_config hv htc
  obtain ⟨version, mark, crystallized, rfl⟩ := updateVaultNav_tranched hpda htc hfee h
  refine ⟨_, rfl, rfl, rfl, ?_, rfl⟩
  -- recording the larger supply changes nothing about which is larger
  show TranchePool.mk _ _ _ _ = TranchePool.mk _ _ _ _
  simp only [TrancheConfig.afterWaterfall, VaultState.pool, TranchePool.mk.injEq, and_self,
    and_true]
  exact ⟨max_eq_right (le_max_left _ _), max_eq_right (le_max_left _ _)⟩

/-- Price units are positive. -/
structure TranchePool.Priced (pool : TranchePool) : Prop where
  senior : 0 < pool.seniorUnit
  junior : 0 < pool.juniorUnit

theorem pool_priced (s : VaultState) (tc : TrancheConfig) : (s.pool tc).Priced :=
  ⟨unit_pos _ _, unit_pos _ _⟩

/-! ### The two parts -/

/-- Senior's part of the total at a NAV update of `tc`. -/
def TrancheConfig.seniorShare (tc : TrancheConfig) (pool : TranchePool) (u : ℕ) (timestamp : ℤ) :
    ℕ :=
  pool.seniorPart tc.seniorNav tc.juniorNav tc.seniorTargetBps
    (timestamp - tc.lastWaterfallTimestamp) u

/-- Junior's part of the total at a NAV update of `tc`. -/
def TrancheConfig.juniorShare (tc : TrancheConfig) (pool : TranchePool) (u : ℕ) (timestamp : ℤ) :
    ℕ :=
  pool.juniorPart tc.seniorNav tc.juniorNav tc.seniorTargetBps
    (timestamp - tc.lastWaterfallTimestamp) u

variable {pool : TranchePool} {timestamp : ℤ} {slot : ℕ}

/-- The parts make up the posted total. -/
theorem shares_add (tc : TrancheConfig) (pool : TranchePool) (u : ℕ) (timestamp : ℤ) :
    tc.seniorShare pool u timestamp + tc.juniorShare pool u timestamp = pool.postedTotal u :=
  Tranching.allocate_add

/-- The target senior has accrued since the last waterfall. -/
def TrancheConfig.target (tc : TrancheConfig) (pool : TranchePool) (timestamp : ℤ) : ℕ :=
  accrued (pool.seniorWorth tc.seniorNav) tc.seniorTargetBps
    (timestamp - tc.lastWaterfallTimestamp)

/-- The posted total is enough to pay senior `k`: within its recorded value any total of `k` is;
beyond it `k` has to be within the accrued target, and junior's recorded value covered as well. -/
def SeniorReaches (tc : TrancheConfig) (pool : TranchePool) (u : ℕ) (timestamp : ℤ) (k : ℕ) :
    Prop :=
  if k ≤ pool.seniorWorth tc.seniorNav then k ≤ pool.postedTotal u
  else k ≤ pool.seniorWorth tc.seniorNav + tc.target pool timestamp ∧
    pool.juniorWorth tc.juniorNav + k ≤ pool.postedTotal u

/-- The posted total is enough to pay junior `k`: senior's recorded value comes first, and beyond
junior's own recorded value so does the accrued target. -/
def JuniorReaches (tc : TrancheConfig) (pool : TranchePool) (u : ℕ) (timestamp : ℤ) (k : ℕ) :
    Prop :=
  (if k ≤ pool.juniorWorth tc.juniorNav then pool.seniorWorth tc.seniorNav + k
    else pool.seniorWorth tc.seniorNav + tc.target pool timestamp + k) ≤ pool.postedTotal u

instance (tc : TrancheConfig) (pool : TranchePool) (u : ℕ) (timestamp : ℤ) (k : ℕ) :
    Decidable (SeniorReaches tc pool u timestamp k) :=
  inferInstanceAs (Decidable (if k ≤ pool.seniorWorth tc.seniorNav then k ≤ pool.postedTotal u
    else _ ∧ _))

instance (tc : TrancheConfig) (pool : TranchePool) (u : ℕ) (timestamp : ℤ) (k : ℕ) :
    Decidable (JuniorReaches tc pool u timestamp k) :=
  inferInstanceAs (Decidable (_ ≤ _))

theorem seniorReaches_iff {k : ℕ} :
    SeniorReaches tc pool u timestamp k ↔ k ≤ tc.seniorShare pool u timestamp :=
  Tranching.le_senior_iff.symm

theorem juniorReaches_iff {k : ℕ} (hk : 0 < k) :
    JuniorReaches tc pool u timestamp k ↔ k ≤ tc.juniorShare pool u timestamp :=
  (Tranching.le_junior_iff hk).symm

variable (u pool timestamp slot) in
/-- The NAVs a first waterfall records. -/
theorem afterWaterfall_first (hfirst : tc.firstWaterfall) :
    (tc.afterWaterfall pool u slot timestamp).seniorNav =
        (if pool.seniorSupply = 0 then 0 else u) ∧
      (tc.afterWaterfall pool u slot timestamp).juniorNav =
        if pool.juniorSupply = 0 then 0 else u := by
  simp [TrancheConfig.afterWaterfall, postedNavs, hfirst]

variable (u pool timestamp slot) in
/-- The NAVs a later waterfall records: the prices of the two parts. -/
theorem afterWaterfall_later (hfirst : ¬tc.firstWaterfall) :
    (tc.afterWaterfall pool u slot timestamp).seniorNav =
        priceOf pool.seniorUnit pool.seniorSupply (tc.seniorShare pool u timestamp) ∧
      (tc.afterWaterfall pool u slot timestamp).juniorNav =
        priceOf pool.juniorUnit pool.juniorSupply (tc.juniorShare pool u timestamp) := by
  simp [TrancheConfig.afterWaterfall, postedNavs, hfirst, TrancheConfig.seniorShare,
    TrancheConfig.juniorShare]

/-- A tranche without shares is worth nothing at any price. -/
theorem worth_ite (P S u : ℕ) : worth P S (if S = 0 then 0 else u) = worth P S u := by
  by_cases h : S = 0 <;> simp [h]

/-- Without senior shares nothing is allocated to senior. -/
theorem seniorShare_eq_zero (h : pool.seniorSupply = 0) (tc : TrancheConfig) (u : ℕ)
    (timestamp : ℤ) : tc.seniorShare pool u timestamp = 0 := by
  unfold TrancheConfig.seniorShare TranchePool.seniorPart TranchePool.seniorWorth
  rw [h, worth_zero_shares]
  simp [Tranching.senior, accrued]

/-! ### The recorded value -/

/-- The value of the outstanding shares at the recorded NAVs. -/
def TrancheConfig.recordedValue (tc : TrancheConfig) (pool : TranchePool) : ℕ :=
  pool.seniorWorth tc.seniorNav + pool.juniorWorth tc.juniorNav

/-- Rounding of the two NAVs to whole units. -/
def TranchePool.rounding (pool : TranchePool) : ℕ :=
  pool.seniorSupply ⌈/⌉ pool.seniorUnit + pool.juniorSupply ⌈/⌉ pool.juniorUnit

/-- A first waterfall records the posted total. -/
theorem recordedValue_first (hfirst : tc.firstWaterfall) :
    (tc.afterWaterfall pool u slot timestamp).recordedValue pool = pool.postedTotal u := by
  obtain ⟨hs, hj⟩ := afterWaterfall_first u pool timestamp slot hfirst
  rw [TrancheConfig.recordedValue, hs, hj, TranchePool.seniorWorth, TranchePool.juniorWorth,
    worth_ite, worth_ite]
  rfl

/-- A NAV update allocates nothing to a tranche without shares: it is the first, or senior has
no shares, or junior has some; or senior's recorded value and the target accrued since come to
what it takes to price senior's shares within the rounding of their posted value. -/
def NothingStranded (tc : TrancheConfig) (pool : TranchePool) (u : ℕ) (timestamp : ℤ) : Prop :=
  tc.firstWaterfall ∨ pool.seniorSupply = 0 ∨ 0 < pool.juniorSupply ∨
    costOf pool.seniorUnit pool.seniorSupply
        (pool.seniorWorth u - pool.seniorSupply ⌈/⌉ pool.seniorUnit) ≤
      pool.seniorWorth tc.seniorNav + tc.target pool timestamp

instance (tc : TrancheConfig) (pool : TranchePool) (u : ℕ) (timestamp : ℤ) :
    Decidable (NothingStranded tc pool u timestamp) :=
  inferInstanceAs (Decidable (_ ∨ _ ∨ _ ∨ _))

/-- A part of the total, priced and valued again, is itself up to rounding, where
there are shares to price. -/
theorem part_le_recorded {P S c : ℕ} (hP : 0 < P) (h : S = 0 → c = 0) :
    c ≤ worth P S (priceOf P S c) + S ⌈/⌉ P := by
  rcases Nat.eq_zero_or_pos S with hS | hS
  · rw [h hS]
    exact Nat.zero_le _
  · exact le_worth_priceOf hP hS c

/-- Without junior shares senior's part is all there is to record. -/
theorem recordedValue_lone_senior (hfirst : ¬tc.firstWaterfall) (hj : pool.juniorSupply = 0) :
    (tc.afterWaterfall pool u slot timestamp).recordedValue pool =
      worth pool.seniorUnit pool.seniorSupply (priceOf pool.seniorUnit pool.seniorSupply
        (tc.seniorShare pool u timestamp)) := by
  obtain ⟨hs, -⟩ := afterWaterfall_later u pool timestamp slot hfirst
  rw [TrancheConfig.recordedValue, hs, TranchePool.juniorWorth, hj, worth_zero_shares,
    Nat.add_zero]
  rfl

/-- What it takes to price a value within its rounding is no more than the value. -/
theorem costOf_sub_le {P S : ℕ} (hP : 0 < P) (hS : 0 < S) (v : ℕ) :
    costOf P S (v - S ⌈/⌉ P) ≤ v := by
  have hround := le_worth_priceOf hP hS v
  exact (le_worth_priceOf_iff hP hS).1 (by omega)

theorem posted_le_recorded_iff (hp : pool.Priced) :
    pool.postedTotal u ≤
        (tc.afterWaterfall pool u slot timestamp).recordedValue pool + pool.rounding ↔
      NothingStranded tc pool u timestamp := by
  unfold NothingStranded
  by_cases hfirst : tc.firstWaterfall
  · rw [recordedValue_first hfirst]
    exact iff_of_true (Nat.le_add_right _ _) (.inl hfirst)
  obtain ⟨hs, hj⟩ := afterWaterfall_later u pool timestamp slot hfirst
  have hsum := shares_add tc pool u timestamp
  have hsenior : tc.seniorShare pool u timestamp ≤ _ :=
    part_le_recorded hp.senior fun h => seniorShare_eq_zero h tc u timestamp
  by_cases hjunior : pool.juniorSupply = 0
  · -- junior has no shares, so all there is to record is senior's part
    have hround : pool.rounding = pool.seniorSupply ⌈/⌉ pool.seniorUnit := by
      rw [TranchePool.rounding, hjunior, zero_ceilDiv, Nat.add_zero]
    have hnone : ∀ nav, pool.juniorWorth nav = 0 := fun nav => by
      rw [TranchePool.juniorWorth, hjunior, worth_zero_shares]
    have htotal : pool.postedTotal u = pool.seniorWorth u := by
      rw [TranchePool.postedTotal, hnone, Nat.add_zero]
    rw [recordedValue_lone_senior hfirst hjunior, hround, htotal]
    simp only [hfirst, hjunior, lt_irrefl, false_or]
    rcases Nat.eq_zero_or_pos pool.seniorSupply with hS | hS
    · rw [TranchePool.seniorWorth, hS, worth_zero_shares]
      exact iff_of_true (Nat.zero_le _) (.inl rfl)
    · -- the part is within the total, so the target alone can keep it from the cost
      have hcost := costOf_sub_le hp.senior hS (pool.seniorWorth u)
      simp only [hS.ne', false_or]
      rw [← Nat.sub_le_iff_le_add, le_worth_priceOf_iff hp.senior hS, ← seniorReaches_iff,
        SeniorReaches, hnone, htotal, Nat.zero_add]
      split
      · omega
      · exact and_iff_left hcost
  · have hjuniorShare : tc.juniorShare pool u timestamp ≤ _ :=
      part_le_recorded hp.junior fun h => absurd h hjunior
    refine iff_of_true ?_ (.inr (.inr (.inl (Nat.pos_of_ne_zero hjunior))))
    rw [TrancheConfig.recordedValue, TranchePool.rounding, TranchePool.seniorWorth,
      TranchePool.juniorWorth, hs, hj]
    omega

/-- **The recorded value of a NAV update.** In every reachable state of a tranche
vault, a NAV update records the posted total, up to the rounding of the two
NAVs, exactly when it allocates nothing to a tranche without shares. -/
theorem recorded_value_iff (ht : t.IsReachable verify) (htc : t.core.trancheConfig = some tc)
    (h : updateVaultNav t.core authority u remaining = .ok s') :
    ∃ tc', s'.trancheConfig = some tc' ∧
      ((s'.pool tc').postedTotal u ≤ tc'.recordedValue (s'.pool tc') + (s'.pool tc').rounding ↔
        NothingStranded tc (t.core.pool tc) u t.core.clock.unixTimestamp) := by
  obtain ⟨tc', hr⟩ := updateVaultNav_reposted ht.tallied.coherent htc h
  refine ⟨tc', hr.config, ?_⟩
  rw [hr.pool, hr.after]
  exact posted_le_recorded_iff (pool_priced t.core tc)

open Scenario in
/-- **Non-vacuity.** Two tranches of 10 shares at a NAV of 10; the NAV rises to 12,
and the gain of 40 is all junior's. -/
theorem recorded_value_iff_gain :
    ∃ s s' tc tc', VaultState.IsReachable s ∧ s.trancheConfig = some tc ∧
      updateVaultNav s curator 12 trancheAccounts = .ok s' ∧ s'.trancheConfig = some tc' ∧
      tc'.seniorNav = 10 ∧ tc'.juniorNav = 14 ∧
      (s'.pool tc').postedTotal 12 ≤
        tc'.recordedValue (s'.pool tc') + (s'.pool tc').rounding := by
  obtain ⟨s, tc, s', tc', hs, htc, h, htc', hp⟩ := exists_posted 0 0 twoTranches 12
    (fun s tc _ tc' => NothingStranded tc (s.pool tc) 12 s.clock.unixTimestamp ∧
      tc'.seniorNav = 10 ∧ tc'.juniorNav = 14) (by decide +kernel)
  obtain ⟨hcond, hsenior, hjunior⟩ := of_decide_eq_true hp
  obtain ⟨tc'', htc'', hiff⟩ := recorded_value_iff (unmanaged_reachable hs) htc h
  obtain rfl := Option.some.inj (htc'.symm.trans htc'')
  exact ⟨s, s', tc, tc', hs, htc, h, htc', hsenior, hjunior, hiff.2 hcond⟩

open Scenario in
/-- **Value allocated to nobody.** The NAV is posted before there are shares; ten
senior shares are bought at it, and posting it again records nothing of the 100
assets paid, all of which are allocated to a junior tranche without shares. -/
theorem recorded_value_stranded :
    ∃ s s' tc tc', VaultState.IsReachable s ∧ s.trancheConfig = some tc ∧
      updateVaultNav s curator 10 trancheAccounts = .ok s' ∧ s'.trancheConfig = some tc' ∧
      (s'.pool tc').postedTotal 10 = 100 ∧ tc'.recordedValue (s'.pool tc') = 0 ∧
      (s'.pool tc').rounding = 10 := by
  obtain ⟨s, tc, s', tc', hs, htc, h, htc', hp⟩ := exists_posted 0 0
    [anyNav, split 0 0, start, post 10, deposit 100 senior 100, approve 100 senior .deposit 100 1]
    10
    (fun _ _ s' tc' => (s'.pool tc').postedTotal 10 = 100 ∧
      tc'.recordedValue (s'.pool tc') = 0 ∧ (s'.pool tc').rounding = 10) (by decide +kernel)
  obtain ⟨htotal, hrecorded, hround⟩ := of_decide_eq_true hp
  exact ⟨s, s', tc, tc', hs, htc, h, htc', htotal, hrecorded, hround⟩

/-! ### The claimed value -/

/-- No recorded zero does harm: the waterfall is the first, or a tranche has no shares; or both
have, and none is paid too little to be priced (less than one price unit on every share) while the
other one is paid what it takes to price it above its posted value. -/
def ZerosHarmless (tc : TrancheConfig) (pool : TranchePool) (u : ℕ) (timestamp : ℤ) : Prop :=
  tc.firstWaterfall ∨ pool.seniorSupply = 0 ∨ pool.juniorSupply = 0 ∨
    (JuniorReaches tc pool u timestamp (pool.juniorSupply ⌈/⌉ pool.juniorUnit) ∨
        ¬SeniorReaches tc pool u timestamp
          (costOf pool.seniorUnit pool.seniorSupply (pool.seniorWorth u + 1))) ∧
      (SeniorReaches tc pool u timestamp (pool.seniorSupply ⌈/⌉ pool.seniorUnit) ∨
        ¬JuniorReaches tc pool u timestamp
          (costOf pool.juniorUnit pool.juniorSupply (pool.juniorWorth u + 1)))

instance (tc : TrancheConfig) (pool : TranchePool) (u : ℕ) (timestamp : ℤ) :
    Decidable (ZerosHarmless tc pool u timestamp) :=
  inferInstanceAs (Decidable (_ ∨ _ ∨ _ ∨ (_ ∨ ¬_) ∧ (_ ∨ ¬_)))

/-- The NAV a recorded one stands for when `u` is the vault's. -/
def orPosted (u recorded : ℕ) : ℕ := if 0 < recorded then recorded else u

@[simp] theorem orPosted_zero (u : ℕ) : orPosted u 0 = u := rfl

theorem orPosted_of_pos {recorded : ℕ} (h : 0 < recorded) (u : ℕ) :
    orPosted u recorded = recorded :=
  if_pos h

/-- A part that prices its shares is claimed at their price, any other at the posted NAV. -/
theorem claimed_part {P S : ℕ} (hP : 0 < P) (hS : 0 < S) (part u : ℕ) :
    worth P S (orPosted u (priceOf P S part)) =
      if S ⌈/⌉ P ≤ part then worth P S (priceOf P S part) else worth P S u := by
  have hpos := priceOf_pos_iff (v := part) hP hS
  by_cases h : S ⌈/⌉ P ≤ part
  · rw [if_pos h, orPosted_of_pos (hpos.2 h)]
  · rw [if_neg h, Nat.eq_zero_of_not_pos fun h0 => h (hpos.1 h0), orPosted_zero]

/-- A part that does not price its shares does not price them above anything. -/
theorem not_costOf_le {P S part : ℕ} (hP : 0 < P) (hS : 0 < S) (h : ¬S ⌈/⌉ P ≤ part) (v : ℕ) :
    ¬costOf P S (v + 1) ≤ part := by
  have hzero : priceOf P S part = 0 :=
    Nat.eq_zero_of_not_pos fun h0 => h ((priceOf_pos_iff hP hS).1 h0)
  rw [← le_worth_priceOf_iff hP hS, hzero, worth_zero_price]
  exact Nat.not_succ_le_zero v

/-- Something is needed to price shares at all, and to price them above anything. -/
theorem ceilDiv_supply_pos {P S : ℕ} (hP : 0 < P) (hS : 0 < S) : 0 < S ⌈/⌉ P := by
  rw [Nat.pos_iff_ne_zero]
  intro h0
  have hle := (ceilDiv_le_iff_le_mul hP).1 h0.le
  omega

theorem costOf_succ_pos {P S : ℕ} (hP : 0 < P) (hS : 0 < S) (v : ℕ) : 0 < costOf P S (v + 1) := by
  rw [Nat.pos_iff_ne_zero]
  intro h0
  have hle := (le_worth_priceOf_iff hP hS).2 h0.le
  rw [priceOf_zero_value, worth_zero_price] at hle
  omega

/-- A part is claimed at its price, which is worth no more, or at the posted value. -/
theorem claimed_le (P S part u : ℕ) :
    worth P S (orPosted u (priceOf P S part)) ≤ max part (worth P S u) := by
  unfold orPosted
  split
  · exact (worth_priceOf_le P S part).trans (le_max_left _ _)
  · exact le_max_right _ _

/-- A first waterfall is claimed at the posted NAV. -/
theorem claimed_first (S P u : ℕ) :
    worth P S (orPosted u (if S = 0 then 0 else u)) = worth P S u := by
  by_cases h : S = 0
  · simp [h]
  · rw [if_neg h, orPosted, ite_self]

/-- A tranche that is alone is claimed at no more than the total. -/
theorem claimed_lone (P S u : ℕ) {part total : ℕ} (hpart : part ≤ total)
    (htotal : total = worth P S u) : worth P S (orPosted u (priceOf P S part)) ≤ total :=
  (claimed_le P S part u).trans (max_le hpart htotal.ge)

theorem claimed_le_posted_iff (hp : pool.Priced) :
    pool.seniorWorth (orPosted u (tc.afterWaterfall pool u slot timestamp).seniorNav) +
        pool.juniorWorth (orPosted u (tc.afterWaterfall pool u slot timestamp).juniorNav) ≤
      pool.postedTotal u ↔ ZerosHarmless tc pool u timestamp := by
  unfold ZerosHarmless
  by_cases hfirst : tc.firstWaterfall
  · obtain ⟨hs, hj⟩ := afterWaterfall_first u pool timestamp slot hfirst
    rw [hs, hj, TranchePool.seniorWorth, TranchePool.juniorWorth, claimed_first, claimed_first]
    exact iff_of_true le_rfl (.inl hfirst)
  obtain ⟨hs, hj⟩ := afterWaterfall_later u pool timestamp slot hfirst
  have hsum := shares_add tc pool u timestamp
  rw [hs, hj]
  unfold TranchePool.postedTotal TranchePool.seniorWorth TranchePool.juniorWorth at hsum ⊢
  simp only [hfirst, false_or]
  rcases Nat.eq_zero_or_pos pool.seniorSupply with hS | hS
  · have hnone : ∀ p, worth pool.seniorUnit pool.seniorSupply p = 0 := fun p => by
      rw [hS, worth_zero_shares]
    rw [hnone, Nat.zero_add] at hsum
    rw [hnone, hnone, Nat.zero_add, Nat.zero_add]
    exact iff_of_true (claimed_lone _ _ _ (by omega) rfl) (.inl hS)
  rcases Nat.eq_zero_or_pos pool.juniorSupply with hJ | hJ
  · have hnone : ∀ p, worth pool.juniorUnit pool.juniorSupply p = 0 := fun p => by
      rw [hJ, worth_zero_shares]
    rw [hnone, Nat.add_zero] at hsum
    rw [hnone, hnone, Nat.add_zero, Nat.add_zero]
    exact iff_of_true (claimed_lone _ _ _ (by omega) rfl) (.inr (.inl hJ))
  rw [claimed_part hp.senior hS, claimed_part hp.junior hJ, seniorReaches_iff, seniorReaches_iff,
    juniorReaches_iff (ceilDiv_supply_pos hp.junior hJ),
    juniorReaches_iff (costOf_succ_pos hp.junior hJ _)]
  simp only [hS.ne', hJ.ne', false_or]
  generalize tc.seniorShare pool u timestamp = x at hsum ⊢
  generalize tc.juniorShare pool u timestamp = y at hsum ⊢
  have hx := worth_priceOf_le pool.seniorUnit pool.seniorSupply x
  have hy := worth_priceOf_le pool.juniorUnit pool.juniorSupply y
  by_cases hsenior : pool.seniorSupply ⌈/⌉ pool.seniorUnit ≤ x <;>
    by_cases hjunior : pool.juniorSupply ⌈/⌉ pool.juniorUnit ≤ y
  · -- both are priced, and no price is worth more than its part
    rw [if_pos hsenior, if_pos hjunior]
    exact iff_of_true (by omega) ⟨.inl hjunior, .inl hsenior⟩
  · rw [if_pos hsenior, if_neg hjunior, ← le_worth_priceOf_iff hp.senior hS]
    simp only [hsenior, hjunior, true_or, false_or, and_true]
    omega
  · rw [if_neg hsenior, if_pos hjunior, ← le_worth_priceOf_iff hp.junior hJ]
    simp only [hsenior, hjunior, true_or, false_or, true_and]
    omega
  · -- neither is: each is claimed at its posted value
    rw [if_neg hsenior, if_neg hjunior]
    exact iff_of_true le_rfl ⟨.inr (not_costOf_le hp.senior hS hsenior _),
      .inr (not_costOf_le hp.junior hJ hjunior _)⟩

/-- **The claimed value of a NAV update.** In every reachable state of a tranche
vault, the shares can be redeemed for no more than the posted total right after
a NAV update exactly when no recorded zero does harm. -/
theorem claimed_value_iff (ht : t.IsReachable verify) (htc : t.core.trancheConfig = some tc)
    (h : updateVaultNav t.core authority u remaining = .ok s') :
    ∃ tc', s'.trancheConfig = some tc' ∧
      (s'.seniorValue tc' + s'.juniorValue tc' ≤ (s'.pool tc').postedTotal u ↔
        ZerosHarmless tc (t.core.pool tc) u t.core.clock.unixTimestamp) := by
  obtain ⟨tc', hr⟩ := updateVaultNav_reposted ht.tallied.coherent htc h
  refine ⟨tc', hr.config, ?_⟩
  have hvalue : s'.seniorValue tc' + s'.juniorValue tc' =
      (s'.pool tc').seniorWorth (orPosted s'.vault.nav tc'.seniorNav) +
        (s'.pool tc').juniorWorth (orPosted s'.vault.nav tc'.juniorNav) := rfl
  rw [hvalue, hr.nav, hr.pool, hr.after]
  exact claimed_le_posted_iff (pool_priced t.core tc)

open Scenario in
/-- **Non-vacuity.** Two tranches of 10 shares at a NAV of 10; the NAV falls to 7,
and the shares are claimed at exactly the 140 posted. -/
theorem claimed_value_iff_loss :
    ∃ s s' tc tc', VaultState.IsReachable s ∧ s.trancheConfig = some tc ∧
      updateVaultNav s curator 7 trancheAccounts = .ok s' ∧ s'.trancheConfig = some tc' ∧
      (s'.pool tc').postedTotal 7 = 140 ∧ s'.seniorValue tc' + s'.juniorValue tc' ≤ 140 := by
  obtain ⟨s, tc, s', tc', hs, htc, h, htc', hp⟩ := exists_posted 0 0 twoTranches 7
    (fun s tc s' tc' => ZerosHarmless tc (s.pool tc) 7 s.clock.unixTimestamp ∧
      (s'.pool tc').postedTotal 7 = 140) (by decide +kernel)
  obtain ⟨hcond, htotal⟩ := of_decide_eq_true hp
  obtain ⟨tc'', htc'', hiff⟩ := claimed_value_iff (unmanaged_reachable hs) htc h
  obtain rfl := Option.some.inj (htc'.symm.trans htc'')
  have hle := hiff.2 hcond
  rw [htotal] at hle
  exact ⟨s, s', tc, tc', hs, htc, h, htc', htotal, hle⟩

open Scenario in
/-- **More is claimed than posted.** Two tranches of 10 shares at a NAV of 10; the
NAV falls to 4, junior is wiped out, and its recorded zero is read as 4: the
shares are claimed at 80 and 40, of a total of 80. -/
theorem claimed_value_exceeds :
    ∃ s s' tc tc', VaultState.IsReachable s ∧ s.trancheConfig = some tc ∧
      updateVaultNav s curator 4 trancheAccounts = .ok s' ∧ s'.trancheConfig = some tc' ∧
      (s'.pool tc').postedTotal 4 = 80 ∧ s'.seniorValue tc' = 80 ∧ s'.juniorValue tc' = 40 := by
  obtain ⟨s, tc, s', tc', hs, htc, h, htc', hp⟩ := exists_posted 0 0 twoTranches 4
    (fun _ _ s' tc' => (s'.pool tc').postedTotal 4 = 80 ∧
      s'.seniorValue tc' = 80 ∧ s'.juniorValue tc' = 40) (by decide +kernel)
  obtain ⟨htotal, hsenior, hjunior⟩ := of_decide_eq_true hp
  exact ⟨s, s', tc, tc', hs, htc, h, htc', htotal, hsenior, hjunior⟩

end AsyncVault
