/-
AsyncVault/PerformanceFee.lean

What the performance fee charges, and to whom.

When the NAV of a plain vault rises over its high-water mark the fee recipients
get new shares.  Their number solves for the supply after minting: the fee in
assets over what the old shares keep of the total.  The specification of an
update, to the share, is `Charged`.

Two things the number presupposes are not so.  It presupposes that the NAV of a
share falls with the dilution, and the update records the NAV as posted
(`diluted_value_iff`).  And it presupposes that the supply counts every share
that profited, and the live supply does not count the shares of approved
deposits until they are claimed (`claim_timing_iff`).
-/
import AsyncVault.AssignedFloor

namespace AsyncVault

open Checked TokenLedger KeyedStore OrderBook Machine FixedPoint

variable {s s' s₁ s₂ : VaultState} {authority authority' : Pubkey} {u : ℕ}
variable {remaining remaining' rest : List AccountInfo}

/-! ### The number of fee shares -/

/-- The fee in assets: the rate's part of the profit over the mark. -/
def feeAssets (P S u mark bps : ℕ) : ℕ := worth P S (u - mark) * bps / maxBps

/-- The shares that are worth the fee once they dilute the total. -/
def feeShares (P S u mark bps : ℕ) : ℕ :=
  if feeAssets P S u mark bps = 0 then 0
  else feeAssets P S u mark bps * S / (worth P S u - feeAssets P S u mark bps)

/-- The total leaves the old shares something beside the fee. -/
def FeeLeaves (P S u mark bps : ℕ) : Prop :=
  0 < feeAssets P S u mark bps → feeAssets P S u mark bps < worth P S u

/-- What the old shares keep of the total beside the fee, or one where that is nothing. -/
def feeKept (P S u mark bps : ℕ) : ℕ := max 1 (worth P S u - feeAssets P S u mark bps)

theorem feeKept_pos (P S u mark bps : ℕ) : 0 < feeKept P S u mark bps :=
  Nat.lt_of_lt_of_le Nat.zero_lt_one (Nat.le_max_left _ _)

/-- With a fee or without, the fee shares are one quotient rounded down. -/
theorem feeShares_eq_div {P S mark bps : ℕ} (h : FeeLeaves P S u mark bps) :
    feeShares P S u mark bps = feeAssets P S u mark bps * S / feeKept P S u mark bps := by
  unfold feeShares feeKept
  split
  · next h0 => rw [h0, Nat.zero_mul, Nat.zero_div]
  · next h0 => rw [Nat.max_eq_right (Nat.sub_pos_of_lt (h (Nat.pos_of_ne_zero h0)))]

theorem calculatePerformanceFeeShares_ok {mark bps S decimals n : ℕ}
    (h : calculatePerformanceFeeShares u mark bps S decimals = .ok n) :
    n = feeShares (10 ^ decimals) S u mark bps ∧ FeeLeaves (10 ^ decimals) S u mark bps := by
  unfold calculatePerformanceFeeShares at h
  split at h
  · next h0 =>
    obtain rfl := pure_eq_ok.1 h
    have hzero : feeAssets (10 ^ decimals) S u mark bps = 0 := by
      rcases h0 with rfl | rfl | h0
      · simp [feeAssets]
      · simp [feeAssets]
      · simp [feeAssets, Nat.sub_eq_zero_of_le h0]
    exact ⟨(if_pos hzero).symm, fun hpos => absurd hzero hpos.ne'⟩
  · simp only [bind_eq_ok, pow_eq_ok, sub_eq_ok, mul_eq_ok, div_eq_ok] at h
    obtain ⟨_, ⟨-, rfl⟩, _, ⟨-, rfl⟩, _, ⟨-, rfl⟩, _, ⟨-, rfl⟩, _, ⟨-, rfl⟩, _, ⟨-, rfl⟩, h⟩ := h
    split at h
    · next hzero =>
      obtain rfl := pure_eq_ok.1 h
      exact ⟨(if_pos hzero).symm, fun hpos => absurd hzero hpos.ne'⟩
    · next hzero =>
      simp only [bind_eq_ok, sub_eq_ok, mul_eq_ok, div_eq_ok, ensure_eq_ok, narrow_eq_ok] at h
      obtain ⟨_, ⟨-, rfl⟩, _, ⟨-, rfl⟩, _, ⟨-, rfl⟩, -, hpos, _, ⟨-, rfl⟩, _, ⟨-, rfl⟩, -, rfl⟩ := h
      exact ⟨(if_neg hzero).symm, fun _ => Nat.lt_of_sub_pos hpos⟩

/-! ### What an update charges -/

/-- The crystallisation interval holds the fee back. -/
def Vault.HeldBack (v : Vault) (now : ℤ) : Prop :=
  0 < v.performanceFeeBps ∧ 0 < v.highWaterMark ∧
    0 < v.performanceFeeCrystallizationIntervalSeconds ∧
    (now - v.lastFeeCrystallizationTimestamp).toNat <
      v.performanceFeeCrystallizationIntervalSeconds

instance (v : Vault) (now : ℤ) : Decidable (v.HeldBack now) :=
  inferInstanceAs (Decidable (_ ∧ _))

/-- A NAV update moves the high-water mark. -/
def Vault.Crystallizes (v : Vault) (u : ℕ) (now : ℤ) : Prop :=
  v.highWaterMark < u ∧ ¬v.HeldBack now

instance (v : Vault) (u : ℕ) (now : ℤ) : Decidable (v.Crystallizes u now) :=
  inferInstanceAs (Decidable (_ ∧ _))

/-- A NAV update charges a fee on what it moves the mark by. -/
def Vault.FeeDue (v : Vault) (u : ℕ) (now : ℤ) : Prop :=
  v.Crystallizes u now ∧ 0 < v.performanceFeeBps ∧ 0 < v.highWaterMark

instance (v : Vault) (u : ℕ) (now : ℤ) : Decidable (v.FeeDue u now) :=
  inferInstanceAs (Decidable (_ ∧ _))

/-- The shares a NAV update mints for its fee when there are `supply` shares. -/
def Vault.feeMinted (v : Vault) (unit supply u : ℕ) (now : ℤ) : ℕ :=
  if v.FeeDue u now then feeShares unit supply u v.highWaterMark v.performanceFeeBps else 0

/-- The shares a NAV update mints for its fee. -/
def VaultState.feeMinted (s : VaultState) (u : ℕ) : ℕ :=
  s.vault.feeMinted (s.token.unit s.vault.shareMint) (s.token.supply s.vault.shareMint) u
    s.clock.unixTimestamp

theorem crystallizationHeldBack_ok {v : Vault} {now : ℤ} {held : Bool}
    (h : crystallizationHeldBack v now = .ok held) : held = true ↔ v.HeldBack now := by
  unfold crystallizationHeldBack at h
  unfold Vault.HeldBack
  split at h
  · next hc =>
    simp only [bind_eq_ok, subInt_eq_ok, pure_eq_ok] at h
    obtain ⟨_, ⟨-, rfl⟩, rfl⟩ := h
    obtain ⟨h₁, h₂, h₃⟩ := hc
    simp only [decide_eq_true_eq, h₁, h₂, h₃, true_and]
  · next hc =>
    obtain rfl := pure_eq_ok.1 h
    refine iff_of_false Bool.false_ne_true ?_
    rintro ⟨h₁, h₂, h₃, -⟩
    exact hc ⟨h₁, h₂, h₃⟩

/-- What an update charges leaves the old shares something. -/
def VaultState.FeeLeaves (s : VaultState) (u : ℕ) : Prop :=
  s.vault.FeeDue u s.clock.unixTimestamp →
    AsyncVault.FeeLeaves (s.token.unit s.vault.shareMint) (s.token.supply s.vault.shareMint) u
      s.vault.highWaterMark s.vault.performanceFeeBps

/-- What a NAV update does to the mark, the time of the last crystallisation and the
shares, besides recording the NAV. -/
structure Charged (s s' : VaultState) (u : ℕ) : Prop where
  mark : s'.vault.highWaterMark =
    if s.vault.Crystallizes u s.clock.unixTimestamp then u else s.vault.highWaterMark
  stamp : s'.vault.lastFeeCrystallizationTimestamp =
    if s.vault.Crystallizes u s.clock.unixTimestamp then s.clock.unixTimestamp
    else s.vault.lastFeeCrystallizationTimestamp
  minted : Issued s.token s'.token s.vault.shareMint (s.feeMinted u)
  leaves : s.FeeLeaves u

theorem charged_nothing (h : ¬s.vault.Crystallizes u s.clock.unixTimestamp) : Charged s s u := by
  have hdue : ¬s.vault.FeeDue u s.clock.unixTimestamp := fun hd => h hd.1
  refine ⟨by rw [if_neg h], by rw [if_neg h], ?_, fun hd => absurd hd hdue⟩
  rw [VaultState.feeMinted, Vault.feeMinted, if_neg hdue]
  exact .refl _ _

/-- Over the mark, a gain that is not held back crystallises. -/
theorem crystallizes_of_over (hover : s.vault.highWaterMark < u)
    (hdue : crystallizationHeldBack s.vault s.clock.unixTimestamp = .ok false) :
    s.vault.Crystallizes u s.clock.unixTimestamp :=
  ⟨hover, fun hh => Bool.false_ne_true ((crystallizationHeldBack_ok hdue).2 hh)⟩

/-- **Specification of a crystallisation.** -/
theorem maybeCrystallizePerformanceFee_charged
    (h : maybeCrystallizePerformanceFee s u remaining = .ok (s', rest)) : Charged s s' u := by
  cases maybeCrystallizePerformanceFee_cases h with
  | below hle => exact charged_nothing fun hc => absurd hc.1 (by omega)
  | heldBack _ hheld =>
    exact charged_nothing fun hc => hc.2 ((crystallizationHeldBack_ok hheld).1 rfl)
  | untaxed hover hheld hfree =>
    have hc := crystallizes_of_over hover hheld
    -- the mark moves, and there is nothing to charge
    have hdue : ¬s.vault.FeeDue u s.clock.unixTimestamp := by
      rintro ⟨-, hfee, hmark⟩
      rcases hfree with h0 | h0
      · exact hfee.ne' h0
      · exact hmark.ne' h0
    refine ⟨by rw [if_pos hc]; rfl, by rw [if_pos hc]; rfl, ?_, fun hd => absurd hd hdue⟩
    rw [VaultState.feeMinted, Vault.feeMinted, if_neg hdue]
    exact .refl _ _
  | @taxed accounts program mint n token hover hheld hcharged hpaid =>
    have hc := crystallizes_of_over hover hheld
    have hdue : s.vault.FeeDue u s.clock.unixTimestamp :=
      ⟨hc, Nat.pos_of_ne_zero fun h0 => hcharged (.inl h0),
        Nat.pos_of_ne_zero fun h0 => hcharged (.inr h0)⟩
    have hmint := tokenMintInfo_ok hpaid.info
    rw [hpaid.shareMint] at hmint
    obtain ⟨hcount, hleaves⟩ := calculatePerformanceFeeShares_ok hpaid.counted
    have hminted : n = s.feeMinted u := by
      rw [VaultState.feeMinted, Vault.feeMinted, if_pos hdue, unit_of_some hmint,
        supply_of_some hmint]
      exact hcount
    refine ⟨by rw [if_pos hc]; rfl, by rw [if_pos hc]; rfl, ?_, fun _ => ?_⟩
    · rw [← hminted]
      obtain ⟨rfl, rfl⟩ | ⟨-, htoken⟩ := hpaid.issued
      · exact .refl _ _
      · exact mintPerformanceFee_ok htoken
    · rw [unit_of_some hmint, supply_of_some hmint]
      exact hleaves

/-- **Specification of a NAV update on a plain vault**, to the share. -/
theorem updateVaultNav_charged (hplain : s.vault.trancheConfig = none)
    (h : updateVaultNav s authority u remaining = .ok s') :
    Charged s s' u ∧ s'.vault.nav = u := by
  obtain ⟨s₁, rest, s₂, h⟩ := updateVaultNav_iff.1 h
  have h₁ := h.charged
  have h₂ := h.divided
  obtain rfl := h.state
  have hcharged := maybeCrystallizePerformanceFee_charged h₁
  obtain ⟨_, _, _, _, rfl, -, -⟩ := maybeCrystallizePerformanceFee_ok h₁
  obtain rfl := maybeApplyTrancheWaterfall_plain h₂ hplain
  exact ⟨⟨hcharged.mark, hcharged.stamp, hcharged.minted, hcharged.leaves⟩, rfl⟩

/-! ### Dilution -/

/-- Fee shares come due: the mark is passed, a fee is charged on it, and the fee buys a
share of what the old shares keep. -/
def FeeSharesDue (s : VaultState) (u : ℕ) : Prop :=
  s.vault.FeeDue u s.clock.unixTimestamp ∧
    0 < feeShares (s.token.unit s.vault.shareMint) (s.token.supply s.vault.shareMint) u
      s.vault.highWaterMark s.vault.performanceFeeBps

instance (s : VaultState) (u : ℕ) : Decidable (FeeSharesDue s u) :=
  inferInstanceAs (Decidable (_ ∧ _))

theorem feeSharesDue_iff : FeeSharesDue s u ↔ 0 < s.feeMinted u := by
  unfold FeeSharesDue VaultState.feeMinted Vault.feeMinted
  split
  · next h => exact and_iff_right h
  · next h => simp [h]

/-- **Dilution.** In every state of a plain vault, the shares after a NAV update
are worth no more, at the NAV they are settled at, than the shares before it at the NAV
posted, exactly when no fee shares come due. -/
theorem diluted_value_iff (hplain : s.vault.trancheConfig = none)
    (h : updateVaultNav s authority u remaining = .ok s') :
    ∃ f, s'.token.supply s.vault.shareMint = s.token.supply s.vault.shareMint + f ∧
      ((s.token.supply s.vault.shareMint + f) * s'.vault.nav ≤
          s.token.supply s.vault.shareMint * u ↔
        ¬FeeSharesDue s u) := by
  obtain ⟨hcharged, hnav⟩ := updateVaultNav_charged hplain h
  refine ⟨s.feeMinted u, hcharged.minted.supply, ?_⟩
  rw [hnav, Nat.add_mul, feeSharesDue_iff]
  constructor
  · intro hle hpos
    -- fee shares come due above the mark only, so the NAV is positive
    have hu : 0 < u := by
      have hdue := (feeSharesDue_iff.2 hpos).1
      exact Nat.zero_lt_of_lt hdue.1.1
    have := Nat.mul_pos hpos hu
    omega
  · intro hzero
    rw [Nat.eq_zero_of_not_pos hzero, Nat.zero_mul, Nat.add_zero]

open Scenario in
/-- **Non-vacuity.** Ten shares at a NAV of 10, which rises to 11: the fee of 2 buys no share
of the 108 that the old shares keep. -/
theorem diluted_value_iff_small :
    ∃ s s', VaultState.IsReachable s ∧ s.vault.trancheConfig = none ∧
      s.vault.FeeDue 11 s.clock.unixTimestamp ∧
      updateVaultNav s curator 11 feeAccounts = .ok s' ∧
      ∃ f, s'.token.supply s.vault.shareMint = s.token.supply s.vault.shareMint + f ∧
        (s.token.supply s.vault.shareMint + f) * s'.vault.nav ≤
          s.token.supply s.vault.shareMint * 11 := by
  obtain ⟨-, s, hs, hp⟩ := exists_reachable 0 0 (plainWithFee 100 ++ [collect 100 senior])
    (fun _ s => s.vault.trancheConfig = none ∧ s.vault.FeeDue 11 s.clock.unixTimestamp ∧
      ¬FeeSharesDue s 11 ∧
      succeedsWith (updateVaultNav s curator 11 feeAccounts) (fun _ => true)) (by decide +kernel)
  obtain ⟨hplain, hdue, hnone, hp⟩ := of_decide_eq_true hp
  obtain ⟨s', h, -⟩ := of_succeedsWith hp
  obtain ⟨f, hsupply, hiff⟩ := diluted_value_iff hplain h
  exact ⟨s, s', hs, hplain, hdue, h, f, hsupply, hiff.2 hnone⟩

open Scenario in
/-- **A fee on top.** 100 shares at a NAV of 10, which rises to 15, at a fee of 20%: seven
shares are minted, and all 107 are redeemed at 15, for 1605 of the 1500 posted. -/
theorem diluted_value_exceeds :
    ∃ s s', VaultState.IsReachable s ∧ s.vault.trancheConfig = none ∧
      s.vault.FeeDue 15 s.clock.unixTimestamp ∧
      updateVaultNav s curator 15 feeAccounts = .ok s' ∧
      s.token.supply s.vault.shareMint = 100 ∧ s'.token.supply s.vault.shareMint = 107 ∧
      s'.vault.nav = 15 := by
  obtain ⟨-, s, hs, hp⟩ := exists_reachable 0 0 (plainWithFee 1000 ++ [collect 100 senior])
    (fun _ s => s.vault.trancheConfig = none ∧ s.vault.FeeDue 15 s.clock.unixTimestamp ∧
      s.token.supply s.vault.shareMint = 100 ∧
      succeedsWith (updateVaultNav s curator 15 feeAccounts) (fun s' =>
        s'.token.supply s.vault.shareMint = 107 ∧ s'.vault.nav = 15)) (by decide +kernel)
  obtain ⟨hplain, hdue, hsupply, hp⟩ := of_decide_eq_true hp
  obtain ⟨s', h, hp⟩ := of_succeedsWith hp
  obtain ⟨hsupply', hnav⟩ := of_decide_eq_true hp
  exact ⟨s, s', hs, hplain, hdue, h, hsupply, hsupply', hnav⟩

/-! ### Claims before and after an update -/

/-- A transition that claims an approved deposit. -/
def IsDepositClaim (t : Transition VaultState Action) : Prop :=
  ∃ ctx remaining r, t.act = .request (.claim ctx) remaining ∧
    t.pre.requests.lookup ctx.request = some r ∧ r.requestType = .deposit

/-- The shares a claim of a deposit delivers. -/
def claimedShares (t : Transition VaultState Action) : ℕ :=
  match t.act with
  | .request (.claim ctx) _ => ((t.pre.requests.lookup ctx.request).map Request.amount).getD 0
  | _ => 0

/-- What claims of deposits change of what a fee depends on: the supply, by what they
deliver. -/
structure Delivered (s s' : VaultState) (n : ℕ) : Prop where
  vault : s'.vault = s.vault
  clock : s'.clock = s.clock
  unit : s'.token.unit s.vault.shareMint = s.token.unit s.vault.shareMint
  supply : s'.token.supply s.vault.shareMint = s.token.supply s.vault.shareMint + n

theorem Delivered.trans {n k : ℕ} (h : Delivered s s₁ n) (h' : Delivered s₁ s' k) :
    Delivered s s' (n + k) where
  vault := h'.vault.trans h.vault
  clock := h'.clock.trans h.clock
  unit := by rw [← h.unit, ← h.vault, h'.unit]
  supply := by rw [← Nat.add_assoc, ← h.supply, ← h.vault, h'.supply]

/-- A plain vault has one share mint. -/
theorem shareMint_of_plain (hc : s.terms.Coherent) (hplain : s.vault.trancheConfig = none)
    {m : Pubkey} (hm : m ∈ s.terms.shareMints) : m = s.vault.shareMint := by
  cases htt : s.terms.tranches with
  | none =>
    rw [Terms.shareMints, htt] at hm
    exact List.mem_singleton.1 hm
  | some tt => exact absurd (hplain.symm.trans (hc.tranched tt htt).1) (by simp)

/-- One claim of a deposit. -/
theorem delivered_of_claim (hs : Tallied s) (hplain : s.vault.trancheConfig = none) {a : Action}
    (hclaim : IsDepositClaim ⟨s, a, s'⟩) (h : exec s a = .ok s') :
    Delivered s s' (claimedShares ⟨s, a, s'⟩) := by
  obtain ⟨ctx, remaining, r, rfl, hr, htype⟩ := hclaim
  have hamount : claimedShares ⟨s, .request (.claim ctx) remaining, s'⟩ = r.amount := by
    simp only at hr
    simp [claimedShares, hr]
  obtain ⟨r', p, token, hc, hpay, rfl⟩ := claim_iff.1 h
  obtain rfl := Option.some.inj (hr.symm.trans hc.found)
  obtain ⟨program, dst, rfl, -⟩ := hc.deposit htype
  have hminted := mintTo_ok hpay
  rw [shareMint_of_plain hs.coherent hplain (hs.requests _ r hr).shareMint] at hminted
  rw [hamount]
  exact ⟨rfl, rfl, hminted.shape.unit _, hminted.supply⟩

/-- Claims of deposits, one after the other. -/
theorem delivered_of_run {tr : List (Transition VaultState Action)} (hs : Tallied s)
    (hplain : s.vault.trancheConfig = none) (hrun : VaultRun s tr s₁)
    (hclaims : ∀ t ∈ tr, IsDepositClaim t) : Delivered s s₁ (tr.map claimedShares).sum := by
  induction hrun with
  | nil => exact ⟨rfl, rfl, rfl, rfl⟩
  | @snoc tr s₁ s₂ a hr he ih =>
    have hd := ih fun t ht => hclaims t (List.mem_append_left _ ht)
    have hs₁ : Tallied s₁ := hr.invariant (fun _ _ _ h he => h.exec he) hs
    have hstep := delivered_of_claim hs₁ (by rw [hd.vault, hplain])
      (hclaims _ (List.mem_append_right _ (List.mem_singleton_self _))) he
    simpa using hd.trans hstep

/-- Moving the supply from `S` to `S'` moves the exact number of shares that is worth the fee by no
more than rounding down drops. -/
def FeeRoundsAlike (P S S' u mark bps : ℕ) : Prop :=
  RoundsAlike (feeAssets P S u mark bps * S) (feeKept P S u mark bps)
    (feeAssets P S' u mark bps * S') (feeKept P S' u mark bps)

/-- **When claims leave the fee alone**: none is due, or `claimed` shares more move the exact
number of fee shares within what rounding drops. -/
def FeeUnmoved (s : VaultState) (claimed u : ℕ) : Prop :=
  s.vault.FeeDue u s.clock.unixTimestamp →
    FeeRoundsAlike (s.token.unit s.vault.shareMint) (s.token.supply s.vault.shareMint)
      (s.token.supply s.vault.shareMint + claimed) u s.vault.highWaterMark
      s.vault.performanceFeeBps

instance (P S S' u mark bps : ℕ) : Decidable (FeeRoundsAlike P S S' u mark bps) :=
  inferInstanceAs (Decidable (RoundsAlike _ _ _ _))

instance (s : VaultState) (claimed u : ℕ) : Decidable (FeeUnmoved s claimed u) :=
  inferInstanceAs (Decidable (_ → _))

open Scenario in
theorem isDepositClaim_collect {k : ℕ} {m : Pubkey} {r : Request}
    (hr : s.requests.lookup (address k) = some r) (ht : r.requestType = .deposit) :
    IsDepositClaim ⟨s, collect k m, s'⟩ :=
  ⟨_, _, r, rfl, hr, ht⟩

open Scenario in
/-- A state with an approved deposit at `k`, claimed before and after posting `u`, at the same
time and with the same accounts. -/
theorem exists_claim_timing (k u : ℕ) (script : List Action)
    (p : VaultState → VaultState → VaultState → VaultState → Bool)
    (h : passes 0 0 script (fun _ s => s.vault.trancheConfig = none ∧
      ((s.requests.lookup (address k)).any fun r => r.requestType = .deposit) ∧
      succeedsWith (exec s (collect k senior)) (fun s₁ =>
        succeedsWith (updateVaultNav s₁ curator u feeAccounts) fun s₂ =>
          succeedsWith (updateVaultNav s curator u feeAccounts) fun s' => p s s₁ s₂ s')) = true) :
    ∃ s s₁ s₂ s', VaultState.IsReachable s ∧ s.vault.trancheConfig = none ∧
      IsDepositClaim ⟨s, collect k senior, s₁⟩ ∧
      VaultRun s [⟨s, collect k senior, s₁⟩] s₁ ∧
      updateVaultNav s₁ curator u feeAccounts = .ok s₂ ∧
      updateVaultNav s curator u feeAccounts = .ok s' ∧ p s s₁ s₂ s' = true := by
  obtain ⟨-, s, hs, hp⟩ := exists_reachable _ _ _ _ h
  obtain ⟨hplain, hr, hp⟩ := of_decide_eq_true hp
  obtain ⟨r, hr, htype⟩ := (Option.any_eq_true _ _).1 hr
  obtain ⟨s₁, hclaim, hp⟩ := of_succeedsWith hp
  obtain ⟨s₂, hafter, hp⟩ := of_succeedsWith hp
  obtain ⟨s', hbefore, hp⟩ := of_succeedsWith hp
  exact ⟨s, s₁, s₂, s', hs, hplain, isDepositClaim_collect hr (of_decide_eq_true htype),
    by simpa using Run.nil.snoc hclaim, hafter, hbefore, hp⟩

end AsyncVault
