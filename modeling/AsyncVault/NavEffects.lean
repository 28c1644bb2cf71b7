/-
AsyncVault/NavEffects.lean

What a NAV update does.

A plain vault may issue performance-fee shares and then records the NAV.  A
tranche vault issues none; its configuration becomes the one after the waterfall
at the effective supplies (`VaultState.pool`).
-/
import AsyncVault.SettlementEffects

namespace AsyncVault

open Checked TokenLedger KeyedStore OrderBook Function

variable {s s' : VaultState} {m k : Pubkey} {n : ℕ} {token token' : Ledger Pubkey}
variable {remaining rest : List AccountInfo} {updatedNav : ℕ}

/-! ### Performance fee -/

theorem mintToInfo_ok {program : TokenProgram} {info : AccountInfo} {authority : Pubkey}
    (h : mintToInfo token program m info authority n = .ok token') :
    Issued token token' m n := by
  simp only [mintToInfo, bind_eq_ok, cpi_eq_ok] at h
  obtain ⟨-, -, h⟩ := h
  exact (mintTo_ok h).issued

theorem mintPerformanceFee_ok {program : TokenProgram} {accounts : PerformanceFeeAccounts}
    (h : mintPerformanceFee s program accounts n = .ok token) :
    Issued s.token token s.vault.shareMint n := by
  simp only [mintPerformanceFee, bind_eq_ok] at h
  obtain ⟨⟨protocolShares, recipientShares⟩, hsplit, -, -, token₁, h₁, h₂⟩ := h
  have hsum := splitProtocolFee_add hsplit
  simp only at hsum h₁ h₂
  rw [← hsum, Nat.add_comm]
  refine Issued.trans (?_ : Issued s.token token₁ s.vault.shareMint _) ?_
  · split at h₁
    · exact mintToInfo_ok h₁
    · next h0 =>
      obtain rfl := pure_eq_ok.1 h₁
      rw [Nat.eq_zero_of_not_pos h0]
      exact .refl _ _
  · split at h₂
    · simp only [bind_eq_ok] at h₂
      obtain ⟨_, -, h₂⟩ := h₂
      exact mintToInfo_ok h₂
    · next h0 =>
      obtain rfl := pure_eq_ok.1 h₂
      rw [Nat.eq_zero_of_not_pos h0]
      exact .refl _ _

/-- A crystallisation moves the high-water mark and issues fee shares, none when
the vault charges no performance fee. -/
theorem maybeCrystallizePerformanceFee_ok
    (h : maybeCrystallizePerformanceFee s updatedNav remaining = .ok (s', rest)) :
    ∃ mark timestamp token feeShares, s' = { s with
        vault := { s.vault with
          highWaterMark := mark
          lastFeeCrystallizationTimestamp := timestamp }
        token := token } ∧
      Issued s.token token s.vault.shareMint feeShares ∧
      (s.vault.performanceFeeBps = 0 → token = s.token) := by
  cases maybeCrystallizePerformanceFee_cases h with
  | below => exact ⟨_, _, _, 0, rfl, .refl _ _, fun _ => rfl⟩
  | heldBack => exact ⟨_, _, _, 0, rfl, .refl _ _, fun _ => rfl⟩
  | untaxed => exact ⟨_, _, _, 0, rfl, .refl _ _, fun _ => rfl⟩
  | taxed _ _ hcharged hpaid =>
    obtain ⟨-, rfl⟩ | ⟨-, htoken⟩ := hpaid.issued
    · exact ⟨_, _, _, 0, rfl, .refl _ _, fun _ => rfl⟩
    · exact ⟨_, _, _, _, rfl, mintPerformanceFee_ok htoken, fun h0 => absurd (.inl h0) hcharged⟩

/-! ### Waterfall -/

/-- The two tranches at their effective supplies, the larger of live and cached. -/
def VaultState.pool (s : VaultState) (tc : TrancheConfig) : TranchePool where
  seniorSupply := max (s.token.supply tc.seniorShareMint) tc.seniorSupply
  juniorSupply := max (s.token.supply tc.juniorShareMint) tc.juniorSupply
  seniorUnit := s.token.unit tc.seniorShareMint
  juniorUnit := s.token.unit tc.juniorShareMint

theorem maybeApplyTrancheWaterfall_plain
    (h : maybeApplyTrancheWaterfall s updatedNav remaining = .ok s')
    (hplain : s.vault.trancheConfig = none) : s' = s := by
  obtain ⟨-, rfl⟩ | ⟨_, _, _, _, _, _, _, h⟩ := maybeApplyTrancheWaterfall_iff.1 h
  · rfl
  · exact absurd (hplain.symm.trans h.named) (Option.some_ne_none _).symm

theorem maybeApplyTrancheWaterfall_tranched {tc : TrancheConfig} {pda : Pubkey}
    (h : maybeApplyTrancheWaterfall s updatedNav remaining = .ok s')
    (hpda : s.vault.trancheConfig = some pda) (htc : s.trancheConfig = some tc) :
    s' = { s with
      trancheConfig :=
        some (tc.afterWaterfall (s.pool tc) updatedNav s.clock.slot s.clock.unixTimestamp) } := by
  obtain ⟨hplain, -⟩ | ⟨_, _, _, tc', tc'', senior, junior, h⟩ :=
    maybeApplyTrancheWaterfall_iff.1 h
  · exact absurd (hplain.symm.trans hpda) (Option.some_ne_none _).symm
  obtain rfl := Option.some.inj ((loadTrancheConfig_ok h.loaded).symm.trans htc)
  have hs := tokenMintInfo_ok h.seniorInfo
  have hj := tokenMintInfo_ok h.juniorInfo
  rw [← h.seniorKey] at hs
  rw [← h.juniorKey] at hj
  rw [h.state, applyTrancheWaterfall_ok h.divided]
  simp only [poolOf, VaultState.pool, supply_of_some hs, supply_of_some hj, unit_of_some hs,
    unit_of_some hj]

/-! ### The update -/

/-- The vault account after a NAV update. -/
def Vault.posted (v : Vault) (updatedNav version slot : ℕ) (timestamp : ℤ) (mark : ℕ)
    (crystallized : ℤ) : Vault :=
  { v with
    highWaterMark := mark
    lastFeeCrystallizationTimestamp := crystallized
    nav := updatedNav
    navVersion := version
    lastNavUpdateSlot := slot
    lastNavUpdateTimestamp := timestamp }

/-- **Specification of a NAV update on a plain vault.** -/
theorem updateVaultNav_plain (hplain : s.vault.trancheConfig = none) {authority : Pubkey}
    (h : updateVaultNav s authority updatedNav remaining = .ok s') :
    ∃ version mark crystallized token feeShares,
      s' = { s with
        vault := s.vault.posted updatedNav version s.clock.slot s.clock.unixTimestamp mark
          crystallized
        token := token } ∧
      Issued s.token token s.vault.shareMint feeShares ∧
      (s.vault.performanceFeeBps = 0 → token = s.token) := by
  obtain ⟨s₁, rest, s₂, h⟩ := updateVaultNav_iff.1 h
  have h₁ := h.charged
  have h₂ := h.divided
  obtain rfl := h.state
  obtain ⟨mark, crystallized, token, feeShares, rfl, hissued, hnone⟩ :=
    maybeCrystallizePerformanceFee_ok h₁
  obtain rfl := maybeApplyTrancheWaterfall_plain h₂ hplain
  exact ⟨_, mark, crystallized, token, feeShares, rfl, hissued, hnone⟩

/-- **Specification of a NAV update on a tranche vault.** -/
theorem updateVaultNav_tranched {tc : TrancheConfig} {pda : Pubkey}
    (hpda : s.vault.trancheConfig = some pda) (htc : s.trancheConfig = some tc)
    (hfee : s.vault.performanceFeeBps = 0) {authority : Pubkey}
    (h : updateVaultNav s authority updatedNav remaining = .ok s') :
    ∃ version mark crystallized, s' = { s with
        vault := s.vault.posted updatedNav version s.clock.slot s.clock.unixTimestamp mark
          crystallized
        trancheConfig :=
          some (tc.afterWaterfall (s.pool tc) updatedNav s.clock.slot s.clock.unixTimestamp) } := by
  obtain ⟨s₁, rest, s₂, h⟩ := updateVaultNav_iff.1 h
  have h₁ := h.charged
  have h₂ := h.divided
  obtain rfl := h.state
  obtain ⟨mark, crystallized, token, feeShares, rfl, -, htoken⟩ :=
    maybeCrystallizePerformanceFee_ok h₁
  obtain rfl := htoken hfee
  obtain rfl := maybeApplyTrancheWaterfall_tranched h₂ hpda htc
  exact ⟨_, mark, crystallized, rfl⟩

/-- A vault whose account names a tranche configuration has one, and charges no
performance fee. -/
theorem tranched_of_pda (hc : s.terms.Coherent) {pda : Pubkey}
    (hpda : s.vault.trancheConfig = some pda) :
    ∃ tc, s.trancheConfig = some tc ∧ s.vault.performanceFeeBps = 0 := by
  cases htc : s.trancheConfig with
  | none =>
    have hplain : s.vault.trancheConfig = none := hc.plain (by simp [VaultState.terms, htc])
    rw [hplain] at hpda
    cases hpda
  | some tc => exact ⟨tc, rfl, (VaultState.validTranches hc htc).performanceFeeBps⟩

theorem pool_senior {tc : TrancheConfig} (htc : s.trancheConfig = some tc) :
    (s.pool tc).seniorSupply =
      max (s.book.supply tc.seniorShareMint) (s.book.cached tc.seniorShareMint) := by
  rw [VaultState.supply_of_mem ((VaultState.mem_shareMints htc).2 (.inl rfl)),
    VaultState.book_cached htc, TrancheConfig.supplyOf_senior]
  rfl

theorem pool_junior {tc : TrancheConfig} (hc : s.terms.Coherent)
    (htc : s.trancheConfig = some tc) :
    (s.pool tc).juniorSupply =
      max (s.book.supply tc.juniorShareMint) (s.book.cached tc.juniorShareMint) := by
  rw [VaultState.supply_of_mem ((VaultState.mem_shareMints htc).2 (.inr rfl)),
    VaultState.book_cached htc,
    TrancheConfig.supplyOf_junior (VaultState.senior_ne_junior hc htc)]
  rfl

/-- The waterfall of the order book, at the effective supplies. -/
theorem waterfall_step (hc : s.terms.Coherent) {tc : TrancheConfig} (tc' : TrancheConfig)
    (updatedNav : ℕ) (htc : s.trancheConfig = some tc) (ht : tc'.terms = tc.terms)
    (hs : tc'.seniorSupply = (s.pool tc).seniorSupply)
    (hj : tc'.juniorSupply = (s.pool tc).juniorSupply)
    (hbook : s'.book =
      { s.book with nav := updatedNav, cached := tc'.supplyOf, recorded := tc'.navOf })
    (esc : Pubkey → ℕ) : Step (s.bookAt esc) .posted (s'.bookAt esc) := by
  have hne := VaultState.senior_ne_junior hc htc
  have hsm : tc'.seniorShareMint = tc.seniorShareMint := congrArg TrancheTerms.seniorShareMint ht
  have hjm : tc'.juniorShareMint = tc.juniorShareMint := congrArg TrancheTerms.juniorShareMint ht
  rw [VaultState.bookAt_of_book hbook]
  refine Step.waterfall (B := s.bookAt esc) (VaultState.book_tranches htc) ?_ ?_
  · exact (congrArg tc'.supplyOf hsm).symm.trans
      (tc'.supplyOf_senior.trans (hs.trans (pool_senior htc)))
  · exact (congrArg tc'.supplyOf hjm).symm.trans
      ((TrancheConfig.supplyOf_junior (by rwa [hsm, hjm])).trans (hj.trans (pool_junior hc htc)))

/-- A NAV update posts the NAV to the order book. -/
theorem updateVaultNav_ok (hm : s.Minting) {authority : Pubkey}
    (h : updateVaultNav s authority updatedNav remaining = .ok s') :
    s'.requests = s.requests ∧ Tracked s .posted s' := by
  cases hpda : s.vault.trancheConfig with
  | none =>
    obtain ⟨version, mark, crystallized, token, feeShares, rfl, hissued, -⟩ :=
      updateVaultNav_plain hpda h
    have htc := trancheConfig_of_plain hm.coherent hpda
    have hg := hissued.shape.guarded s.key
    have hterms : (s.put token s.requests).terms = s.terms := rfl
    refine ⟨rfl, .of_kept (hm.of_terms rfl hg (fun _ _ hk => hk) id) rfl hg
      (fun esc esc' hesc => ?_) fun _ =>
        VaultState.escrow_mono rfl fun _ a _ => hissued.balance_le a⟩
    -- the fee shares are the only ones the book sees created
    have hstep : Step (s.bookAt esc) .posted { s.book with
        nav := updatedNav
        escrow := esc'
        supply := update s.book.supply s.terms.shareMint
          (s.book.supply s.terms.shareMint + feeShares) } :=
      Step.post (B := s.bookAt esc) (by simp [VaultState.bookAt, VaultState.book, htc]) hesc
    rw [← VaultState.supply_add hterms hm.coherent.shareMint_mem hissued] at hstep
    convert hstep using 1
    exact Book.ext rfl rfl rfl rfl rfl rfl rfl (VaultState.unit_eq hm hterms hg) rfl rfl rfl rfl
  | some pda =>
    -- a tranche vault charges no performance fee
    obtain ⟨tc, htc, hfee⟩ := tranched_of_pda hm.coherent hpda
    obtain ⟨version, mark, crystallized, hs'⟩ := updateVaultNav_tranched hpda htc hfee h
    have hterms : s'.terms = s.terms := by
      rw [hs']
      simp only [VaultState.terms, htc]
      rfl
    have htoken : s'.token = s.token := by rw [hs']
    have hrequests : s'.requests = s.requests := by rw [hs']
    have hg : Guarded s.key s.token s'.token := by
      rw [htoken]
      exact .refl _ _
    refine ⟨hrequests, .of_still (hm.of_terms hterms hg (fun _ _ hk => by rwa [hrequests] at hk)
        (by rw [hrequests]; exact id)) hterms hg
      (waterfall_step hm.coherent
        (tc.afterWaterfall (s.pool tc) updatedNav s.clock.slot s.clock.unixTimestamp) updatedNav
        htc rfl rfl rfl ?_) ?_⟩
    · rw [hs'] at hterms ⊢
      simp only [VaultState.book, hterms, htc]
      rfl
    · simp only [VaultState.book, hterms, htoken]

/-- Without a performance fee a NAV update issues nothing. -/
theorem updateVaultNav_unissued (hc : s.terms.Coherent) {authority : Pubkey}
    (h : updateVaultNav s authority updatedNav remaining = .ok s')
    (hfee : s.vault.performanceFeeBps = 0) : s'.token = s.token := by
  cases hpda : s.vault.trancheConfig with
  | none =>
    obtain ⟨_, _, _, token, _, rfl, -, hnone⟩ := updateVaultNav_plain hpda h
    exact hnone hfee
  | some pda =>
    obtain ⟨tc, htc, -⟩ := tranched_of_pda hc hpda
    obtain ⟨_, _, _, rfl⟩ := updateVaultNav_tranched hpda htc hfee h
    rfl

end AsyncVault
