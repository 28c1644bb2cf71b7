/-
AsyncVault/NavHistory.lean

Where a NAV comes from.

Everything a settlement or a guard reads of the NAV (the prices of the share
mints, the version, the slot and the time of the last update) is written by NAV
updates only, all of it at once (`VaultState.quote`).  So at any point of a run
the quote is the one its last NAV update left, and two updates with none between
them are one after the other (`last_posted`).
-/
import AsyncVault.FeeHistory
import AsyncVault.Tallies

namespace AsyncVault

open Checked TokenLedger KeyedStore Function Machine

variable {s s' s'' : VaultState} {m : Pubkey} {r : Request} {remaining : List AccountInfo}
variable {context : RequestShareMintContext}

/-! ### Quotes -/

/-- What NAV updates write. -/
structure Quote where
  nav : ℕ
  price : Pubkey → ℕ
  version : ℕ
  slot : ℕ
  timestamp : ℤ

def VaultState.quote (s : VaultState) : Quote where
  nav := s.vault.nav
  price := s.price
  version := s.vault.navVersion
  slot := s.vault.lastNavUpdateSlot
  timestamp := s.vault.lastNavUpdateTimestamp

/-- The NAVs recorded for the tranches. -/
def VaultState.trancheNavs (s : VaultState) : Option (Pubkey → ℕ) :=
  s.trancheConfig.map TrancheConfig.navOf

theorem price_eq (s : VaultState) (m : Pubkey) :
    s.price m = settlementNav (s.trancheNavs.map (· m)) s.vault.nav := by
  simp only [VaultState.price, VaultState.requestContext, VaultState.trancheNavs, Option.map_map]
  rfl

theorem price_congr (hnav : s'.vault.nav = s.vault.nav) (ht : s'.trancheNavs = s.trancheNavs) :
    s'.price = s.price := by
  funext m
  rw [price_eq, price_eq, hnav, ht]

/-- The settings and the tranches make the quote. -/
theorem quote_of_settings (h : s'.vault.settings = s.vault.settings)
    (ht : s'.trancheNavs = s.trancheNavs) : s'.quote = s.quote := by
  have hprice : s'.price = s.price := by
    refine price_congr ?_ ht
    show s'.vault.settings.nav = s.vault.settings.nav
    rw [h]
  have hfields : ∀ v : Vault, v.settings.nav = v.nav ∧ v.settings.navVersion = v.navVersion ∧
      v.settings.lastNavUpdateSlot = v.lastNavUpdateSlot ∧
      v.settings.lastNavUpdateTimestamp = v.lastNavUpdateTimestamp := fun _ => ⟨rfl, rfl, rfl, rfl⟩
  obtain ⟨hnav', hversion', hslot', htime'⟩ := hfields s'.vault
  obtain ⟨hnav, hversion, hslot, htime⟩ := hfields s.vault
  rw [h] at hnav' hversion' hslot' htime'
  simp only [VaultState.quote, hprice, ← hnav', ← hversion', ← hslot', ← htime', hnav, hversion,
    hslot, htime]

/-! ### Request instructions -/

theorem Requeued.trancheNavs (h : Requeued s s') : s'.trancheNavs = s.trancheNavs :=
  h.map TrancheConfig.navOf fun _ => rfl

theorem incrementPendingRequests_trancheNavs (h : incrementPendingRequests s = .ok s') :
    s'.trancheNavs = s.trancheNavs := by
  simp only [incrementPendingRequests, bind_eq_ok, pure_eq_ok] at h
  obtain ⟨pending, -, rfl⟩ := h
  rfl

theorem decrementPendingRequests_trancheNavs (h : decrementPendingRequests s = .ok s') :
    s'.trancheNavs = s.trancheNavs := by
  simp only [decrementPendingRequests, bind_eq_ok, pure_eq_ok] at h
  obtain ⟨pending, -, rfl⟩ := h
  rfl

theorem addPendingDeposit_trancheNavs {vaultAsset : Option Pubkey} {n : ℕ}
    (h : addPendingDeposit s m vaultAsset n = .ok s') : s'.trancheNavs = s.trancheNavs := by
  unfold addPendingDeposit at h
  split at h <;> simp only [bind_eq_ok, pure_eq_ok] at h
  · obtain ⟨pending, -, rfl⟩ := h
    rfl
  · obtain ⟨m', -, va, -, pending, -, rfl⟩ := h
    rfl

theorem subPendingDeposit_trancheNavs {vaultAsset : Option Pubkey} {n : ℕ}
    (h : subPendingDeposit s m vaultAsset n = .ok s') : s'.trancheNavs = s.trancheNavs := by
  unfold subPendingDeposit at h
  split at h <;> simp only [bind_eq_ok, pure_eq_ok] at h
  · obtain ⟨pending, -, rfl⟩ := h
    rfl
  · obtain ⟨m', -, va, -, pending, -, rfl⟩ := h
    rfl

theorem refund_trancheNavs {ctx : RefundAccounts} (h : refund s ctx r = .ok s') :
    s'.trancheNavs = s.trancheNavs := by
  cases ht : r.requestType with
  | deposit =>
    obtain ⟨pending, a, program, token, s₁, h⟩ := (refund_deposit_iff ht).1 h
    have hnavs := subPendingDeposit_trancheNavs h.released
    exact (decrementPendingRequests_trancheNavs h.counted).trans hnavs
  | redeem =>
    obtain ⟨a, program, token, h⟩ := (refund_redeem_iff ht).1 h
    have hnavs := decrementPendingRequests_trancheNavs h.counted
    exact hnavs

/-- Predicting a supply leaves the recorded NAVs. -/
theorem updateTrancheSupplyCache_trancheNavs {t : RequestType} {delta live : ℕ}
    {info : Option TrancheRequestInfo} {account : Option AccountInfo}
    (h : updateTrancheSupplyCache s m t delta live info account = .ok s') :
    s'.trancheNavs = s.trancheNavs := by
  unfold updateTrancheSupplyCache at h
  split at h
  · obtain rfl := pure_eq_ok.1 h
    rfl
  · simp only [bind_eq_ok] at h
    obtain ⟨tc, htc, h⟩ := h
    have htc := writableTrancheConfig_ok htc
    split at h
    · simp only [bind_eq_ok, pure_eq_ok] at h
      obtain ⟨n, -, rfl⟩ := h
      simp only [VaultState.trancheNavs, htc]
      rfl
    · split at h
      · simp only [bind_eq_ok, pure_eq_ok] at h
        obtain ⟨n, -, rfl⟩ := h
        simp only [VaultState.trancheNavs, htc]
        rfl
      · obtain rfl := pure_eq_ok.1 h
        simp only [VaultState.trancheNavs, htc]

theorem settleDeposit_trancheNavs {ctx : ApproveRequest} {nav : ℕ} {share : Mint Pubkey}
    {x : Settlement} (h : settleDeposit s ctx context r nav share remaining = .ok x) :
    x.state.trancheNavs = s.trancheNavs := by
  obtain ⟨_, _, _, _, _, _, _, hs, rfl⟩ := settleDeposit_iff.1 h
  have hnavs := updateTrancheSupplyCache_trancheNavs hs.cached
  exact hnavs

theorem settleRedeem_trancheNavs {ctx : ApproveRequest} {nav : ℕ} {share : Mint Pubkey}
    {x : Settlement} (h : settleRedeem s ctx context r nav share remaining = .ok x) :
    x.state.trancheNavs = s.trancheNavs := by
  obtain ⟨_, _, _, _, _, _, _, _, hs, rfl⟩ := settleRedeem_iff.1 h
  have hnavs := updateTrancheSupplyCache_trancheNavs hs.cached
  exact hnavs

theorem approveRequest_trancheNavs {ctx : ApproveRequest} {args : ApproveRequestArgs}
    (h : approveRequest s ctx args remaining = .ok s') : s'.trancheNavs = s.trancheNavs := by
  obtain ⟨r, share, context, s₁, x, v, -, hsettles⟩ := approveRequest_iff.1 h
  have hsettled : x.state.trancheNavs = s₁.trancheNavs := by
    cases ht : r.requestType with
    | deposit => exact settleDeposit_trancheNavs (hsettles.deposit ht).1
    | redeem => exact settleRedeem_trancheNavs (hsettles.redeem ht).1
  have hnavs := decrementPendingRequests_trancheNavs hsettles.state
  exact (hnavs.trans hsettled).trans (advanceQueue_ok hsettles.queue).trancheNavs

/-- **Requests leave the recorded NAVs alone.** -/
theorem execRequest_trancheNavs {i : RequestInstruction}
    (h : execRequest s i remaining = .ok s') : s'.trancheNavs = s.trancheNavs := by
  cases i <;> simp only [execRequest] at h
  -- the parts of a handler leave the NAVs, and so it does
  case createDepositRequest =>
    obtain ⟨_, _, _, _, _, _, -, ⟨-, hinc, hadd, hnext, rfl⟩⟩ := createDepositRequest_iff.1 h
    have hnavs := (nextRequestId_ok hnext).trancheNavs
    exact (hnavs.trans (addPendingDeposit_trancheNavs hadd)).trans
      (incrementPendingRequests_trancheNavs hinc)
  case createRedeemRequest =>
    obtain ⟨_, _, _, _, _, -, ⟨-, hinc, hnext, rfl⟩⟩ := createRedeemRequest_iff.1 h
    have hnavs := (nextRequestId_ok hnext).trancheNavs
    exact hnavs.trans (incrementPendingRequests_trancheNavs hinc)
  case approveRequest => exact approveRequest_trancheNavs h
  case rejectRequest =>
    obtain ⟨_, _, _, _, h⟩ := rejectRequest_iff.1 h
    obtain rfl := h.state
    exact (refund_trancheNavs h.refunded).trans (advanceQueue_ok h.queue).trancheNavs
  case cancelRequest =>
    obtain ⟨_, _, _, h⟩ := cancelRequest_iff.1 h
    obtain rfl := h.state
    have hnavs := refund_trancheNavs h.refunded
    exact hnavs
  case cancelQueuedDepositRequest =>
    obtain ⟨_, _, _, h⟩ := cancelQueuedDepositRequest_iff.1 h
    obtain rfl := h.state
    have hnavs := refund_trancheNavs h.refunded
    exact hnavs
  case cancelQueuedRedemptionRequest =>
    obtain ⟨-, _, _, _, h⟩ := cancelQueuedRedemptionRequest_iff.1 h
    obtain rfl := h.state
    have hnavs := refund_trancheNavs h.refunded
    exact hnavs
  case skipCanceledQueueRequest =>
    obtain ⟨_, _, _, h⟩ := skipCanceledQueueRequest_iff.1 h
    obtain rfl := h.state
    exact (advanceQueue_ok h.queue).trancheNavs
  case claim =>
    obtain ⟨_, _, token, -, -, rfl⟩ := claim_iff.1 h
    rfl
  case setOperator =>
    obtain ⟨-, -, r, -, -, rfl⟩ := setOperator_iff.1 h
    rfl

/-! ### Every step -/

/-- A split records no NAVs, so the tranches are quoted at the NAV of the vault. -/
theorem split_quote {token : Ledger Pubkey} {ctx : InitializeTranches}
    {args : InitializeTranchesArgs} (htc : s.trancheConfig = none) :
    (s.split token (initialTrancheConfig s.key ctx args)).quote = s.quote := by
  have hprice : (s.split token (initialTrancheConfig s.key ctx args)).price = s.price := by
    funext m
    have hzero : (initialTrancheConfig s.key ctx args).navOf m = 0 := by
      unfold TrancheConfig.navOf
      split_ifs <;> rfl
    simp only [price_eq, VaultState.trancheNavs, VaultState.split, htc, Option.map_some, hzero,
      settlementNav_some, lt_irrefl, if_false]
    rfl
  simp only [VaultState.quote, hprice]
  rfl

theorem execConfig_quote {i : ConfigInstruction} (h : execConfig s i = .ok s') :
    s'.quote = s.quote := by
  have hchange : ∀ c : Change, (s.change c).quote = s.quote := by
    intro c
    cases c <;> rfl
  by_cases hi : ∃ ctx args, i = .initializeTranches ctx args
  · obtain ⟨ctx, args, rfl⟩ := hi
    obtain ⟨token, hd⟩ := initializeTranches_divides h
    rw [hd.state]
    exact split_quote hd.absent
  · cases execConfig_configured h with
    | divided => exact absurd ⟨_, _, rfl⟩ hi
    | changed => exact hchange _
    | executed => exact hchange _
    | _ => rfl

/-- **Only NAV updates write the quote.** -/
theorem exec_quote {a : Action} (h : exec s a = .ok s') (ha : a.postedNav = none) :
    s'.quote = s.quote := by
  cases a with
  | request i remaining =>
    obtain ⟨d, hworked, -⟩ := execRequest_worked h
    exact quote_of_settings hworked.settings (execRequest_trancheNavs h)
  | instantDeposit ctx amount remaining =>
    obtain ⟨net, -, -, hworked⟩ := instantDeposit_worked h
    refine quote_of_settings hworked.settings ?_
    obtain ⟨_, _, _, _, _, _, _, _, _, _, hi⟩ := instantDeposit_iff.1 h
    rw [hi.state]
    rfl
  | instantRedeem ctx shares remaining =>
    obtain ⟨gross, hworked⟩ := instantRedeem_worked h
    refine quote_of_settings hworked.settings ?_
    obtain ⟨_, _, _, _, _, _, _, _, _, _, _, hi⟩ := instantRedeem_iff.1 h
    rw [hi.state]
    rfl
  | updateVaultNav authority u remaining => cases ha
  | config i => exact execConfig_quote h
  | world w =>
    obtain ⟨token, clock, rfl, -⟩ := execWorld_outside h
    rfl

/-- What a NAV update writes. -/
theorem updateVaultNav_quote {authority : Pubkey} {u : ℕ}
    (h : updateVaultNav s authority u remaining = .ok s') :
    s'.quote.nav = u ∧ s'.quote.version = s.quote.version + 1 ∧
      s'.quote.slot = s.clock.slot ∧ s'.quote.timestamp = s.clock.unixTimestamp ∧
      s'.clock = s.clock := by
  obtain ⟨s₁, rest, s₂, h⟩ := updateVaultNav_iff.1 h
  have h₁ := h.charged
  have h₂ := h.divided
  obtain rfl := h.state
  obtain ⟨mark, crystallized, token, feeShares, rfl, -, -⟩ := maybeCrystallizePerformanceFee_ok h₁
  obtain ⟨tc, rfl, -, -⟩ := maybeApplyTrancheWaterfall_ok h₂
  exact ⟨rfl, rfl, rfl, rfl, rfl⟩

variable {t t' t₀ : ManagedState} {verify : MerkleCheck}
variable {x p : Transition ManagedState ManagedAction}
variable {tr tr₁ tr₂ tr₃ : List (Transition ManagedState ManagedAction)}

/-- A transition posts a NAV, or leaves the quote alone. -/
theorem execManaged_quote (h : execManaged verify x.pre x.act = .ok x.post) :
    (postedNav x = none ∧ x.post.core.quote = x.pre.core.quote) ∨
      ∃ authority u remaining, x.act = .core (.updateVaultNav authority u remaining) ∧
        postedNav x = some u ∧
        updateVaultNav x.pre.core authority u remaining = .ok x.post.core := by
  rcases execManaged_core h with ⟨b, hact, hb, -⟩ | ⟨hact, hidle⟩
  · have hposted : postedNav x = b.postedNav := by simp [postedNav, hact]
    rw [hposted]
    cases b with
    | updateVaultNav authority u remaining =>
      exact .inr ⟨authority, u, remaining, hact, rfl, hb⟩
    | _ => exact .inl ⟨rfl, exec_quote hb rfl⟩
  · refine .inl ⟨?_, quote_of_settings hidle.settings ?_⟩
    · cases ha : x.act with
      | core b => exact absurd ha (hact b)
      | _ => simp [postedNav, ha]
    · simp only [VaultState.trancheNavs, hidle.sameTranches]

/-! ### Runs -/

/-- **The quote at the end of a run** is the one at its start, or the one its last NAV update
left. -/
theorem last_posted (hrun : ManagedRun verify t₀ tr t) :
    ((∀ y ∈ tr, postedNav y = none) ∧ t.core.quote = t₀.core.quote) ∨
      ∃ tr₁ p tr₂, tr = tr₁ ++ p :: tr₂ ∧ (postedNav p).isSome ∧
        (∀ y ∈ tr₂, postedNav y = none) ∧ t.core.quote = p.post.core.quote := by
  induction hrun with
  | nil => exact .inl ⟨by simp, rfl⟩
  | @snoc tr t t' a hr he ih =>
    rcases execManaged_quote (x := ⟨t, a, t'⟩) he with ⟨hnone, hquote⟩ | ⟨_, u, _, -, hposted, -⟩
    · have hquote : t'.core.quote = t.core.quote := hquote
      rcases ih with ⟨hall, hsame⟩ | ⟨tr₁, p, tr₂, rfl, hp, hlater, hsame⟩
      · refine .inl ⟨fun y hy => ?_, hquote.trans hsame⟩
        rcases List.mem_append.1 hy with hy | hy
        · exact hall y hy
        · rw [List.mem_singleton.1 hy]
          exact hnone
      · refine .inr ⟨tr₁, p, tr₂ ++ [⟨t, a, t'⟩], by rw [List.append_assoc, List.cons_append], hp,
          fun y hy => ?_, hquote.trans hsame⟩
        rcases List.mem_append.1 hy with hy | hy
        · exact hlater y hy
        · rw [List.mem_singleton.1 hy]
          exact hnone
    · exact .inr ⟨tr, ⟨t, a, t'⟩, [], rfl, by rw [hposted]; rfl, by simp, rfl⟩

/-- Between two updates in a row the quote is the one the first of them left. -/
theorem quote_between (hrun : ManagedRun verify t₀ (tr₁ ++ p :: tr₂ ++ x :: tr₃) t)
    (hnone : ∀ y ∈ tr₂, postedNav y = none) : x.pre.core.quote = p.post.core.quote := by
  obtain ⟨hrun, -, -⟩ := hrun.of_transition
  obtain ⟨-, -, hrun⟩ := hrun.of_transition
  rcases last_posted hrun with ⟨-, hquote⟩ | ⟨l₁, q, l₂, rfl, hq, -, -⟩
  · exact hquote
  · rw [hnone q (by simp)] at hq
    cases hq

end AsyncVault
