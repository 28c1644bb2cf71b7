/-
AsyncVault/DepositCap.lean

The deposit cap over runs.

What counts against the cap is what the vault holds and what pending deposits of
the primary asset have reserved (`committed`).  A step that increases it has
checked it against the cap; approvals and refunds only move or release what is
reserved.  So under a cap that is not lowered the sum stays within it.

An approval compares the cap with the assets alone.  That comparison never fails
while the sum is within the cap, because every pending deposit is part of what
is reserved (`Reserved`); and no other check of an approval raises its error.
-/
import AsyncVault.ManagedSteps
import AsyncVault.ManagedScenario

namespace AsyncVault

open Checked TokenLedger KeyedStore Machine

variable {s s' : VaultState} {d d' : Docket} {m : Pubkey} {r : Request}
variable {context : RequestShareMintContext} {remaining : List AccountInfo}
variable {s₀ sₙ : ManagedState} {verify : MerkleCheck}
variable {tr : List (Transition ManagedState ManagedAction)}

/-! ### What counts against the cap -/

namespace Docket

/-- The assets of the vault and what is reserved for more. -/
def committed (d : Docket) : ℕ := d.totalAssetBalance + d.pendingDepositAmount

/-- The counter of reservations is their sum. -/
def Reserved (d : Docket) : Prop := d.pendingDepositAmount = total d.reserves d.requests

theorem Reserved.le (h : d.Reserved) {k : Pubkey} (hr : d.requests.lookup k = some r) :
    d.reserves r ≤ d.pendingDepositAmount :=
  (le_total hr).trans_eq h.symm

end Docket

/-- A move increases the sum only up to the cap. -/
theorem DocketMove.committed {i : RequestInstruction} (h : DocketMove d i d') :
    d'.committed ≤ d.committed ∨ d.depositCap = 0 ∨ d'.committed ≤ d.depositCap := by
  unfold Docket.committed
  cases h with
  | @opened _ k r lane _ _ _ _ capped =>
    simp only
    -- a request that reserves something was checked against the cap
    rcases Nat.eq_zero_or_pos (d.reserves r) with h0 | hpos
    · exact .inl (by omega)
    · rcases capped hpos with h0 | hle
      · exact .inr (.inl h0)
      · exact .inr (.inr (by omega))
  -- what a settlement adds to the total it had reserved; the rest can only release
  | settled _ _ _ _ reserved balance =>
    left
    simp only
    omega
  | rejected _ _ _ reserved =>
    left
    simp only
    omega
  | canceled _ _ _ reserved =>
    left
    simp only
    omega
  | parked _ _ _ _ reserved =>
    left
    simp only
    omega
  | skipped => exact .inl le_rfl
  | claimed => exact .inl le_rfl
  | operated => exact .inl le_rfl

/-- **Every step** increases the sum only up to the cap. -/
theorem DocketStep.committed (h : DocketStep d d') :
    d'.committed ≤ d.committed ∨ d.depositCap = 0 ∨ d'.committed ≤ d.depositCap := by
  cases h with
  | moved move => exact move.committed
  | deposited net_le capped =>
    unfold Docket.committed
    rcases capped with h0 | hle
    · exact .inr (.inl h0)
    · exact .inr (.inr (by simp only; omega))
  | redeemed =>
    unfold Docket.committed
    exact .inl (by simp only; omega)
  | configured => exact .inl le_rfl

/-! ### Reservations -/

/-- A request in another state than pending reserves nothing. -/
theorem Docket.reserves_processed (h : r.requestState ≠ .pending) : d.reserves r = 0 := by
  rw [Docket.reserves, if_neg fun hp => h hp.2.1]

theorem DocketMove.reserved {i : RequestInstruction} (hd : d.Reserved) (h : DocketMove d i d') :
    d'.Reserved := by
  unfold Docket.Reserved at hd ⊢
  -- only requests and the counter change, so requests weigh what they did
  cases h with
  | @opened _ k r lane _ fresh =>
    show _ = total d.reserves (d.requests.insert k r)
    rw [total_insert_of_none fresh, ← hd]
  | @settled ctx args r lane amount price _ found pending =>
    show _ = total d.reserves (d.requests.insert ctx.request _)
    have hnone : d.reserves { r with amount := amount, price := price, requestState := .claimable }
        = 0 := Docket.reserves_processed (by simp)
    have := total_insert_of_some (w := d.reserves)
      (u := { r with amount := amount, price := price, requestState := .claimable }) found
    simp only
    omega
  | @rejected _ _ ctx _ r lane found =>
    show _ = total d.reserves (d.requests.erase ctx.request)
    have := total_erase_of_some (w := d.reserves) found
    simp only
    omega
  | @canceled _ ctx r found =>
    show _ = total d.reserves (d.requests.erase ctx.request)
    have := total_erase_of_some (w := d.reserves) found
    simp only
    omega
  | @parked _ k r _ found =>
    show _ = total d.reserves (d.requests.insert k _)
    have hnone : d.reserves { r with requestState := .canceled } = 0 :=
      Docket.reserves_processed (by simp)
    have := total_insert_of_some (w := d.reserves) (u := { r with requestState := .canceled }) found
    simp only
    omega
  | @skipped k _ r lane found canceled =>
    show d.pendingDepositAmount = total d.reserves (d.requests.erase k)
    have hnone : d.reserves r = 0 := Docket.reserves_processed (by simp [canceled])
    have := total_erase_of_some (w := d.reserves) found
    omega
  | @claimed ctx r found claimable =>
    show d.pendingDepositAmount = total d.reserves (d.requests.erase ctx.request)
    have hnone : d.reserves r = 0 := Docket.reserves_processed (by simp [claimable])
    have := total_erase_of_some (w := d.reserves) found
    omega
  | @operated _ operator k r found =>
    show d.pendingDepositAmount = total d.reserves (d.requests.insert k _)
    have hsame : d.reserves { r with operator := some operator } = d.reserves r := rfl
    have := total_insert_of_some (w := d.reserves) (u := { r with operator := some operator }) found
    omega

theorem DocketStep.reserved (hd : d.Reserved) (h : DocketStep d d') : d'.Reserved := by
  cases h with
  | moved move => exact move.reserved hd
  | _ => exact hd

/-- **Reservations** of every reachable vault are counted. -/
theorem ManagedState.IsReachable.reserved (h : sₙ.IsReachable verify) :
    sₙ.core.docket.Reserved := by
  refine Reachable.invariant (I := fun s => s.core.docket.Reserved) ?_ ?_ h
  · rintro s ⟨⟨w, ctx, args, hs⟩, -, -, -, -⟩
    obtain ⟨-, hvault, -, -, hrequests⟩ := createVault_state hs
    simp [Docket.Reserved, VaultState.docket, hvault, hrequests, initialVault]
  · intro s a s' hd he
    exact (execManaged_docket he).reserved hd

/-! ### The error of the cap -/

/-- Failing because the deposit cap is exceeded. -/
def CapExceeded (e : VaultError) : Prop := e = .async .depositCapExceeded

@[simp] theorem capExceeded_async (e : AsyncVaultError) :
    CapExceeded (.async e) ↔ e = .depositCapExceeded := by
  simp [CapExceeded]

@[simp] theorem capExceeded_token (e : TokenError) : ¬CapExceeded (.token e) := by
  simp [CapExceeded]

@[simp] theorem capExceeded_account (e : ConstraintError) : ¬CapExceeded (.account e) := by
  simp [CapExceeded]

@[simp] theorem ensure_uncapped {e : AsyncVaultError} {c : Prop} [Decidable c] :
    Avoids CapExceeded (ensure e c) ↔ (¬c → e ≠ .depositCapExceeded) := by
  simp [ensure]

@[simp] theorem cpi_uncapped {α : Type} {x : Except TokenError α} :
    Avoids CapExceeded (cpi x) := by
  simp

@[simp] theorem loadTrancheConfig_uncapped {info : AccountInfo} :
    Avoids CapExceeded (s.loadTrancheConfig info) := by
  simp [VaultState.loadTrancheConfig]

@[simp] theorem writableTrancheConfig_uncapped {info : Option AccountInfo} :
    Avoids CapExceeded (writableTrancheConfig s info) := by
  simp [writableTrancheConfig]

theorem approvalChecks_uncapped {ctx : ApproveRequest} {args : ApproveRequestArgs} :
    Avoids CapExceeded (approvalChecks s ctx args remaining) := by
  have hcontext : Avoids CapExceeded (validateRequestShareMint s ctx.shareMint remaining) := by
    unfold validateRequestShareMint
    split <;> simp [avoids_ite, avoids_error]
  have haccounts : Avoids CapExceeded (checkSettlementAccounts s ctx) := by
    simp [checkSettlementAccounts, avoids_ite, VaultState.secondaryAsset, VaultAsset.assertMatches,
      VaultAsset.assertReserve, VaultAsset.assertPendingVault, avoids_error]
  simp [approvalChecks, hcontext, haccounts, VaultState.signer, VaultState.mintAccount,
    VaultState.requestAccount, VaultState.tokenAccount, VaultState.tokenProgram,
    Vault.assertUnpausedAndInitialized, Vault.assertCuratorOrFulfiller, validateAssetMintExtensions]

theorem advanceQueue_uncapped :
    Avoids CapExceeded (advanceQueue s context m r remaining) := by
  have hadvance : ∀ (q : FifoQueue) t id, Avoids CapExceeded (q.advance t id) := by
    intro q t id
    cases t <;> simp [FifoQueue.advance, RequestType.outOfOrderError]
  have hlane : ∀ (tc : TrancheConfig) t, Avoids CapExceeded (tc.lane m t) := by
    intro tc t
    simp [TrancheConfig.lane, avoids_ite, avoids_error]
  have hext : ∀ ext : VaultExtensions,
      Avoids CapExceeded (ext.checkAndAdvanceQueue r.requestType r) := by
    intro ext
    unfold VaultExtensions.checkAndAdvanceQueue
    split <;> simp [hadvance]
  simp [advanceQueue, avoids_ite, TrancheConfig.checkAndAdvanceQueue, hlane, hadvance, hext]

theorem postApprovalSupply_uncapped {cached live delta : ℕ} {t : RequestType} :
    Avoids CapExceeded (postApprovalSupply cached live t delta) := by
  cases t <;> simp [postApprovalSupply]

theorem maybeEnforceJuniorRatioFloor_uncapped {t : RequestType} {delta : ℕ}
    {info : Option TrancheRequestInfo} :
    Avoids CapExceeded (maybeEnforceJuniorRatioFloor s m t delta info remaining) := by
  unfold maybeEnforceJuniorRatioFloor
  cases info with
  | none => simp
  | some info =>
    simp [avoids_ite, postApprovalSupply_uncapped, VaultState.tokenMintInfo, assetsFromSupply,
      assetsFromNav]

theorem updateTrancheSupplyCache_uncapped {t : RequestType} {delta live : ℕ}
    {info : Option TrancheRequestInfo} {account : Option AccountInfo} :
    Avoids CapExceeded (updateTrancheSupplyCache s m t delta live info account) := by
  unfold updateTrancheSupplyCache
  cases info with
  | none => simp
  | some info => simp [avoids_ite, postApprovalSupply_uncapped]

theorem fee_uncapped {f : Option FeeType} {amount : ℕ} :
    Avoids CapExceeded (extensionFee f amount) := by
  unfold extensionFee FeeType.getFee
  split
  · split <;> simp
  · simp

theorem paySettlementFee_uncapped {program : TokenProgram} {src mint : Pubkey} {fee : ℕ} :
    Avoids CapExceeded (paySettlementFee s program src mint fee remaining) := by
  -- none of the parts of a payment has the error of the cap
  have howner : ∀ (info : AccountInfo) owner,
      Avoids CapExceeded (s.validateTokenAccountOwner info owner) := by
    intro info owner
    unfold VaultState.validateTokenAccountOwner
    simp only
    split <;> simp [avoids_error]
  have hresolve : ∀ info, Avoids CapExceeded (s.resolveProtocolFeeRecipient info) := by
    intro info
    unfold VaultState.resolveProtocolFeeRecipient
    split <;> simp [avoids_ite]
  have hpay : ∀ token account n,
      Avoids CapExceeded (payFee token program src mint account s.key n) := by
    intro token account n
    cases account <;> simp [payFee, VaultState.transferToInfo]
  have hprotocol : ∀ n rest, Avoids CapExceeded (protocolFeeAccount s n rest) := by
    intro n rest
    simp [protocolFeeAccount, avoids_ite, howner, hresolve]
  have hrecipient : ∀ n, Avoids CapExceeded (feeRecipientAccount s n remaining) := by
    intro n
    simp [feeRecipientAccount, avoids_ite, howner]
  simp [paySettlementFee, splitProtocolFee, avoids_ite, FeeType.getFee, hpay, hprotocol,
    hrecipient]

theorem settleDeposit_uncapped {ctx : ApproveRequest} {nav : ℕ} {mint : Mint Pubkey} :
    Avoids CapExceeded (settleDeposit s ctx context r nav mint remaining) := by
  simp [settleDeposit, getDepositFeeAndNet, getDepositFee, fee_uncapped, calculateShares,
    maybeEnforceJuniorRatioFloor_uncapped, updateTrancheSupplyCache_uncapped,
    paySettlementFee_uncapped]

theorem settleRedeem_uncapped {ctx : ApproveRequest} {nav : ℕ} {mint : Mint Pubkey} :
    Avoids CapExceeded (settleRedeem s ctx context r nav mint remaining) := by
  simp [settleRedeem, getWithdrawalFeeAndNet, getWithdrawalFee, fee_uncapped, calculateAssets,
    maybeEnforceJuniorRatioFloor_uncapped, updateTrancheSupplyCache_uncapped,
    paySettlementFee_uncapped, Vault.consumeRedemptionRollingLimit, Vault.consumeRollingLimit,
    avoids_ite]

/-- The assets credited stay within the cap when the sum is within it. -/
theorem creditDeposit_uncapped {v : Vault} {delta amount : ℕ}
    (hle : v.totalAssetBalance + delta ≤ v.depositCap) :
    Avoids CapExceeded (creditDeposit v delta amount) := by
  unfold creditDeposit
  split <;> simp [hle]

/-- An approval within the cap does not fail for the cap. -/
theorem approveRequest_uncapped (hreserved : s.docket.Reserved)
    (hcap : s.docket.committed ≤ s.vault.depositCap) (ctx : ApproveRequest)
    (args : ApproveRequestArgs) :
    Avoids CapExceeded (approveRequest s ctx args remaining) := by
  simp only [approveRequest, avoids_bind, approvalChecks_uncapped, ensure_uncapped,
    advanceQueue_uncapped, true_and]
  rintro ⟨r, share, context⟩ hchecks
  obtain ⟨hr, hp, ha, hm, htranched⟩ := (approvalChecks_iff.1 hchecks).docket
  refine ⟨by simp, fun _ _ => ⟨?_, fun _ _ => ⟨?_, fun _ _ s₁ hadvance => ?_⟩⟩⟩
  · simp [Vault.assertFreshNavForRequest, avoids_ite]
  · simp [Vault.assertNavNotStale, avoids_ite]
  simp only at hadvance ⊢
  rw [← hm] at hadvance
  obtain ⟨lane, -, hadvance⟩ := advanceQueue_worked htranched hadvance
  cases ht : r.requestType with
  | deposit =>
    refine ⟨settleDeposit_uncapped, fun settled hsettled =>
      ⟨?_, fun v _ => by simp [decrementPendingRequests]⟩⟩
    obtain ⟨hwork, hdelta⟩ := settleDeposit_worked hsettled
    have hdocket := (hadvance.keep hwork).docket
    -- the deposit is part of what is reserved
    have hle := hreserved.le hr
    rw [Docket.reserves_primary ht hp ha] at hle
    have hvaultCap : settled.state.vault.depositCap = s.vault.depositCap :=
      congrArg Docket.depositCap hdocket
    have htotal : settled.state.vault.totalAssetBalance = s.vault.totalAssetBalance :=
      congrArg Docket.totalAssetBalance hdocket
    refine creditDeposit_uncapped ?_
    rw [hvaultCap, htotal]
    exact (Nat.add_le_add_left (hdelta.trans hle) _).trans hcap
  | redeem =>
    refine ⟨settleRedeem_uncapped, fun settled _ =>
      ⟨?_, fun v _ => by simp [decrementPendingRequests]⟩⟩
    simp [debitRedeem]

/-! ### Over runs -/

/-- **The deposit cap over runs** from any reachable state.  While the cap is not lowered
the sum stays within it and no approval fails for it; under a cap that has been lowered below
the sum, no step increases the sum. -/
theorem committed_of_run (h₀ : s₀.IsReachable verify) (hrun : ManagedRun verify s₀ tr sₙ) :
    (0 < s₀.core.vault.depositCap → s₀.core.docket.committed ≤ s₀.core.vault.depositCap →
      (∀ t ∈ tr, t.pre.core.vault.depositCap ≤ t.post.core.vault.depositCap) →
      sₙ.core.docket.committed ≤ sₙ.core.vault.depositCap ∧
        ∀ ctx args remaining,
          approveRequest sₙ.core ctx args remaining ≠ .error (.async .depositCapExceeded)) ∧
    ∀ t ∈ tr, 0 < t.pre.core.vault.depositCap →
      t.pre.core.vault.depositCap < t.pre.core.docket.committed →
      t.post.core.docket.committed ≤ t.pre.core.docket.committed := by
  constructor
  · intro hpos hle hraised
    -- the bound is an invariant of the steps that do not lower the cap
    have hinv : 0 < sₙ.core.vault.depositCap ∧
        sₙ.core.docket.committed ≤ sₙ.core.vault.depositCap := by
      refine hrun.invariant_of_forall
        (I := fun s => 0 < s.core.vault.depositCap ∧
          s.core.docket.committed ≤ s.core.vault.depositCap)
        (Q := fun t => t.pre.core.vault.depositCap ≤ t.post.core.vault.depositCap)
        ?_ hraised ⟨hpos, hle⟩
      rintro s a s' ⟨hpos, hle⟩ hraised he
      simp only at hraised
      refine ⟨hpos.trans_le hraised, ?_⟩
      rcases (execManaged_docket he).committed with h | h | h
      · exact (h.trans hle).trans hraised
      · exact absurd h hpos.ne'
      · exact le_trans h hraised
    refine ⟨hinv.2, fun ctx args remaining happrove => ?_⟩
    have hreserved := ManagedState.IsReachable.reserved (Reachable.trans_run h₀ hrun)
    exact approveRequest_uncapped hreserved hinv.2 ctx args _ happrove rfl
  · intro t ht hpos hlt
    -- and under a lowered cap a step cannot increase what is above it
    rcases (execManaged_docket (hrun.exec_of_mem ht)).committed with h | h | h
    · exact h
    · exact absurd h hpos.ne'
    · exact le_trans h hlt.le

open Scenario in
/-- **Non-vacuity.** A cap of 100 is filled by two deposits, one of which is approved. -/
theorem committed_of_run_filled :
    ∃ s tr sₙ, ManagedState.IsReachable noCalls s ∧ ManagedRun noCalls s tr sₙ ∧
      0 < s.core.vault.depositCap ∧ sₙ.core.docket.committed = sₙ.core.vault.depositCap ∧
      (sₙ.core.requests.lookup (address 101)).any (fun r => r.requestState = .pending) ∧
      ∀ ctx args remaining,
        approveRequest sₙ.core ctx args remaining ≠ .error (.async .depositCapExceeded) := by
  obtain ⟨s, tr, sₙ, hs, hrun, -, hp⟩ := exists_managed_run_from
    ([anyNav, start, post 10, capDeposits 100].map .core)
    ([deposit 100 senior 60, approve 100 senior .deposit 60 1, deposit 101 senior 40].map .core)
    (fun s tr sₙ => 0 < s.core.vault.depositCap ∧
      s.core.docket.committed ≤ s.core.vault.depositCap ∧
      (∀ t ∈ tr, t.pre.core.vault.depositCap ≤ t.post.core.vault.depositCap) ∧
      sₙ.core.docket.committed = sₙ.core.vault.depositCap ∧
      (sₙ.core.requests.lookup (address 101)).any (fun r => r.requestState = .pending))
    (by decide +kernel)
  obtain ⟨hpos, hle, hraised, hfilled, hpending⟩ := of_decide_eq_true hp
  exact ⟨s, tr, sₙ, hs, hrun, hpos, hfilled, hpending,
    ((committed_of_run hs hrun).1 hpos hle hraised).2⟩

end AsyncVault
