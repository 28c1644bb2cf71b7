/-
AsyncVault/Escrow.lean

The escrow ledger.

In every reachable state the vault's counters are the sums they stand for, the
pending vaults hold what is parked in them, and therefore no instruction that
pays a request out runs short: neither of tokens nor of a counter.
-/
import AsyncVault.Scenario

namespace AsyncVault

open Checked TokenLedger KeyedStore OrderBook

variable {s s₁ : VaultState} {k m : Pubkey} {r : Request} {remaining : List AccountInfo}

/-! ### What is parked for a request -/

/-- What paying the request `r` back needs is there. -/
structure Covered (s : VaultState) (r : Request) : Prop where
  counted : 0 < s.vault.pendingAsyncRequests
  reserved : r.requestType = .deposit → r.amount ≤ s.reserved r.assetMintAddress
  escrow : r.requestType = .deposit → ∀ a, s.terms.pendingVaultOf r.assetMintAddress = some a →
    r.amount ≤ s.token.balance a

/-- In a reachable state every pending request is covered. -/
theorem Ledgered.covered (hs : Ledgered s) (hr : s.requests.lookup k = some r)
    (hstate : r.requestState = .pending) : Covered s r := by
  have hstage : r.order.stage = .pending := by simp [Request.order, hstate, RequestState.stage]
  have hfound := VaultState.lookup_book hr
  have hreserved : r.requestType = .deposit → r.amount ≤ s.reserved r.assetMintAddress := fun ht =>
    (hs.escrowedAt r.assetMintAddress).le_reserved (o := r.order) hfound
      (by simp [Request.order, ht, RequestType.side]) hstage
  refine ⟨openCount_pos hs.openCount hfound hstage, hreserved, fun ht a ha => ?_⟩
  have hescrow := (hs.escrowedAt r.assetMintAddress).escrow
  rw [VaultState.escrow_of_some ha] at hescrow
  have := hreserved ht
  change s.reserved r.assetMintAddress + _ ≤ _ at hescrow
  omega

/-- In a reachable state what a claimable redemption is owed is in its escrow. -/
theorem Ledgered.owed (hs : Ledgered s) (hr : s.requests.lookup k = some r)
    (hstate : r.requestState = .claimable) (ht : r.requestType = .redeem) {a : Pubkey}
    (ha : s.terms.pendingVaultOf r.assetMintAddress = some a) : r.amount ≤ s.token.balance a := by
  rw [← VaultState.escrow_of_some ha]
  exact (hs.escrowedAt r.assetMintAddress).le_escrow (o := r.order) (VaultState.lookup_book hr)
    (by simp [Request.order, ht, RequestType.side])
    (by simp [Request.order, hstate, RequestState.stage])

/-- Queue counters are no part of what is parked. -/
theorem Covered.requeued (h : Covered s r) (hq : Requeued s s₁) : Covered s₁ r := by
  have hreserved : s₁.reserved = s.reserved := congrArg Book.reserved hq.book
  refine ⟨by rw [hq.vault]; exact h.counted, fun ht => ?_, fun ht a ha => ?_⟩
  · rw [hreserved]
    exact h.reserved ht
  · rw [hq.terms] at ha
    rw [hq.adjusted.token]
    exact h.escrow ht a ha

/-! ### Running short -/

/-- Failing for want of tokens, or because a counter would pass a bound. -/
def Shortfall (e : VaultError) : Prop :=
  e = .token .insufficientFunds ∨ e = arithmetic

variable {vaultAsset : Option Pubkey} {n : ℕ}

@[simp] theorem shortfall_async (e : AsyncVaultError) :
    Shortfall (.async e) ↔ e = .arithmeticError := by
  simp [Shortfall, arithmetic]

@[simp] theorem shortfall_token (e : TokenError) :
    Shortfall (.token e) ↔ e = .insufficientFunds := by
  simp [Shortfall, arithmetic]

@[simp] theorem shortfall_account (e : ConstraintError) : ¬Shortfall (.account e) := by
  simp [Shortfall, arithmetic]

@[simp] theorem ensure_avoids {e : AsyncVaultError} {c : Prop} [Decidable c] :
    Avoids Shortfall (ensure e c) ↔ (¬c → e ≠ .arithmeticError) := by
  simp [ensure]

@[simp] theorem required_avoids {α : Type} {o : Option α} : Avoids Shortfall (required o) := by
  simp [required]

@[simp] theorem tokenAccount_avoids {a o : Pubkey} : Avoids Shortfall (s.tokenAccount a m o) := by
  simp [VaultState.tokenAccount]

@[simp] theorem requestAccount_avoids : Avoids Shortfall (s.requestAccount k) := by
  simp [VaultState.requestAccount]

@[simp] theorem mintAccount_avoids : Avoids Shortfall (s.mintAccount m) := by
  simp [VaultState.mintAccount]

@[simp] theorem signer_avoids : Avoids Shortfall (s.signer k) := by
  simp [VaultState.signer]

@[simp] theorem secondaryAsset_avoids : Avoids Shortfall (s.secondaryAsset vaultAsset m) := by
  simp [VaultState.secondaryAsset, VaultAsset.assertMatches]

@[simp] theorem checkPendingVault_avoids {a : Pubkey} :
    Avoids Shortfall (checkPendingVault s m vaultAsset a) := by
  unfold checkPendingVault
  split <;> simp [VaultAsset.assertPendingVault]

@[simp] theorem assertUnpausedAndInitialized_avoids {v : Vault} :
    Avoids Shortfall v.assertUnpausedAndInitialized := by
  simp [Vault.assertUnpausedAndInitialized]

@[simp] theorem loadTrancheConfig_avoids {info : AccountInfo} :
    Avoids Shortfall (s.loadTrancheConfig info) := by
  simp [VaultState.loadTrancheConfig]

@[simp] theorem validateRequestShareMint_avoids :
    Avoids Shortfall (validateRequestShareMint s m remaining) := by
  unfold validateRequestShareMint
  split
  · simp
  · simp only [avoids_bind, avoids_okOr, ensure_avoids, loadTrancheConfig_avoids, avoids_pure]
    refine ⟨by simp, fun info _ => ⟨by simp, fun _ _ => ⟨by simp, fun _ _ => ⟨trivial, fun tc _ =>
      ⟨by simp, fun _ _ => ⟨?_, by simp⟩⟩⟩⟩⟩⟩
    split
    · simp
    · split
      · simp
      · simp [avoids_error]

@[simp] theorem checkRequestMints_avoids {assetMint shareMint : Pubkey} :
    Avoids Shortfall (checkRequestMints s assetMint shareMint r remaining) := by
  simp [checkRequestMints]

theorem advanceQueue_avoids {context : RequestShareMintContext} :
    Avoids Shortfall (advanceQueue s context m r remaining) := by
  have hadvance : ∀ (q : FifoQueue) t id, Avoids Shortfall (q.advance t id) := by
    intro q t id
    cases t <;> simp [FifoQueue.advance, RequestType.outOfOrderError]
  have hlane : ∀ (tc : TrancheConfig) t, Avoids Shortfall (tc.lane m t) := by
    intro tc t
    unfold TrancheConfig.lane
    split <;> [skip; split] <;> simp [avoids_error]
  unfold advanceQueue
  split
  · split
    · simp [writableTrancheConfig, TrancheConfig.checkAndAdvanceQueue, hlane, hadvance]
    · simp
  · simp only [VaultExtensions.checkAndAdvanceQueue]
    split <;> simp [hadvance]

/-- Releasing a reservation does not pass zero. -/
theorem subPendingDeposit_avoids (hn : s.Names m vaultAsset) (hle : n ≤ s.reserved m) :
    Avoids Shortfall (subPendingDeposit s m vaultAsset n) := by
  unfold subPendingDeposit
  rcases hn with hm | ⟨hm, rfl⟩
  · rw [if_pos (show s.vault.isPrimaryAsset m = true by simp [Vault.isPrimaryAsset, hm])]
    rw [reserved_primary hm] at hle
    simp [hle]
  · rw [if_neg (show ¬s.vault.isPrimaryAsset m = true by simp [Vault.isPrimaryAsset, hm])]
    simp only [avoids_bind, avoids_okOr, okOr_eq_ok, avoids_sub, avoids_pure, reduceCtorEq,
      false_implies, true_and, implies_true, and_true, Option.some.injEq]
    rintro _ rfl
    refine ⟨by simp, fun va hva => ?_⟩
    rw [reserved_secondary hm hva] at hle
    omega

/-- Paying a covered request back does not run short. -/
theorem refund_avoids (hv : s.terms.Valid s.token) {ctx : RefundAccounts} (hc : Covered s r)
    (hasset : r.assetMintAddress = ctx.assetMint) : Avoids Shortfall (refund s ctx r) := by
  have hdec : ∀ (s₁ : VaultState), s₁.vault.pendingAsyncRequests = s.vault.pendingAsyncRequests →
      Avoids Shortfall (decrementPendingRequests s₁) := by
    intro s₁ h₁
    have := hc.counted
    simp only [decrementPendingRequests, avoids_bind, avoids_sub, avoids_pure, implies_true,
      and_true]
    exact fun hlt => absurd hlt (by omega)
  unfold refund
  cases ht : r.requestType with
  | deposit =>
    simp only [avoids_bind, required_avoids, tokenAccount_avoids, checkPendingVault_avoids,
      avoids_cpi, shortfall_token, true_and]
    intro src _ _ _ u hcheck dst _ _ _ program _
    obtain ⟨hescrow, hnames⟩ := checkPendingVault_ok hv.coherent hcheck
    rw [← hasset] at hescrow hnames ⊢
    refine ⟨transferChecked_avoids (hc.escrow ht _ hescrow), fun token _ =>
      ⟨subPendingDeposit_avoids hnames (hc.reserved ht), fun s₁ h₁ => hdec _ ?_⟩⟩
    exact congrArg Book.openCount (subPendingDeposit_ok h₁ hnames).book
  | redeem =>
    simp only [avoids_bind, required_avoids, tokenAccount_avoids, avoids_cpi, shortfall_token,
      true_and]
    intro dst _ _ _ program _
    exact ⟨mintTo_avoids, fun token _ => hdec _ rfl⟩

theorem refundConstraints_avoids : Avoids Shortfall (validateQueueExtensionConstraints r) := by
  unfold validateQueueExtensionConstraints
  split <;> simp

/-- The instructions that pay a request out or back. -/
def RequestInstruction.Pays : RequestInstruction → Prop
  | .claim .. | .cancelRequest .. | .rejectRequest .. | .cancelQueuedDepositRequest ..
  | .cancelQueuedRedemptionRequest .. => True
  | _ => False

theorem claim_avoids (hs : Ledgered s) {ctx : Claim} :
    Avoids Shortfall (claim s ctx remaining) := by
  simp only [claim, avoids_bind, signer_avoids, mintAccount_avoids, requestAccount_avoids,
    ensure_avoids, assertUnpausedAndInitialized_avoids, validateRequestShareMint_avoids, true_and,
    VaultState.requestAccount_eq_ok, ensure_eq_ok, reduceCtorEq, ne_eq, not_false_eq_true,
    implies_true, forall_const]
  rintro - - - - - - r ⟨hr, -⟩ - - - - hstate hasset - - -
  cases ht : r.requestType with
  | deposit => simp [mintTo_avoids]
  | redeem =>
    simp only [avoids_bind, required_avoids, tokenAccount_avoids, checkPendingVault_avoids,
      avoids_cpi, shortfall_token, true_and, avoids_pure, implies_true, and_true]
    intro src _ _ _ u hcheck dst _ _ _
    obtain ⟨hescrow, -⟩ := checkPendingVault_ok hs.wellFormed.terms.coherent hcheck
    rw [← hasset] at hescrow
    exact transferChecked_avoids (hs.owed hr hstate ht hescrow)

theorem cancelRequest_avoids (hs : Ledgered s) {user : Pubkey} {ctx : RefundAccounts} :
    Avoids Shortfall (cancelRequest s user ctx remaining) := by
  simp only [cancelRequest, avoids_bind, signer_avoids, requestAccount_avoids, ensure_avoids,
    assertUnpausedAndInitialized_avoids, checkRequestMints_avoids, refundConstraints_avoids,
    avoids_pure, true_and, VaultState.requestAccount_eq_ok, ensure_eq_ok, reduceCtorEq, ne_eq,
    not_false_eq_true, implies_true, and_true, forall_const]
  rintro - - r ⟨hr, -⟩ - - - hstate context hmints - -
  exact refund_avoids hs.wellFormed.terms (hs.covered hr hstate) (checkRequestMints_ok hmints).1

theorem rejectRequest_avoids (hs : Ledgered s) {authority user : Pubkey} {ctx : RefundAccounts}
    {args : ApproveRequestArgs} :
    Avoids Shortfall (rejectRequest s authority user ctx args remaining) := by
  simp only [rejectRequest, Vault.assertCuratorOrFulfiller, avoids_bind, signer_avoids,
    requestAccount_avoids, ensure_avoids, checkRequestMints_avoids, advanceQueue_avoids,
    avoids_pure, true_and, VaultState.requestAccount_eq_ok, ensure_eq_ok, reduceCtorEq, ne_eq,
    not_false_eq_true, implies_true, and_true, forall_const]
  rintro - - r ⟨hr, -⟩ - - hstate - context hmints s₁ h₁
  have hq := advanceQueue_ok h₁
  exact refund_avoids (hs.wellFormed.terms.of_terms hq.adjusted.terms
    (hq.adjusted.token ▸ .refl _ _)) ((hs.covered hr hstate).requeued hq)
      (checkRequestMints_ok hmints).1

theorem cancelQueuedDepositRequest_avoids (hs : Ledgered s) {ctx : CancelQueuedDepositRequest} :
    Avoids Shortfall (cancelQueuedDepositRequest s ctx remaining) := by
  simp only [cancelQueuedDepositRequest, avoids_bind, signer_avoids, requestAccount_avoids,
    ensure_avoids, assertUnpausedAndInitialized_avoids, checkRequestMints_avoids, avoids_pure,
    true_and, VaultState.requestAccount_eq_ok, ensure_eq_ok, reduceCtorEq, ne_eq,
    not_false_eq_true, implies_true, and_true, forall_const]
  rintro - - r ⟨hr, -⟩ - - - - hstate - context hmints
  exact refund_avoids hs.wellFormed.terms (hs.covered hr hstate) (checkRequestMints_ok hmints).1

theorem cancelQueuedRedemptionRequest_avoids (hs : Ledgered s)
    {ctx : CancelQueuedRedemptionRequest} :
    Avoids Shortfall (cancelQueuedRedemptionRequest s ctx remaining) := by
  simp only [cancelQueuedRedemptionRequest, avoids_bind, signer_avoids, requestAccount_avoids,
    ensure_avoids, assertUnpausedAndInitialized_avoids, checkRequestMints_avoids, avoids_pure,
    true_and, VaultState.requestAccount_eq_ok, ensure_eq_ok, reduceCtorEq, ne_eq,
    not_false_eq_true, implies_true, and_true, forall_const]
  rintro - - - r ⟨hr, -⟩ - - - - hstate - context hmints
  exact refund_avoids hs.wellFormed.terms (hs.covered hr hstate) (checkRequestMints_ok hmints).1

/-- In a reachable state no paying instruction runs short. -/
theorem Ledgered.avoids (hs : Ledgered s) {i : RequestInstruction} (hi : i.Pays) :
    Avoids Shortfall (execRequest s i remaining) := by
  cases i <;> try exact hi.elim
  case claim ctx => exact claim_avoids hs
  case cancelRequest user ctx => exact cancelRequest_avoids hs
  case rejectRequest authority user ctx args => exact rejectRequest_avoids hs
  case cancelQueuedDepositRequest ctx => exact cancelQueuedDepositRequest_avoids hs
  case cancelQueuedRedemptionRequest ctx => exact cancelQueuedRedemptionRequest_avoids hs

/-! ### The ledger -/

/-- **The escrow ledger.** In every reachable state the counters are the sums over
the requests, the pending vaults hold what is reserved and owed, and no claim,
cancel or reject runs short. -/
theorem escrow_ledger (hs : s.IsReachable) :
    s.vault.pendingDepositAmount = s.pendingDeposits s.vault.assetMint ∧
    (∀ m va, s.vaultAssets m = some va →
      va.assetMint = m ∧ va.pendingDepositAmount = s.pendingDeposits m) ∧
    s.vault.pendingAsyncRequests = s.pendingRequests ∧
    s.vault.pendingDepositAmount + s.claimableRedeems s.vault.assetMint ≤
      s.token.balance s.vault.pendingVault ∧
    (∀ m va, s.vaultAssets m = some va →
      va.pendingDepositAmount + s.claimableRedeems m ≤ s.token.balance va.pendingVault) ∧
    ∀ i remaining, RequestInstruction.Pays i →
      execRequest s i remaining ≠ .error (.token .insufficientFunds) ∧
      execRequest s i remaining ≠ .error arithmetic := by
  have hl := hs.ledgered
  have hv := hl.wellFormed.terms
  have hprimary := hl.escrowedAt s.vault.assetMint
  -- an asset is registered under its own mint, so the book finds its counter and escrow
  have hsecondary : ∀ m va, s.vaultAssets m = some va → va.assetMint = m ∧
      s.book.reserved m = va.pendingDepositAmount ∧
      s.book.escrow m = s.token.balance va.pendingVault := by
    intro m va hva
    have hasset := hv.assets m va.terms (by simp [VaultState.terms, hva])
    have hne : s.vault.assetMint ≠ m := hasset.ne_primary
    refine ⟨hasset.assetMint, reserved_secondary hne hva, VaultState.escrow_of_some ?_⟩
    simp [Terms.pendingVaultOf, VaultState.terms, hne, hva, VaultAsset.terms]
  have hres : s.book.reserved s.vault.assetMint = s.vault.pendingDepositAmount :=
    reserved_primary rfl
  have hesc : s.book.escrow s.vault.assetMint = s.token.balance s.vault.pendingVault :=
    VaultState.escrow_of_some s.terms.pendingVaultOf_primary
  refine ⟨?_, fun m va hva => ?_, ?_, ?_, fun m va hva => ?_, fun i remaining hi => ⟨?_, ?_⟩⟩
  · rw [← hres, hprimary.reserved, VaultState.book_pendingDeposits]
  · obtain ⟨hm, hr, -⟩ := hsecondary m va hva
    exact ⟨hm, by rw [← hr, (hl.escrowedAt m).reserved, VaultState.book_pendingDeposits]⟩
  · rw [← VaultState.book_openOrders, ← hl.openCount]
    rfl
  · rw [← hres, ← hesc, ← VaultState.book_claimableRedeems]
    exact hprimary.escrow
  · obtain ⟨-, hr, he⟩ := hsecondary m va hva
    rw [← hr, ← he, ← VaultState.book_claimableRedeems]
    exact (hl.escrowedAt m).escrow
  -- tokens and counters both cover the request, so that no payment runs short
  · exact fun he => hl.avoids hi _ he (.inl rfl)
  · exact fun he => hl.avoids hi _ he (.inr rfl)

open Scenario in
/-- **Non-vacuity.** With a redemption of 500 shares approved at 10 and a deposit of
777 pending, the pending vault holds both. -/
theorem escrow_ledger_parked :
    ∃ s : VaultState, s.IsReachable ∧ s.vault.pendingDepositAmount = 777 ∧
      s.claimableRedeems s.vault.assetMint = 5000 ∧
      s.pendingDeposits s.vault.assetMint = 777 ∧
      777 + 5000 ≤ s.token.balance s.vault.pendingVault := by
  obtain ⟨-, s, hs, hp⟩ := exists_reachable 0 0
    [anyNav, start, post 10, deposit 100 senior 10000, approve 100 senior .deposit 10000 1,
      collect 100 senior, redeem 101 senior 500, approve 101 senior .redeem 500 1,
      deposit 102 senior 777]
    (fun _ s => s.vault.pendingDepositAmount = 777 ∧
      s.claimableRedeems s.vault.assetMint = 5000) (by decide +kernel)
  obtain ⟨hpending, howed⟩ := of_decide_eq_true hp
  obtain ⟨hsum, -, -, hcover, -, -⟩ := escrow_ledger hs
  exact ⟨s, hs, hpending, howed, hsum.symm.trans hpending, by rwa [hpending, howed] at hcover⟩

end AsyncVault
