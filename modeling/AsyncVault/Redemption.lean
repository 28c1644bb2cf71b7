/-
AsyncVault/Redemption.lean

When a funded redemption can be approved.

A redemption whose value lies in the reserve, on a vault without tranches, fees
and limits, has nothing left to stop its approval but what `CanSettle` says: the
token program must let the value through, the valuation must fit its 128-bit
intermediates, and the vault's recorded assets must cover it.  The last one is
not implied by the reserve: after a NAV gain the recorded assets, which move with
settlements only, are less than the shares are worth.

Managed calls may have done anything to the vault's accounts before, so that the
vault still has them is among the conditions.
-/
import AsyncVault.ManagedScenario
import AsyncVault.Tallies

namespace AsyncVault

open Checked TokenLedger KeyedStore OrderBook Machine FixedPoint

variable {s s' : VaultState} {ctx : ApproveRequest} {args : ApproveRequestArgs} {r : Request}
variable {share : Mint Pubkey} {remaining : List AccountInfo} {verify : MerkleCheck}
variable {t : ManagedState}

/-- The value of a request's shares at the vault's NAV. -/
def VaultState.gross (s : VaultState) (r : Request) : ℕ :=
  r.amount * s.vault.nav / s.token.unit s.vault.shareMint

/-- A pending redemption of the primary asset, next in line, whose value is in the
reserve, on a vault without tranches, withdrawal fee or redemption limit; and the
fulfiller's call that approves it. -/
@[mk_iff]
structure FundedRedemption (s : VaultState) (ctx : ApproveRequest) (args : ApproveRequestArgs)
    (r : Request) : Prop where
  initialized : s.vault.initialized = true
  unpaused : s.vault.paused = false
  plain : s.vault.trancheConfig = none
  found : s.requests.lookup ctx.request = some r
  type : r.requestType = .redeem
  pending : r.requestState = .pending
  primary : r.assetMintAddress = s.vault.assetMint
  fresh : s.vault.requireFreshNav = true → r.navUpdateVersion < s.vault.navVersion
  notStale : s.vault.maxNavStalenessSlots = 0 ∨ s.vault.lastNavUpdateSlot ≤ s.clock.slot ∧
    s.clock.slot - s.vault.lastNavUpdateSlot ≤ s.vault.maxNavStalenessSlots
  head : ∀ q ∈ s.extensions.redemptionQueue, r.redemptionQueueId = some q.expected
  positive : 1 ≤ s.gross r
  bounded : s.gross r < u64
  funded : s.gross r ≤ s.token.balance s.vault.vaultTokenAccount
  noFee : s.extensions.withdrawalFee = none
  noLimit : s.vault.redemptionRollingLimit = 0
  fulfiller : ctx.authority = s.vault.fulfiller
  signer : ctx.authority ≠ s.key
  matching : args.Matches r
  assetMint : ctx.assetMint = s.vault.assetMint
  shareMint : ctx.shareMint = s.vault.shareMint
  vaultTokenAccount : ctx.vaultTokenAccount = s.vault.vaultTokenAccount
  pendingVault : ctx.pendingVault = s.vault.pendingVault
  assetProgram : ∀ y ∈ s.token.mints s.vault.assetMint, y.program = ctx.assetTokenProgram

instance : Decidable (FundedRedemption s ctx args r) :=
  decidable_of_iff' _ (fundedRedemption_iff ..)

/-- What the approval of a funded redemption still depends on: the recorded assets cover it, it
can be valued, and the token program moves its value from the reserve to the escrow. -/
structure VaultState.CanSettle (s : VaultState) (r : Request) : Prop where
  recorded : s.gross r ≤ s.vault.totalAssetBalance
  product : r.amount * s.vault.nav < u128
  share : ∃ y, s.token.mints s.vault.shareMint = some y ∧ 10 ^ y.decimals < u128
  asset : ∃ y, s.token.mints s.vault.assetMint = some y ∧ y.epochFeeBps = 0
  transferable : s.token.Transferable s.vault.assetMint
  reserve : s.token.Holds s.vault.vaultTokenAccount s.vault.assetMint s.key
  pendingVault : s.token.Holds s.vault.pendingVault s.vault.assetMint s.key
  reserveThawed : s.token.Thawed s.vault.vaultTokenAccount
  pendingReceptive : s.token.Receptive s.vault.pendingVault

/-! ### The checks -/

/-- Without tranches an approval needs no tranche account. -/
theorem FundedRedemption.context_eq (hf : FundedRedemption s ctx args r) :
    validateRequestShareMint s ctx.shareMint remaining = .ok ⟨0, none, none⟩ := by
  unfold validateRequestShareMint
  simp only [hf.plain, bind_eq_ok, ensure_eq_ok, pure_eq_ok]
  exact ⟨(), hf.shareMint, trivial⟩

/-- The checks pass where the accounts are the vault's and the mint takes no fee. -/
theorem FundedRedemption.accepted (ht : Tallied s) (hf : FundedRedemption s ctx args r)
    (h : s.CanSettle r) (hshare : s.token.mints s.vault.shareMint = some share) :
    ctx.Accepted s args remaining r share ⟨0, none, none⟩ where
  signer := hf.signer
  assetMint := by
    obtain ⟨y, hy, hfee⟩ := h.asset
    exact ⟨y, by rw [hf.assetMint, hy], hf.assetProgram y hy, hfee⟩
  shareMint := by rw [hf.shareMint, hshare]
  found := hf.found
  vault := (ht.requests _ r hf.found).vault
  reserve := by
    rw [hf.vaultTokenAccount, hf.assetMint]
    exact h.reserve
  pendingVault := by
    rw [hf.pendingVault, hf.assetMint]
    exact h.pendingVault
  running := ⟨hf.initialized, hf.unpaused⟩
  authorized := .inr hf.fulfiller
  pending := hf.pending
  matching := hf.matching
  asset := by rw [hf.primary, hf.assetMint]
  share := by
    rw [hf.shareMint]
    exact VaultState.share_of_plain (ht.requests _ r hf.found).shareMint
      (by simp [VaultState.book, trancheConfig_of_plain ht.coherent hf.plain])
  context := hf.context_eq
  accounts := by
    unfold checkSettlementAccounts
    rw [if_pos (by simp [Vault.isPrimaryAsset, hf.assetMint])]
    simp [hf.vaultTokenAccount, hf.pendingVault]

variable (remaining) in
/-- A request at the head of its queue advances it; nothing but queue counters
changes. -/
theorem FundedRedemption.advance (hf : FundedRedemption s ctx args r) :
    ∃ ext, ext.withdrawalFee = none ∧
      advanceQueue s ⟨0, none, none⟩ ctx.shareMint r remaining =
        .ok { s with extensions := ext } := by
  unfold advanceQueue
  simp only [Option.isSome_none, Bool.false_eq_true, if_false, hf.type, bind_eq_ok, pure_eq_ok]
  cases hq : s.extensions.redemptionQueue with
  | none =>
    refine ⟨s.extensions, hf.noFee, s.extensions, ?_, rfl⟩
    simp [VaultExtensions.checkAndAdvanceQueue, VaultExtensions.queue, hq]
  | some q =>
    have hid := hf.head q hq
    refine ⟨s.extensions.setQueue .redeem { q with lastProcessed := q.expected }, hf.noFee, _, ?_,
      rfl⟩
    simp only [VaultExtensions.checkAndAdvanceQueue, VaultExtensions.queue, hq, Request.queueId,
      hid, FifoQueue.advance, bind_eq_ok, okOr_eq_ok, ensure_eq_ok, pure_eq_ok]
    exact ⟨_, rfl, _, ⟨(), rfl, rfl⟩, rfl⟩

/-- The checks of NAV that precede the settlement pass. -/
theorem FundedRedemption.fresh_ok (hf : FundedRedemption s ctx args r) :
    0 < s.vault.nav ∧ s.vault.assertFreshNavForRequest r.navUpdateVersion = .ok () ∧
      s.vault.assertNavNotStale s.clock.slot = .ok () := by
  refine ⟨?_, ?_, ?_⟩
  · apply Nat.pos_of_ne_zero
    intro h0
    have := hf.positive
    simp [VaultState.gross, h0] at this
  · unfold Vault.assertFreshNavForRequest
    split
    · next hfresh => exact ensure_eq_ok.2 (hf.fresh hfresh)
    · rfl
  · unfold Vault.assertNavNotStale
    split
    · rfl
    · next h0 =>
      obtain ⟨hle, hbound⟩ := hf.notStale.resolve_left h0
      simp only [bind_eq_ok, sub_eq_ok, ensure_eq_ok]
      exact ⟨_, ⟨hle, rfl⟩, hbound⟩

/-! ### The settlement -/

/-- The payment of a funded redemption: its value leaves the reserve for the escrow. -/
def ApproveRequest.payout (ctx : ApproveRequest) (s : VaultState) (r : Request) : Payout Pubkey :=
  .transfer ctx.assetTokenProgram s.vault.vaultTokenAccount s.vault.assetMint s.vault.pendingVault
    (s.gross r)

theorem VaultState.gross_eq (h : s.token.mints s.vault.shareMint = some share) :
    s.gross r = worth (10 ^ share.decimals) r.amount s.vault.nav := by
  rw [VaultState.gross, unit_of_some h]
  rfl

/-- No fee, no fee payments. -/
theorem paySettlementFee_zero {program : TokenProgram} {src m : Pubkey} :
    paySettlementFee s program src m 0 remaining = .ok s.token := by
  simp only [paySettlementFee, feeRecipientAccount, protocolFeeAccount, payFee, bind_eq_ok]
  exact ⟨_, splitProtocolFee_zero _, (none, remaining), rfl, none, rfl, _, rfl, rfl⟩

variable (remaining) in
/-- The settlement values the shares and makes the payment. -/
theorem FundedRedemption.settle_iff (hf : FundedRedemption s ctx args r)
    (hshare : s.token.mints s.vault.shareMint = some share) {ext : VaultExtensions}
    (hext : ext.withdrawalFee = none) {x : Settlement} :
    settleRedeem { s with extensions := ext } ctx ⟨0, none, none⟩ r s.vault.nav share remaining =
        .ok x ↔
      (10 ^ share.decimals < u128 ∧ r.amount * s.vault.nav < u128) ∧
        ∃ token, s.token.pay s.key (ctx.payout s r) = .ok token ∧
          x = ⟨{ s with extensions := ext, token := token }, s.gross r, s.gross r⟩ := by
  -- the transfer of the settlement is the payment
  have hpay : ∀ token : Ledger Pubkey, s.token.transferChecked ctx.assetTokenProgram
      ctx.vaultTokenAccount ctx.assetMint ctx.pendingVault s.key (s.gross r) = .ok token ↔
        s.token.pay s.key (ctx.payout s r) = .ok token := by
    intro token
    rw [hf.vaultTokenAccount, hf.assetMint, hf.pendingVault]
    rfl
  simp only [settleRedeem, maybeEnforceJuniorRatioFloor, updateTrancheSupplyCache, bind_eq_ok,
    pure_eq_ok, cpi_eq_ok]
  -- without a fee and a limit the two steps between change nothing
  have hnofee := getWithdrawalFeeAndNet_none hext
  have hlimit := Vault.consumeRedemptionRollingLimit_disabled hf.noLimit
  constructor
  · rintro ⟨assets, hassets, _, rfl, _, rfl, parts, hparts, v, hv, token₁, hfee, token, htoken, rfl⟩
    obtain rfl := Except.ok.inj ((hnofee assets).symm.trans hparts)
    obtain rfl := Except.ok.inj ((hlimit assets s.clock.slot).symm.trans hv)
    obtain rfl := Except.ok.inj (paySettlementFee_zero.symm.trans hfee)
    obtain ⟨hprecision, hproduct, -, -, rfl⟩ := calculateAssets_eq_ok.1 hassets
    rw [← VaultState.gross_eq hshare] at htoken ⊢
    exact ⟨⟨hprecision, hproduct⟩, token, (hpay token).1 htoken, rfl⟩
  · rintro ⟨⟨hprecision, hproduct⟩, token, htoken, rfl⟩
    have hvalue : calculateAssets s.vault.nav share.decimals r.amount = .ok (s.gross r) :=
      calculateAssets_eq_ok.2
        ⟨hprecision, hproduct, hf.positive, hf.bounded, VaultState.gross_eq hshare⟩
    exact ⟨_, hvalue, _, rfl, _, rfl, _, hnofee _, _, hlimit _ _, s.token, paySettlementFee_zero,
      token, (hpay token).2 htoken, rfl⟩

/-! ### The approval -/

/-- **When a funded redemption is approved**, in every state the whole program reaches, whatever
managed calls did before. -/
theorem funded_redemption_iff (hs : t.IsReachable verify)
    (hf : FundedRedemption t.core ctx args r) (remaining : List AccountInfo) :
    (∃ s', approveRequest t.core ctx args remaining = .ok s') ↔ t.core.CanSettle r := by
  have ht := hs.tallied
  generalize t.core = s at hf ht
  obtain ⟨ext, hext, hadvance⟩ := hf.advance remaining
  constructor
  · rintro ⟨s', h⟩
    obtain ⟨r', share, context, s₁, x, v, haccepted, hsettles⟩ := approveRequest_iff.1 h
    obtain rfl := Option.some.inj (haccepted.found.symm.trans hf.found)
    obtain rfl := Except.ok.inj (haccepted.context.symm.trans hf.context_eq)
    obtain rfl := Except.ok.inj (hsettles.queue.symm.trans hadvance)
    have hshare : s.token.mints s.vault.shareMint = some share := by
      rw [← hf.shareMint]
      exact haccepted.shareMint
    obtain ⟨hsettle, hdebit⟩ := hsettles.redeem hf.type
    obtain ⟨⟨hprecision, hproduct⟩, token, hpay, rfl⟩ :=
      (hf.settle_iff remaining hshare hext).1 hsettle
    obtain ⟨⟨-, hreserve, -⟩, ⟨hrunning, hsrc, hdst⟩, -⟩ := sound_of_pay hpay
    obtain ⟨y, hy, -, hfee⟩ := haccepted.assetMint
    have hpending := haccepted.pendingVault
    rw [hf.assetMint] at hy hpending
    rw [hf.pendingVault] at hpending
    exact ⟨(debitRedeem_ok hdebit).1, hproduct, ⟨share, hshare, hprecision⟩, ⟨y, hy, hfee⟩,
      hrunning, hreserve, hpending, hsrc, hdst⟩
  · intro h
    obtain ⟨share, hshare, hprecision⟩ := h.share
    obtain ⟨y, hy, -⟩ := h.asset
    obtain ⟨token, hpay⟩ : ∃ token, s.token.pay s.key (ctx.payout s r) = .ok token :=
      exists_pay ⟨⟨y, hy, hf.assetProgram y hy⟩, h.reserve, _, h.pendingVault⟩
        ⟨h.transferable, h.reserveThawed, h.pendingReceptive⟩ hf.funded
    have hsettle := (hf.settle_iff remaining hshare hext).2
      ⟨⟨hprecision, h.product⟩, token, hpay, rfl⟩
    obtain ⟨v, hdebit, hv⟩ : ∃ v, debitRedeem s.vault (s.gross r) = .ok v ∧
        v.pendingAsyncRequests = s.vault.pendingAsyncRequests := by
      simp only [debitRedeem, bind_eq_ok, sub_eq_ok, pure_eq_ok]
      exact ⟨_, ⟨_, ⟨h.recorded, rfl⟩, rfl⟩, rfl⟩
    -- a pending request is counted, so the counter can be lowered
    obtain ⟨s', hdec⟩ := ht.exists_decrement hf.found hf.pending (t := { s with
      extensions := ext
      token := token
      vault := v
      requests := s.requests.insert ctx.request
        { r with amount := s.gross r, price := s.vault.nav, requestState := .claimable } }) hv
    obtain ⟨hnav, hfresh, hstale⟩ := hf.fresh_ok
    refine ⟨s', approveRequest_iff.2 ⟨r, share, _, _, _, v, hf.accepted ht h hshare, hnav, hfresh,
      hstale, hadvance, fun hd => ?_, fun _ => ⟨hsettle, hdebit⟩, hdec⟩⟩
    rw [hf.type] at hd
    cases hd

open Scenario in
/-- **Non-vacuity.** Of 1000 shares bought at a NAV of 1, a redemption of 400 is
approved. -/
theorem funded_redemption_iff_covered :
    ∃ t r s', ManagedState.IsReachable noCalls t ∧ t.core.gross r = 400 ∧
      approveRequest t.core (approval 101 senior) ⟨user, .redeem, 400, 0, 1⟩ [] = .ok s' := by
  obtain ⟨tr, s, hs, hp⟩ := exists_reachable 0 0
    [anyNav, start, post 1, deposit 100 senior 1000, approve 100 senior .deposit 1000 1,
      collect 100 senior, redeem 101 senior 400]
    (fun _ s => (s.requests.lookup (address 101)).any fun r =>
      FundedRedemption s (approval 101 senior) ⟨user, .redeem, 400, 0, 1⟩ r ∧ s.gross r = 400 ∧
        s.gross r ≤ s.vault.totalAssetBalance ∧ r.amount * s.vault.nav < u128 ∧
        (∃ y ∈ s.token.mints s.vault.shareMint, 10 ^ y.decimals < u128) ∧
        (∃ y ∈ s.token.mints s.vault.assetMint, y.epochFeeBps = 0) ∧
        s.token.Transferable s.vault.assetMint ∧
        s.token.Thawed s.vault.vaultTokenAccount ∧ s.token.Receptive s.vault.pendingVault)
    (by decide +kernel)
  obtain ⟨r, -, hp⟩ := (Option.any_eq_true _ _).1 hp
  obtain ⟨hf, hgross, hrecorded, hproduct, hshare, hasset, hrunning, hreserve, hpending⟩ :=
    of_decide_eq_true hp
  have hv := hs.ledgered.wellFormed.terms
  obtain ⟨s', h⟩ := (funded_redemption_iff (t := unmanaged s) (unmanaged_reachable hs) hf []).2
    ⟨hrecorded, hproduct, hshare, hasset, hrunning, hv.reserve.holds, hv.pendingVault.holds,
      hreserve, hpending⟩
  exact ⟨unmanaged s, r, s', unmanaged_reachable hs, hgross, h⟩

open Scenario in
/-- **A funded redemption that cannot be approved.** 1000 shares are bought at a
NAV of 1, the NAV is posted as 2, and 1000 assets reach the reserve; redeeming
the shares is then refused by the subtraction from the recorded assets. -/
theorem funded_redemption_blocked :
    ∃ t r, ManagedState.IsReachable noCalls t ∧
      FundedRedemption t.core (approval 101 senior) ⟨user, .redeem, 1000, 0, 2⟩ r ∧
      t.core.gross r = 2000 ∧ t.core.token.balance t.core.vault.vaultTokenAccount = 2000 ∧
      t.core.vault.totalAssetBalance = 1000 ∧
      approveRequest t.core (approval 101 senior) ⟨user, .redeem, 1000, 0, 2⟩ [] =
        .error arithmetic := by
  obtain ⟨tr, s, hs, hp⟩ := exists_reachable 0 0
    [anyNav, start, post 1, deposit 100 senior 1000, approve 100 senior .deposit 1000 1,
      collect 100 senior, post 2, donate 1000, redeem 101 senior 1000]
    (fun _ s => (s.requests.lookup (address 101)).any fun r =>
      FundedRedemption s (approval 101 senior) ⟨user, .redeem, 1000, 0, 2⟩ r ∧
      s.gross r = 2000 ∧ s.token.balance s.vault.vaultTokenAccount = 2000 ∧
      s.vault.totalAssetBalance = 1000 ∧
      failsWith (approveRequest s (approval 101 senior) ⟨user, .redeem, 1000, 0, 2⟩ [])
        arithmetic = true)
    (by decide +kernel)
  obtain ⟨r, -, hp⟩ := (Option.any_eq_true _ _).1 hp
  obtain ⟨hf, hgross, hbalance, htotal, hfails⟩ := of_decide_eq_true hp
  exact ⟨unmanaged s, r, unmanaged_reachable hs, hf, hgross, hbalance, htotal, of_failsWith hfails⟩

end AsyncVault
